import Kroker.Graph.Topology
import Kroker.Library.Run

/-!
# The graph router

The pure reducer of `graph/router.py`: `start` issues the entry node, `advance` applies one emission
or a halt.  An activation emits on exactly one out-port.  A forward edge delivers a token into the
slot of the edge; a back edge counts a traversal, invalidates `REGION(target)` and only then
delivers.  Slots are never cleared by an activation, and rounds and counters never reset.

`RouterState` is both the frozen state and the scratch copy one `advance` works on.  Its maps, its
live activations (keyed by activation id) and its retired ids are sorted collections by their type;
the two lists that are sorted when a state is frozen are sorted by `freeze`.  A call that raises is
`Except.error` with the text of the exception, and returns no state.
-/

namespace Kroker

/-! ## States and events -/

inductive Outcome where
  | running
  | completed
  | rejected
  | escalated
  | failed
  deriving DecidableEq

/-- The wire text of an outcome. -/
def Outcome.value : Outcome → String
  | .running => "running"
  | .completed => "completed"
  | .rejected => "rejected"
  | .escalated => "escalated"
  | .failed => "failed"

/-- `outcome in _TERMINAL`. -/
def Outcome.isTerminal : Outcome → Bool
  | .running | .completed => false
  | .rejected | .escalated | .failed => true

/-- The outcome a terminal port, or a halt, ends the run with. -/
def Terminal.outcome : Terminal → Outcome
  | .rejected => .rejected
  | .failed => .failed

/-- Why a loop port could not be taken when the activation was issued. -/
inductive Unavailable where
  | exhausted
  | targetDead
  deriving DecidableEq

def Unavailable.value : Unavailable → String
  | .exhausted => "exhausted"
  | .targetDead => "target_dead"

inductive DropReason where
  | stale
  | duplicate
  | postTerminal
  deriving DecidableEq

def DropReason.value : DropReason → String
  | .stale => "stale"
  | .duplicate => "duplicate"
  | .postTerminal => "post_terminal"

inductive NodeStatus where
  | pending
  | running
  | done
  | dead
  deriving DecidableEq

/-- `round` counts activations and never goes down. -/
structure NodeState where
  round : ℕ := 0
  status : NodeStatus := .pending
  takenPort : Option String := none
  deriving DecidableEq

/-- What fills a slot; `producer` is an activation id. -/
structure Token where
  payloadRef : String
  producer : String
  deriving DecidableEq

/-- An issued, unfinished activation and its issue-time snapshot of unavailable ports. -/
structure LiveActivation where
  activationId : String
  nodeId : String
  unavailablePorts : Dict Unavailable
  deriving DecidableEq

structure Emission where
  activationId : String
  port : String
  payloadRef : String
  deriving DecidableEq

structure Dropped where
  activationId : String
  port : String
  reason : DropReason
  deriving DecidableEq

def Dropped.sortKey (d : Dropped) : List String := [d.activationId, d.port, d.reason.value]

structure RouterState where
  nodes : Dict NodeState
  slots : Dict Token := ∅
  traversals : Dict ℕ := ∅
  live : Dict LiveActivation := ∅
  retired : StrSet := ∅
  emissions : List Emission := []
  dropped : List Dropped := []
  outcome : Outcome := .running
  reason : Option String := none
  deriving DecidableEq

namespace RouterState

/-- `nodes[n]`. -/
def node (w : RouterState) (n : String) : NodeState := w.nodes.getD n {}

/-- `traversals.get(eid, 0)`. -/
def traversed (w : RouterState) (eid : String) : ℕ := w.traversals.getD eid 0

def setNode (w : RouterState) (n : String) (ns : NodeState) : RouterState :=
  { w with nodes := w.nodes.insert n ns }

def freeze (w : RouterState) : RouterState :=
  { w with
    emissions := w.emissions.insertionSort fun a b => a.activationId ≤ b.activationId
    dropped := w.dropped.insertionSort fun a b => a.sortKey ≤ b.sortKey }

end RouterState

/-- A handler's single emission. -/
structure Emitted where
  activationId : String
  port : String
  payloadRef : String
  deriving DecidableEq

/-- A dispatcher-level stop. -/
structure Halt where
  outcome : Terminal
  reason : String

inductive Event where
  | emitted (e : Emitted)
  | halt (h : Halt)

/-- The payload of a `one` port, or the payloads of a `many` port in the order of its edges. -/
inductive Input where
  | one (payloadRef : String)
  | many (payloadRefs : List String)
  deriving DecidableEq

structure Activation where
  activationId : String
  nodeId : String
  round : ℕ
  inputs : Dict Input
  unavailablePorts : Dict Unavailable
  deriving DecidableEq

structure Step where
  state : RouterState
  activations : List Activation
  cancelled : List String
  outcome : Outcome
  reason : Option String
  deriving DecidableEq

namespace GraphRouter

variable (t : Topology)

/-! ## Deadness and readiness -/

inductive PortState where
  | filled
  | dead
  | empty
  deriving DecidableEq

def edgeDead (w : RouterState) (eid : String) : Bool :=
  let ns := w.node (t.endpoints eid).source
  ns.status = .dead || (ns.status = .done && ns.takenPort ≠ some (t.endpoints eid).sourcePort)

def portState (w : RouterState) (wiring : PortWiring) : PortState :=
  if wiring.forwardEdges.all (edgeDead t w) then .dead
  else
    match wiring.multiplicity with
    | .one => if wiring.forwardEdges.any (· ∈ w.slots) then .filled else .empty
    | .many =>
      if wiring.forwardEdges.all (fun e => e ∈ w.slots || edgeDead t w e) &&
        wiring.forwardEdges.any (· ∈ w.slots) then .filled else .empty

def fedPortStates (w : RouterState) (nodeId : String) : List (PortWiring × PortState) :=
  ((t.inPortsOf nodeId).toList.filter fun p => p.2.forwardEdges ≠ []).map fun p =>
    (p.2, portState t w p.2)

def isDead (w : RouterState) (nodeId : String) : Bool :=
  let states := fedPortStates t w nodeId
  if states = [] then false
  else if states.any fun s => s.1.required && s.2 = .dead then true
  else states.all fun s => s.2 = .dead

def isReady (w : RouterState) (nodeId : String) : Bool :=
  (fedPortStates t w nodeId).all fun s =>
    if s.1.required then s.2 = .filled else s.2 = .filled || s.2 = .dead

/-! ## What an activation is issued with -/

/-- The edges of a port that carry something, in order; `content` is what an edge carries. -/
def occupied (content : String → Option String) (wiring : PortWiring) : List String :=
  ((wiring.forwardEdges ++ wiring.backEdges).filter fun e => (content e).isSome).insertionSort
    (· ≤ ·)

/-- What a port hands to its activation. -/
def portInput (content : String → Option String) (wiring : PortWiring) : Option Input :=
  match occupied content wiring with
  | [] => none
  | e :: es =>
    match wiring.multiplicity with
    | .many => some (.many ((e :: es).filterMap content))
    | .one => (content e).map .one

def portInputs (content : String → Option String) (nodeId : String) : Dict Input :=
  (t.inPortsOf nodeId).filterMap fun _ wiring => portInput content wiring

/-- A `one` port holds two tokens. -/
def overfull (content : String → Option String) (wiring : PortWiring) : Bool :=
  wiring.multiplicity = .one && 1 < (occupied content wiring).length

def slotPayload (w : RouterState) (eid : String) : Option String :=
  w.slots[eid]?.map Token.payloadRef

/-- `_inputs`: nothing when a `one` port holds two tokens. -/
def inputs (w : RouterState) (nodeId : String) : Option (Dict Input) :=
  if (t.inPortsOf nodeId).toList.any fun p => overfull (slotPayload w) p.2 then none
  else some (portInputs t (slotPayload w) nodeId)

def unavailable (w : RouterState) (nodeId : String) : Dict Unavailable :=
  (t.outPortsOf nodeId).filterMap fun _ eids =>
    match eids with
    | [eid] =>
      t.bounds[eid]?.bind fun bound =>
        if bound ≤ w.traversed eid then some .exhausted
        else if (w.node (t.endpoints eid).target).status = .dead then some .targetDead
        else none
    | _ => none

/-! ## Ending and settling -/

/-- `_terminate`: the run is over and nothing stays live. -/
def terminate (w : RouterState) (outcome : Outcome) (reason : String) (emitter : Option String)
    (cancelled : List String) : Step :=
  let others := w.live.keys.filter fun a => some a ≠ emitter
  { state := RouterState.freeze
      { w with
        retired := w.retired.insertMany w.live.keys
        live := ∅
        outcome := outcome
        reason := some reason }
    activations := []
    cancelled := sortedSet (cancelled ++ others)
    outcome := outcome
    reason := some reason }

def markDead (p : RouterState × Bool) (n : String) : RouterState × Bool :=
  if (p.1.node n).status = .pending && isDead t p.1 n then
    (p.1.setNode n { round := (p.1.node n).round, status := .dead }, true)
  else p

/-- `while changed`.  Every pass but the last marks a node, so one more pass than there are nodes is
enough. -/
def settleDead : ℕ → RouterState → RouterState
  | 0, w => w
  | fuel + 1, w =>
    let pass := t.nodeIds.foldl (markDead t) (w, false)
    if pass.2 then settleDead fuel pass.1 else pass.1

/-- The first half of phase B: the ready nodes with their inputs, or the first of them that holds
two tokens on a `one` port. -/
def collectReady (w : RouterState) : List String → Except String (List (String × Dict Input))
  | [] => .ok []
  | n :: ns =>
    if (w.node n).status = .pending && isReady t w n then
      match inputs t w n with
      | none => .error n
      | some i => (collectReady w ns).map ((n, i) :: ·)
    else collectReady w ns

def issue (w : RouterState) (n : String) (i : Dict Input) : RouterState × Activation :=
  let round := (w.node n).round + 1
  let ports := unavailable t w n
  ({ w.setNode n { round := round, status := .running } with
      live := w.live.insert (gateKey n round)
        { activationId := gateKey n round, nodeId := n, unavailablePorts := ports } },
    { activationId := gateKey n round, nodeId := n, round := round, inputs := i,
      unavailablePorts := ports })

def issueAll (w : RouterState) : List (String × Dict Input) → RouterState × List Activation
  | [] => (w, [])
  | (n, i) :: ready =>
    ((issueAll (issue t w n i).1 ready).1,
      (issue t w n i).2 :: (issueAll (issue t w n i).1 ready).2)

/-- `_settle`: deadness to a fixpoint, then every ready node is issued. -/
def settle (w : RouterState) (cancelled : List String) : Step :=
  let w := settleDead t (t.nodeIds.length + 1) w
  match collectReady t w t.nodeIds with
  | .error n =>
    terminate w .escalated s!"router_invariant: {n} holds two tokens on a one port" none cancelled
  | .ok ready =>
    let issued := issueAll t w ready
    let outcome := if issued.1.live.isEmpty then .completed else .running
    { state := RouterState.freeze { issued.1 with outcome := outcome, reason := none }
      activations := issued.2
      cancelled := cancelled.insertionSort (· ≤ ·)
      outcome := outcome
      reason := none }

def start : Step :=
  settle t { nodes := Dict.ofItems (t.nodeIds.map fun n => (n, {})) } []

/-! ## Applying an emission -/

def issuedNode (w : RouterState) (activationId : String) : Except String String :=
  let (nodeId, sep, k) := rpartition activationId '#'
  if sep = "#" && nodeId ∈ w.nodes && isDigits k && 1 ≤ intOf k && intOf k ≤ (w.node nodeId).round
  then .ok nodeId
  else .error s!"{quoted activationId} was never issued"

def drop (w : RouterState) (event : Emitted) (reason : DropReason) : Step :=
  { state := RouterState.freeze
      { w with dropped := w.dropped ++ [⟨event.activationId, event.port, reason⟩] }
    activations := []
    cancelled := []
    outcome := w.outcome
    reason := w.reason }

def notLive (w : RouterState) (event : Emitted) : Except String Step :=
  if event.activationId ∈ w.retired then
    .ok (drop w event (if w.outcome.isTerminal then .postTerminal else .stale))
  else
    match w.emissions.find? fun e => e.activationId = event.activationId with
    | none =>
      .error (s!"{quoted event.activationId} is issued but neither live, retired nor finished")
    | some applied =>
      if applied.port = event.port ∧ applied.payloadRef = event.payloadRef then
        .ok (drop w event .duplicate)
      else
        .error (s!"{quoted event.activationId} already emitted " ++
          s!"{quoted applied.port}/{quoted applied.payloadRef}; " ++
          s!"got a conflicting {quoted event.port}/{quoted event.payloadRef}")

/-- `_traverse_back` on the state: the region of the target is invalidated before the token is
delivered, so the new token of a self-loop survives.  `regions` only names nodes of the graph. -/
def traverseBack (w : RouterState) (eid : String) (token : Token) : RouterState :=
  let region := t.region (t.endpoints eid).target
  { w with
    traversals := w.traversals.insert eid (w.traversed eid + 1)
    slots := (w.slots.filter fun _ tok => nodeOf tok.producer ∉ region).insert eid token
    live := w.live.filter fun _ l => l.nodeId ∉ region
    retired := w.retired.insertMany (w.live.filter fun _ l => l.nodeId ∈ region).keys
    nodes := w.nodes.map fun n ns => if n ∈ region then { round := ns.round } else ns }

/-- The activations `_traverse_back` cancels. -/
def cancelledBy (w : RouterState) (eid : String) : List String :=
  (w.live.filter fun _ l => l.nodeId ∈ t.region (t.endpoints eid).target).keys

/-- Step 6: one token into the slot of every edge of the port. -/
def deliver (w : RouterState) (token : Token) : List String → Step
  | [] => settle t w []
  | eid :: eids =>
    if eid ∈ w.slots then
      terminate w .escalated s!"router_invariant: delivery into occupied slot {eid}" none []
    else deliver { w with slots := w.slots.insert eid token } token eids

/-- Step 3: the activation is done and its emission is recorded. -/
def finish (w : RouterState) (nodeId : String) (event : Emitted) : RouterState :=
  { w.setNode nodeId
      { round := (w.node nodeId).round, status := .done, takenPort := some event.port } with
    live := w.live.erase event.activationId
    emissions := w.emissions ++ [⟨event.activationId, event.port, event.payloadRef⟩] }

def route (w : RouterState) (nodeId : String) (event : Emitted) (edges : List String) : Step :=
  let token : Token := ⟨event.payloadRef, event.activationId⟩
  match edges with
  | [] =>
    -- a terminal port ends the run; any other edgeless port is a sink
    match (t.terminalsOf nodeId)[event.port]? with
    | some kind => terminate w kind.outcome s!"{nodeId}.{event.port}" none []
    | none => settle t w []
  | eid :: _ =>
    if eid ∈ t.bounds then settle t (traverseBack t w eid token) (cancelledBy t w eid)
    else deliver t w token edges

def applyEmitted (state : RouterState) (event : Emitted) (nodeId : String) : Except String Step :=
  match (t.outPortsOf nodeId)[event.port]? with
  | none =>
    .error (s!"{event.activationId}: {quoted event.port} is not an out-port of {quoted nodeId}")
  | some edges =>
    match state.live[event.activationId]? with
    | none => notLive state event
    | some live =>
      match live.unavailablePorts[event.port]? with
      | some why =>
        .ok (terminate state .escalated s!"{nodeId}.{event.port}: {why.value}"
          (some event.activationId) [])
      | none => .ok (route t (finish state nodeId event) nodeId event edges)

def advance (state : RouterState) : Event → Except String Step
  | .halt h =>
    if state.outcome ≠ .running then
      .error s!"halt after terminal outcome {quoted state.outcome.value} ({quoted h.reason})"
    else .ok (terminate state h.outcome.outcome h.reason none [])
  | .emitted event => (issuedNode state event.activationId).bind (applyEmitted t state event)

/-! ## Runs -/

/-- One call of `advance` on the state a step returned; a call that raises is refused. -/
def next (s : Step) (event : Event) : Option Step := (advance t s.state event).toOption

/-- The runs of the router: `start()`, then any calls of `advance` that do not raise. -/
abbrev RouterRun : List (Transition Step Event) → Step → Prop := Run (start t) (next t)

def ReachableState (state : RouterState) : Prop :=
  ∃ s, Reachable (start t) (next t) s ∧ s.state = state

end GraphRouter

end Kroker
