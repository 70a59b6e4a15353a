import Kroker.Graph.Validate
import Kroker.Graph.Router

/-!
# The graph dispatcher

`GraphDispatcher` of `workflows/graph_dispatch.py`: one coroutine that owns the router state, and a
task for every activation, running its handler.  A task appends what its handler returned or raised
to `results`; the coroutine takes the results in order, classifies each, waits at a budget boundary,
finalizes, stores the payload and advances the router.

Between two awaits the coroutine runs alone, so a run is a sequence of events: a task begins or
finishes, or what the coroutine awaits has come about (`DispatchEvent`).  What a handler returns,
how long it takes, whether it obeys its cancellation, whether the budget check passes and when the
whole run is cancelled is left open.  The event loop runs what is ready in order and every wait
suspends, so a task that was created before the coroutine waits has begun when the wait ends: the
coroutine's events are accepted only then (`allBegun`).

The clock, the attribution of activations and the projected configuration are left out: no branch
reads them.
-/

namespace Kroker

open GraphRouter

/-! ## 1. What handlers leave -/

inductive BudgetAfter where
  | none
  | continuing
  | exiting
  deriving DecidableEq

inductive PayloadModel (π : Type) where
  | model (m : π)
  | nodeFailure (activationId errorType message : String)

structure StoredPayload (π : Type) where
  model : Option (PayloadModel π)
  producer : String
  authorModel : Option String
  metadata : Dict String

/-- What a handler returns; `finalizes` says that it comes with a `finalize`. -/
structure NodeResult (π : Type) where
  port : String
  payload : Option (PayloadModel π) := none
  authorModel : Option String := none
  metadata : Dict String := ∅
  result : Option String := none
  finalizes : Bool := false

inductive Raised where
  | cancelled
  | budgetRejected
  /-- One of `FAILURE_TYPES`. -/
  | failure (errorType message : String)
  | other (message : String)

inductive HandlerOutcome (π : Type) where
  | returned (r : NodeResult π)
  | raised (e : Raised)

inductive TaskLife where
  | created
  | running
  | done
  deriving DecidableEq

structure HandlerTask where
  activation : Activation
  life : TaskLife

structure UnroutedFailure where
  activationId : String
  errorType : String

/-! ## 2. The dispatcher's state -/

/-- What the coroutine awaits, with what it has at hand. -/
inductive DispatchPhase (π : Type) where
  /-- A result. -/
  | collecting
  /-- All tasks, before the budget check of a boundary. -/
  | quiescing (aid : String) (r : NodeResult π)
  | checking (aid : String) (r : NodeResult π)
  | finalizing (aid : String) (r : NodeResult π)
  /-- The cancelled tasks, when the run is over. -/
  | draining
  /-- The tasks that were running when the run was cancelled. -/
  | unwinding (running : List String)
  | returned
  | raised (message : String)

/-- The dispatcher.  `step` is what the router last returned, and `_state` is its state; `calls` are
the calls of `advance`, newest first, and `spawned` has every task that was created.  These two are
kept for what is said about runs; the code keeps the tasks that are not finished in `tasks`, by the
ids of their activations. -/
structure Dispatcher (π : Type) where
  step : Step
  calls : List (Transition Step Event) := []
  phase : DispatchPhase π := .collecting
  spawned : Dict HandlerTask := ∅
  tasks : StrSet := ∅
  cancelled : List String := []
  results : List (String × HandlerOutcome π) := []
  payloads : Dict (StoredPayload π) := ∅
  terminalResult : Option String := none
  lastSinkResult : Option String := none
  budgetHalted : Bool := false
  storedFailure : Option (String × String) := none
  unrouted : Option UnroutedFailure := none
  escalatedBy : Option String := none

/-- What a dispatcher is built with. -/
structure DispatchConfig where
  topology : Topology
  graph : PipelineGraph
  registry : Registry
  /-- The node types that have a handler. -/
  handlers : StrSet
  /-- `budget_after` of a node type. -/
  budgetAfter : String → BudgetAfter

namespace DispatchConfig

def nodes (D : DispatchConfig) : Dict GraphNode :=
  Dict.ofItems (D.graph.nodes.map fun n => (n.id, n))

def specOf (D : DispatchConfig) (nodeId : String) : Option NodeTypeSpec :=
  D.nodes[nodeId]?.bind fun node => D.registry[node.type]?

/-- What `_start` looks up is there. -/
def hasHandler (D : DispatchConfig) (nodeId : String) : Bool :=
  match D.nodes[nodeId]? with
  | some node => node.type ∈ D.registry && node.type ∈ D.handlers
  | none => false

end DispatchConfig

namespace Dispatcher

variable {π : Type} (D : DispatchConfig) (d : Dispatcher π)

/-! ## 3. The loop -/

def isLive (aid : String) : Bool := aid ∈ d.step.state.live

def allBegun : Bool := d.spawned.toList.all fun p => p.2.life ≠ .created

/-- Every one of these tasks is done. -/
def allDone (ids : List String) : Bool :=
  ids.all fun aid => (d.spawned[aid]?.map (·.life)) = some .done

/-- `_start`: the task of an activation. -/
def startTask (a : Activation) : Dispatcher π :=
  { d with
    tasks := d.tasks.insert a.activationId
    spawned := d.spawned.insert a.activationId ⟨a, .created⟩ }

/-- The top of the loop: the activations that are held are started, and the coroutine waits for a
result, or for the cancelled tasks when the run is over. -/
def enter : Dispatcher π → List Activation → Dispatcher π
  | d, [] =>
    { d with phase := if d.step.state.outcome = .running then .collecting else .draining }
  | d, a :: held =>
    if D.hasHandler a.nodeId then enter (d.startTask a) held
    else { d with phase := .raised ("KeyError: " ++ quoted a.nodeId) }

/-- `_apply`. -/
def applyStep (event : Event) (step : Step) : Dispatcher π :=
  { d with
    step := step
    calls := ⟨d.step, event, step⟩ :: d.calls
    tasks := d.tasks.filter (· ∉ step.cancelled)
    cancelled := d.cancelled ++ step.cancelled.filter (· ∈ d.tasks) }

/-- `_halt_budget`, and the next round of the loop. -/
def haltBudget : Dispatcher π :=
  match advance D.topology d.step.state (.halt ⟨.rejected, "budget"⟩) with
  | .error message => { d with phase := .raised message }
  | .ok step => enter D { d.applyStep (.halt ⟨.rejected, "budget"⟩) step with budgetHalted := true } []

def refOf (aid port : String) : String := aid ++ "." ++ port

/-- The result strings of a run. -/
def recordResult (r : NodeResult π) (edges : List String) (outcome : Outcome) : Dispatcher π :=
  match r.result with
  | none => d
  | some text =>
    if outcome = .rejected ∨ outcome = .failed then { d with terminalResult := some text }
    else if edges = [] then { d with lastSinkResult := some text }
    else d

def storePayload (aid : String) (r : NodeResult π) : Dispatcher π :=
  { d with
    payloads := d.payloads.insert (refOf aid r.port)
      ⟨r.payload, aid, r.authorModel, r.metadata⟩ }

/-- The rest of a round once a result is final: the payload is stored, the router advanced. -/
def emit (aid : String) (r : NodeResult π) : Dispatcher π :=
  let stored := d.storePayload aid r
  match d.step.state.live[aid]? with
  | none => { stored with phase := .raised "StopIteration" }
  | some live =>
    let escalatedBy := if r.port ∈ live.unavailablePorts && d.escalatedBy.isNone then some aid
      else d.escalatedBy
    let event : Event := .emitted ⟨aid, r.port, refOf aid r.port⟩
    match advance D.topology d.step.state event with
    | .error message => { stored with escalatedBy := escalatedBy, phase := .raised message }
    | .ok step =>
      enter D (({ stored with escalatedBy := escalatedBy }.applyStep event step).recordResult r
        ((D.topology.outPortsOf (nodeOf aid)).getD r.port []) step.outcome) step.activations

/-- The round after its budget boundary. -/
def finalizeOrEmit (aid : String) (r : NodeResult π) : Dispatcher π :=
  if r.finalizes then { d with phase := .finalizing aid r } else d.emit D aid r

def isBoundary (nodeId : String) (edges : List String) : Bool :=
  match D.nodes[nodeId]?.map fun node => D.budgetAfter node.type with
  | none | some .none => false
  | some mode =>
    if edges.any (· ∈ D.topology.bounds) then false
    else mode = .exiting || edges ≠ []

/-- The checks of a classified result, and what the coroutine then waits for. -/
def acceptResult (aid : String) (r : NodeResult π) : Dispatcher π :=
  let nodeId := nodeOf aid
  match (D.topology.outPortsOf nodeId)[r.port]? with
  | none => { d with phase := .raised (aid ++ ": " ++ quoted r.port ++ " is not an out-port of " ++
      quoted nodeId) }
  | some edges =>
    if r.result.isSome ∧ edges ≠ [] ∧ r.port ∉ D.topology.terminalsOf nodeId then
      { d with phase := .raised (aid ++ ": result on the edged non-terminal port " ++
          quoted r.port) }
    else if isBoundary D nodeId edges then { d with phase := .quiescing aid r }
    else d.finalizeOrEmit D aid r

/-- The coroutine is leaving with a cancellation: it waits for the tasks it cancels. -/
def unwind : Dispatcher π := { d with phase := .unwinding d.tasks.toList }

/-- `_classify`, and what follows it. -/
def classify (aid : String) : HandlerOutcome π → Dispatcher π
  | .returned r => d.acceptResult D aid r
  | .raised .cancelled => d.unwind
  | .raised .budgetRejected => d.haltBudget D
  | .raised (.other message) => { d with phase := .raised message }
  | .raised (.failure errorType message) =>
    let nodeId := nodeOf aid
    let failed : NodeResult π :=
      { port := "fail", payload := some (.nodeFailure aid errorType message) }
    match (D.specOf nodeId).bind fun spec => findPort spec "fail" .output with
    | none => { d with phase := .raised message }
    | some _ =>
      match (D.topology.outPortsOf nodeId)["fail"]? with
      | none => { d with phase := .raised "KeyError: 'fail'" }
      | some edges =>
        acceptResult D
          (if edges = [] then
            { d with
              storedFailure := some (errorType, message)
              unrouted := some ⟨aid, errorType⟩ }
          else d) aid failed

/-- A round of the loop: the oldest result is taken, and dropped if its activation is not live. -/
def collect : Dispatcher π :=
  match d.results with
  | [] => d
  | (aid, outcome) :: results =>
    let taken := { d with results := results, tasks := d.tasks.erase aid }
    if taken.isLive aid then taken.classify D aid outcome else enter D taken []

end Dispatcher

/-! ## 4. Runs -/

inductive BudgetAnswer where
  | accepted
  | rejected
  | raised (message : String)

inductive DispatchEvent (π : Type) where
  /-- A task takes its first step: it calls its handler. -/
  | begin (aid : String)
  /-- A handler returns or raises. -/
  | finish (aid : String) (outcome : HandlerOutcome π)
  /-- What the coroutine waits for holds. -/
  | wake
  /-- `_check_budget` is over. -/
  | budget (answer : BudgetAnswer)
  /-- `finalize` is over, or has raised. -/
  | finalized (raised : Option String)
  /-- The run is cancelled. -/
  | cancel

namespace Dispatcher

variable {π : Type} (D : DispatchConfig) (d : Dispatcher π)

def setLife (aid : String) (task : HandlerTask) (life : TaskLife) : Dispatcher π :=
  { d with spawned := d.spawned.insert aid { task with life := life } }

/-- The coroutine goes on from a wait whose condition holds. -/
def wake : Option (Dispatcher π) :=
  match d.phase with
  | .collecting => if d.results = [] then none else some (d.collect D)
  | .quiescing aid r =>
    if d.allDone d.tasks.toList then some { d with phase := .checking aid r } else none
  | .draining => if d.allDone d.cancelled then some { d with phase := .returned } else none
  | .unwinding running =>
    if d.allDone running then some { d with phase := .raised "CancelledError" } else none
  | _ => none

/-- The run is cancelled while the coroutine waits. -/
def cancel : Option (Dispatcher π) :=
  match d.phase with
  | .returned | .raised _ => none
  | .unwinding _ => some { d with phase := .raised "CancelledError" }
  | _ => some d.unwind

/-- What an event does, where it can happen. -/
def next (d : Dispatcher π) : DispatchEvent π → Option (Dispatcher π)
  | .begin aid =>
    match d.spawned[aid]? with
    | some task => if task.life = .created then some (d.setLife aid task .running) else none
    | none => none
  | .finish aid outcome =>
    match d.spawned[aid]? with
    | some task =>
      if task.life = .running then
        some { d.setLife aid task .done with results := d.results ++ [(aid, outcome)] }
      else none
    | none => none
  | .wake => if d.allBegun then d.wake D else none
  | .budget answer =>
    if d.allBegun then
      match d.phase with
      | .checking aid r =>
        match answer with
        | .accepted => some (d.finalizeOrEmit D aid r)
        | .rejected => some (d.haltBudget D)
        | .raised message => some { d with phase := .raised message }
      | _ => none
    else none
  | .finalized raised =>
    if d.allBegun then
      match d.phase with
      | .finalizing aid r =>
        match raised with
        | none => some (d.emit D aid r)
        | some message => some { d with phase := .raised message }
      | _ => none
    else none
  | .cancel => if d.allBegun then d.cancel else none

/-- `run`, up to its first wait. -/
def initial (π : Type) (D : DispatchConfig) : Dispatcher π :=
  enter D { step := start D.topology } (start D.topology).activations

end Dispatcher

abbrev DispatchRun {π : Type} (D : DispatchConfig) :
    List (Transition (Dispatcher π) (DispatchEvent π)) → Dispatcher π → Prop :=
  Run (Dispatcher.initial π D) (Dispatcher.next D)

end Kroker
