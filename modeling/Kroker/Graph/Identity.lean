import Kroker.Graph.Model
import Kroker.Library.JsonTree
import Kroker.Library.Keyed

/-!
# The identity of a graph

`graph/model.py` names a stored graph by hashes of two texts: `canonical_json`, which leaves out
what the canvas draws, and the same with it.  Nodes and edges are put in order when a graph is
built, so the order in which they were authored is not seen.

A float is known here by the text that JSON has for it, so `0.0` and `-0.0` are two.

* `contentSha_eq_iff`, `documentSha_eq_iff` --- when two graphs have one sha;
* `identity` --- these, and what parsing one of the two texts comes to.
-/

namespace Kroker.GraphIdentity

open JsonText

/-! ## 1.  Documents -/

/-- `TYPE_PATTERN`: an id, or two with a dot between. -/
def isTypeName (s : String) : Bool :=
  isId s || match s.toList.span (· ≠ '.') with
    | (a, _ :: b) => isId (String.ofList a) && isId (String.ofList b)
    | _ => false

abbrev Id := {s : String // isId s = true}

abbrev TypeName := {s : String // isTypeName s = true}

abbrev Positive := {n : ℕ // decide (0 < n) = true}

/-- Floating-point numbers, with `repr` and `float`. -/
structure Floats (F : Type) where
  toToken : F → JsonText.Token
  fromToken : JsonText.Token → Option F
  fromToken_toToken : ∀ x, fromToken (toToken x) = some x
  /-- `0.0 <= x <= 1.0`. -/
  inUnit : F → Bool
  /-- `0.8`. -/
  threshold : {x : F // inUnit x = true}

structure RoleConfig where
  kind : RoleKind := .harness
  harness : Option HarnessKind := none
  model : Option String := none
  layout : Option String := none
  leadHarness : Option HarnessKind := none
  provider : Option ResearchProvider := none
  toolFiles : List String := []
  instructions : Option String := none
  contextBudgetTokens : ℤ := 30000
  extraArgs : List String := []
  activityTimeoutHours : Option ℤ := none
  activityHeartbeatMinutes : Option ℤ := none

variable {F : Type} [DecidableEq F]

structure GateConfig (floats : Floats F) where
  policy : GatePolicy := .hard
  threshold : {x : F // floats.inUnit x = true} := floats.threshold
  onTimeout : TimeoutAction := .reject
  remindAfterHours : Option Positive := none
  escalateAfterHours : Option Positive := none

structure NodePosition (F : Type) where
  x : F
  y : F

structure GraphNode (floats : Floats F) where
  id : Id
  type : TypeName
  role : Option RoleConfig := none
  gate : Option (GateConfig floats) := none
  position : Option (NodePosition F) := none
  label : Option String := none

structure GraphEdge where
  source : Id
  sourcePort : Id
  target : Id
  targetPort : Id
  maxTraversals : Option Positive := none
  label : Option String := none

/-! ## 2.  How they are written -/

def roleKind : Codec RoleKind :=
  Codec.enum [.proposer, .harness, .research]
    (fun
      | .proposer => "proposer"
      | .harness => "harness"
      | .research => "research")
    (fun a => by cases a <;> decide)
    (fun a b h => by cases a <;> cases b <;> first | rfl | exact absurd h (by decide))

def harnessKind : Codec HarnessKind :=
  Codec.enum [.claudeCode, .opencode, .cursor, .crew]
    (fun
      | .claudeCode => "claude_code"
      | .opencode => "opencode"
      | .cursor => "cursor"
      | .crew => "crew")
    (fun a => by cases a <;> decide)
    (fun a b h => by cases a <;> cases b <;> first | rfl | exact absurd h (by decide))

def provider : Codec ResearchProvider :=
  Codec.enum [.tavily, .exa, .fake]
    (fun
      | .tavily => "tavily"
      | .exa => "exa"
      | .fake => "fake")
    (fun a => by cases a <;> decide)
    (fun a b h => by cases a <;> cases b <;> first | rfl | exact absurd h (by decide))

def gatePolicy : Codec GatePolicy :=
  Codec.enum [.hard, .soft, .off]
    (fun
      | .hard => "hard"
      | .soft => "soft"
      | .off => "off")
    (fun a => by cases a <;> decide)
    (fun a b h => by cases a <;> cases b <;> first | rfl | exact absurd h (by decide))

def timeoutAction : Codec TimeoutAction :=
  Codec.enum [.reject, .approve, .hold]
    (fun
      | .reject => "reject"
      | .approve => "approve"
      | .hold => "hold")
    (fun a => by cases a <;> decide)
    (fun a b h => by cases a <;> cases b <;> first | rfl | exact absurd h (by decide))

theorem proper_of_digit {c : Char} (h : c.isDigit = true ∨ c = '-') :
    c ∉ ['"', '[', ']', '{', '}', ',', ':'] := by
  intro hmem
  rcases h with h | rfl
  · have hall : ∀ d ∈ ['"', '[', ']', '{', '}', ',', ':'], d.isDigit = false := by decide
    rw [hall c hmem] at h
    cases h
  · exact absurd hmem (by decide)

theorem isDigit_toString (n : ℕ) : ∀ c ∈ (toString n).toList, c.isDigit = true := by
  have h := isDigits_toString n
  rw [isDigits, Bool.and_eq_true, List.all_eq_true] at h
  exact h.2

theorem toString_ne_nil (n : ℕ) : (toString n).toList ≠ [] := by
  have h := isDigits_toString n
  rw [isDigits, Bool.and_eq_true, decide_eq_true_eq] at h
  exact h.1

def natural : Codec ℕ :=
  Codec.ofToken
    (fun n => ⟨(toString n).toList, toString_ne_nil n,
      fun c hc => proper_of_digit (.inl (isDigit_toString n c hc))⟩)
    (fun w =>
      if isDigits (String.ofList w.chars) then some (intOf (String.ofList w.chars)) else none)
    (fun n => by
      dsimp only
      rw [String.ofList_toList, if_pos (isDigits_toString n), intOf_toString])

/-- The digits of an integer, after its sign. -/
def digits : ℤ → List Char
  | .ofNat n => (toString n).toList
  | .negSucc n => '-' :: (toString (n + 1)).toList

def ofDigits : List Char → Option ℤ
  | '-' :: cs => if isDigits (String.ofList cs) then some (-intOf (String.ofList cs)) else none
  | cs => if isDigits (String.ofList cs) then some (intOf (String.ofList cs)) else none

theorem ofDigits_digits (z : ℤ) : ofDigits (digits z) = some z := by
  cases z with
  | ofNat n =>
    rw [digits, ofDigits]
    · rw [String.ofList_toList, if_pos (isDigits_toString n), intOf_toString]
      rfl
    · intro cs hcs
      have hdigit := isDigit_toString n '-' (by rw [hcs]; exact List.mem_cons_self)
      exact absurd hdigit (by decide)
  | negSucc n =>
    rw [digits, ofDigits, String.ofList_toList, if_pos (isDigits_toString (n + 1)), intOf_toString]
    rfl

def integer : Codec ℤ :=
  Codec.ofToken
    (fun z => ⟨digits z,
      by
        cases z with
        | ofNat n => exact toString_ne_nil n
        | negSucc n => exact List.cons_ne_nil _ _,
      fun c hc => by
        cases z with
        | ofNat n => exact proper_of_digit (.inl (isDigit_toString n c hc))
        | negSucc n =>
          rcases List.mem_cons.mp hc with rfl | hc
          · exact proper_of_digit (.inr rfl)
          · exact proper_of_digit (.inl (isDigit_toString (n + 1) c hc))⟩)
    (fun w => ofDigits w.chars)
    (fun z => ofDigits_digits z)

def positive : Codec Positive := natural.restrict fun n => decide (0 < n)

def floating (floats : Floats F) : Codec F :=
  Codec.ofToken floats.toToken floats.fromToken floats.fromToken_toToken

def id : Codec Id := Codec.text.restrict isId

def typeName : Codec TypeName := Codec.text.restrict isTypeName

/-! ## 3.  The models -/

def roleFields (r : RoleConfig) : List (List Char × Option Tree) :=
  [("kind".toList, roleKind.field .harness r.kind),
    ("harness".toList, harnessKind.optional r.harness),
    ("model".toList, Codec.text.optional r.model),
    ("layout".toList, Codec.text.optional r.layout),
    ("lead_harness".toList, harnessKind.optional r.leadHarness),
    ("provider".toList, provider.optional r.provider),
    ("tool_files".toList, Codec.text.list.field [] r.toolFiles),
    ("instructions".toList, Codec.text.optional r.instructions),
    ("context_budget_tokens".toList, integer.field 30000 r.contextBudgetTokens),
    ("extra_args".toList, Codec.text.list.field [] r.extraArgs),
    ("activity_timeout_hours".toList, integer.optional r.activityTimeoutHours),
    ("activity_heartbeat_minutes".toList, integer.optional r.activityHeartbeatMinutes)]

def roleKeys : List (List Char) :=
  ["kind".toList, "harness".toList, "model".toList, "layout".toList, "lead_harness".toList,
    "provider".toList, "tool_files".toList, "instructions".toList, "context_budget_tokens".toList,
    "extra_args".toList, "activity_timeout_hours".toList, "activity_heartbeat_minutes".toList]

theorem nodup_roleKeys : roleKeys.Nodup := by decide +kernel

def readRole (t : Tree) : Option RoleConfig :=
  if t.keysWithin roleKeys then do
    let kind ← roleKind.readField .harness (t.get? "kind".toList)
    let harness ← harnessKind.readOptional (t.get? "harness".toList)
    let model ← Codec.text.readOptional (t.get? "model".toList)
    let layout ← Codec.text.readOptional (t.get? "layout".toList)
    let leadHarness ← harnessKind.readOptional (t.get? "lead_harness".toList)
    let provider ← provider.readOptional (t.get? "provider".toList)
    let toolFiles ← Codec.text.list.readField [] (t.get? "tool_files".toList)
    let instructions ← Codec.text.readOptional (t.get? "instructions".toList)
    let contextBudgetTokens ← integer.readField 30000 (t.get? "context_budget_tokens".toList)
    let extraArgs ← Codec.text.list.readField [] (t.get? "extra_args".toList)
    let activityTimeoutHours ← integer.readOptional (t.get? "activity_timeout_hours".toList)
    let activityHeartbeatMinutes ←
      integer.readOptional (t.get? "activity_heartbeat_minutes".toList)
    some
      { kind, harness, model, layout, leadHarness, provider, toolFiles, instructions
        contextBudgetTokens, extraArgs, activityTimeoutHours, activityHeartbeatMinutes }
  else none

def roleConfig : Codec RoleConfig where
  write r := Tree.record (roleFields r)
  read := readRole
  read_write r := by
    have hnodup : ((roleFields r).map Prod.fst).Nodup := nodup_roleKeys
    have hkeys : (Tree.record (roleFields r)).sorted.keysWithin roleKeys = true :=
      Tree.keysWithin_sorted_record (roleFields r)
    rw [readRole, if_pos hkeys, Tree.get?_sorted_record hnodup 0 rfl,
      Tree.get?_sorted_record hnodup 1 rfl, Tree.get?_sorted_record hnodup 2 rfl,
      Tree.get?_sorted_record hnodup 3 rfl, Tree.get?_sorted_record hnodup 4 rfl,
      Tree.get?_sorted_record hnodup 5 rfl, Tree.get?_sorted_record hnodup 6 rfl,
      Tree.get?_sorted_record hnodup 7 rfl, Tree.get?_sorted_record hnodup 8 rfl,
      Tree.get?_sorted_record hnodup 9 rfl, Tree.get?_sorted_record hnodup 10 rfl,
      Tree.get?_sorted_record hnodup 11 rfl]
    simp only [Codec.readField_field, Codec.readOptional_optional, Option.bind_eq_bind,
      Option.bind_some]

section Gates

variable {floats : Floats F}

def gateFields (g : GateConfig floats) : List (List Char × Option Tree) :=
  [("policy".toList, gatePolicy.field .hard g.policy),
    ("threshold".toList,
      ((floating floats).restrict floats.inUnit).field floats.threshold g.threshold),
    ("on_timeout".toList, timeoutAction.field .reject g.onTimeout),
    ("remind_after_hours".toList, positive.optional g.remindAfterHours),
    ("escalate_after_hours".toList, positive.optional g.escalateAfterHours)]

def gateKeys : List (List Char) :=
  ["policy".toList, "threshold".toList, "on_timeout".toList, "remind_after_hours".toList,
    "escalate_after_hours".toList]

theorem nodup_gateKeys : gateKeys.Nodup := by decide +kernel

variable (floats) in
def readGate (t : Tree) : Option (GateConfig floats) :=
  if t.keysWithin gateKeys then do
    let policy ← gatePolicy.readField .hard (t.get? "policy".toList)
    let threshold ← ((floating floats).restrict floats.inUnit).readField floats.threshold
      (t.get? "threshold".toList)
    let onTimeout ← timeoutAction.readField .reject (t.get? "on_timeout".toList)
    let remindAfterHours ← positive.readOptional (t.get? "remind_after_hours".toList)
    let escalateAfterHours ← positive.readOptional (t.get? "escalate_after_hours".toList)
    some { policy, threshold, onTimeout, remindAfterHours, escalateAfterHours }
  else none

variable (floats) in
def gateConfig : Codec (GateConfig floats) where
  write g := Tree.record (gateFields g)
  read := readGate floats
  read_write g := by
    have hnodup : ((gateFields g).map Prod.fst).Nodup := nodup_gateKeys
    have hkeys : (Tree.record (gateFields g)).sorted.keysWithin gateKeys = true :=
      Tree.keysWithin_sorted_record (gateFields g)
    rw [readGate, if_pos hkeys, Tree.get?_sorted_record hnodup 0 rfl,
      Tree.get?_sorted_record hnodup 1 rfl, Tree.get?_sorted_record hnodup 2 rfl,
      Tree.get?_sorted_record hnodup 3 rfl, Tree.get?_sorted_record hnodup 4 rfl]
    simp only [Codec.readField_field, Codec.readOptional_optional, Option.bind_eq_bind,
      Option.bind_some]

variable (floats) in
def positionFields (p : NodePosition F) : List (List Char × Option Tree) :=
  [("x".toList, some ((floating floats).write p.x)),
    ("y".toList, some ((floating floats).write p.y))]

def positionKeys : List (List Char) := ["x".toList, "y".toList]

theorem nodup_positionKeys : positionKeys.Nodup := by decide +kernel

variable (floats) in
def readPosition (t : Tree) : Option (NodePosition F) :=
  if t.keysWithin positionKeys then do
    let x ← (floating floats).readRequired (t.get? "x".toList)
    let y ← (floating floats).readRequired (t.get? "y".toList)
    some { x, y }
  else none

variable (floats) in
def nodePosition : Codec (NodePosition F) where
  write p := Tree.record (positionFields floats p)
  read := readPosition floats
  read_write p := by
    have hnodup : ((positionFields floats p).map Prod.fst).Nodup := nodup_positionKeys
    have hkeys : (Tree.record (positionFields floats p)).sorted.keysWithin
        positionKeys = true := Tree.keysWithin_sorted_record _
    rw [readPosition, if_pos hkeys, Tree.get?_sorted_record hnodup 0 rfl,
      Tree.get?_sorted_record hnodup 1 rfl]
    simp only [Codec.readRequired_write, Option.bind_eq_bind, Option.bind_some]

end Gates

section Nodes

variable {floats : Floats F}

def nodeFields (n : GraphNode floats) : List (List Char × Option Tree) :=
  [("id".toList, some (id.write n.id)),
    ("type".toList, some (typeName.write n.type)),
    ("role".toList, roleConfig.optional n.role),
    ("gate".toList, (gateConfig floats).optional n.gate),
    ("position".toList, (nodePosition floats).optional n.position),
    ("label".toList, Codec.text.optional n.label)]

def nodeKeys : List (List Char) :=
  ["id".toList, "type".toList, "role".toList, "gate".toList, "position".toList, "label".toList]

theorem nodup_nodeKeys : nodeKeys.Nodup := by decide +kernel

variable (floats) in
def readNode (t : Tree) : Option (GraphNode floats) :=
  if t.keysWithin nodeKeys then do
    let nodeId ← id.readRequired (t.get? "id".toList)
    let type ← typeName.readRequired (t.get? "type".toList)
    let role ← roleConfig.readOptional (t.get? "role".toList)
    let gate ← (gateConfig floats).readOptional (t.get? "gate".toList)
    let position ← (nodePosition floats).readOptional (t.get? "position".toList)
    let label ← Codec.text.readOptional (t.get? "label".toList)
    some { id := nodeId, type, role, gate, position, label }
  else none

variable (floats) in
def graphNode : Codec (GraphNode floats) where
  write n := Tree.record (nodeFields n)
  read := readNode floats
  read_write n := by
    have hnodup : ((nodeFields n).map Prod.fst).Nodup := nodup_nodeKeys
    have hkeys : (Tree.record (nodeFields n)).sorted.keysWithin nodeKeys = true :=
      Tree.keysWithin_sorted_record (nodeFields n)
    rw [readNode, if_pos hkeys, Tree.get?_sorted_record hnodup 0 rfl,
      Tree.get?_sorted_record hnodup 1 rfl, Tree.get?_sorted_record hnodup 2 rfl,
      Tree.get?_sorted_record hnodup 3 rfl, Tree.get?_sorted_record hnodup 4 rfl,
      Tree.get?_sorted_record hnodup 5 rfl]
    simp only [Codec.readRequired_write, Codec.readOptional_optional, Option.bind_eq_bind,
      Option.bind_some]

def nodeCosmetic : List (List Char) := ["position".toList, "label".toList]

/-- The node without what the canvas draws. -/
def GraphNode.erased (n : GraphNode floats) : GraphNode floats :=
  { n with position := none, label := none }

/-- `model_dump` without these fields. -/
def dumpNode (exclude : List (List Char)) (n : GraphNode floats) : Tree :=
  Tree.record ((nodeFields n).filter fun f => f.1 ∉ exclude)

theorem dumpNode_cosmetic (n : GraphNode floats) :
    dumpNode nodeCosmetic n = (graphNode floats).write n.erased := by
  rfl

end Nodes

section Edges

def edgeFields (e : GraphEdge) : List (List Char × Option Tree) :=
  [("source".toList, some (id.write e.source)),
    ("source_port".toList, some (id.write e.sourcePort)),
    ("target".toList, some (id.write e.target)),
    ("target_port".toList, some (id.write e.targetPort)),
    ("max_traversals".toList, positive.optional e.maxTraversals),
    ("label".toList, Codec.text.optional e.label)]

def edgeKeys : List (List Char) :=
  ["source".toList, "source_port".toList, "target".toList, "target_port".toList,
    "max_traversals".toList, "label".toList]

theorem nodup_edgeKeys : edgeKeys.Nodup := by decide +kernel

def readEdge (t : Tree) : Option GraphEdge :=
  if t.keysWithin edgeKeys then do
    let source ← id.readRequired (t.get? "source".toList)
    let sourcePort ← id.readRequired (t.get? "source_port".toList)
    let target ← id.readRequired (t.get? "target".toList)
    let targetPort ← id.readRequired (t.get? "target_port".toList)
    let maxTraversals ← positive.readOptional (t.get? "max_traversals".toList)
    let label ← Codec.text.readOptional (t.get? "label".toList)
    some { source, sourcePort, target, targetPort, maxTraversals, label }
  else none

def graphEdge : Codec GraphEdge where
  write e := Tree.record (edgeFields e)
  read := readEdge
  read_write e := by
    have hnodup : ((edgeFields e).map Prod.fst).Nodup := nodup_edgeKeys
    have hkeys : (Tree.record (edgeFields e)).sorted.keysWithin edgeKeys = true :=
      Tree.keysWithin_sorted_record (edgeFields e)
    rw [readEdge, if_pos hkeys, Tree.get?_sorted_record hnodup 0 rfl,
      Tree.get?_sorted_record hnodup 1 rfl, Tree.get?_sorted_record hnodup 2 rfl,
      Tree.get?_sorted_record hnodup 3 rfl, Tree.get?_sorted_record hnodup 4 rfl,
      Tree.get?_sorted_record hnodup 5 rfl]
    simp only [Codec.readRequired_write, Codec.readOptional_optional, Option.bind_eq_bind,
      Option.bind_some]

def edgeCosmetic : List (List Char) := ["label".toList]

/-- The edge without what the canvas draws. -/
def GraphEdge.erased (e : GraphEdge) : GraphEdge := { e with label := none }

/-- `model_dump` without these fields. -/
def dumpEdge (exclude : List (List Char)) (e : GraphEdge) : Tree :=
  Tree.record ((edgeFields e).filter fun f => f.1 ∉ exclude)

theorem dumpEdge_cosmetic (e : GraphEdge) :
    dumpEdge edgeCosmetic e = graphEdge.write e.erased := by
  rfl

end Edges

/-! ## 4.  Graphs -/

def dumps (t : Tree) : List Char := t.sorted.print plain

variable {floats : Floats F}

def nodeKey (n : GraphNode floats) : List (List Char) :=
  [n.id.1.toList, dumps (dumpNode nodeCosmetic n), dumps (dumpNode [] n)]

def edgeKey (e : GraphEdge) : List (List Char) :=
  [e.source.1.toList, e.sourcePort.1.toList, e.target.1.toList, e.targetPort.1.toList,
    dumps (dumpEdge edgeCosmetic e), dumps (dumpEdge [] e)]

variable (floats) in
structure PipelineGraph where
  nodes : List (GraphNode floats)
  edges : List GraphEdge
  nodes_sorted : nodes.Pairwise fun m n => nodeKey m ≤ nodeKey n
  edges_sorted : edges.Pairwise fun d e => edgeKey d ≤ edgeKey e

def PipelineGraph.build (nodes : List (GraphNode floats)) (edges : List GraphEdge) :
    PipelineGraph floats where
  nodes := sortedBy nodeKey nodes
  edges := sortedBy edgeKey edges
  nodes_sorted := pairwise_sortedBy nodeKey nodes
  edges_sorted := pairwise_sortedBy edgeKey edges

def graphKeys : List (List Char) := ["schema_version".toList, "nodes".toList, "edges".toList]

theorem nodup_graphKeys : graphKeys.Nodup := by decide +kernel

def graphFields (nodes edges : List Tree) : List (List Char × Option Tree) :=
  [("schema_version".toList, some (natural.write 1)), ("nodes".toList, some (.array nodes)),
    ("edges".toList, some (.array edges))]

namespace PipelineGraph

variable (g : PipelineGraph floats)

def canonicalJson : List Char :=
  dumps (Tree.record (graphFields (g.nodes.map (dumpNode nodeCosmetic))
    (g.edges.map (dumpEdge edgeCosmetic))))

/-- What `document_sha` hashes. -/
def document : List Char :=
  dumps (Tree.record (graphFields (g.nodes.map (dumpNode [])) (g.edges.map (dumpEdge []))))

variable (sha256 : List Char → String)

def contentSha : String := sha256 g.canonicalJson

def documentSha : String := sha256 g.document

/-- The graph without what the canvas draws. -/
def erased : PipelineGraph floats :=
  build (g.nodes.map GraphNode.erased) (g.edges.map GraphEdge.erased)

end PipelineGraph

variable (floats) in
/-- `model_validate`. -/
def readGraph (t : Tree) : Option (PipelineGraph floats) :=
  if t.keysWithin graphKeys then do
    let schemaVersion ← natural.readRequired (t.get? "schema_version".toList)
    let nodes ← (graphNode floats).list.readRequired (t.get? "nodes".toList)
    let edges ← graphEdge.list.readRequired (t.get? "edges".toList)
    if schemaVersion = 1 then some (.build nodes edges) else none
  else none

variable (floats) in
def parse (text : List Char) : Option (PipelineGraph floats) :=
  (Tree.loads plain text).bind (readGraph floats)

/-! ## 5.  What the texts tell -/

theorem dumpNode_nil (n : GraphNode floats) : dumpNode [] n = (graphNode floats).write n := by
  rw [dumpNode, List.filter_eq_self.mpr fun f _ => decide_eq_true List.not_mem_nil]
  rfl

theorem dumpEdge_nil (e : GraphEdge) : dumpEdge [] e = graphEdge.write e := by
  rw [dumpEdge, List.filter_eq_self.mpr fun f _ => decide_eq_true List.not_mem_nil]
  rfl

theorem parse_dumps (nodes : List (GraphNode floats)) (edges : List GraphEdge) :
    parse floats (dumps (Tree.record (graphFields (nodes.map (graphNode floats).write)
      (edges.map graphEdge.write)))) = some (.build nodes edges) := by
  have hnodup : ((graphFields (nodes.map (graphNode floats).write)
    (edges.map graphEdge.write)).map Prod.fst).Nodup := nodup_graphKeys
  have hkeys : (Tree.record (graphFields (nodes.map (graphNode floats).write)
      (edges.map graphEdge.write))).sorted.keysWithin graphKeys = true :=
    Tree.keysWithin_sorted_record _
  rw [parse, dumps, Tree.loads_print, Option.bind_some, readGraph, if_pos hkeys,
    Tree.get?_sorted_record hnodup 0 rfl, Tree.get?_sorted_record hnodup 1 rfl,
    Tree.get?_sorted_record hnodup 2 rfl]
  have hnodes : (graphNode floats).list.readRequired
      ((some (.array (nodes.map (graphNode floats).write))).map Tree.sorted) = some nodes :=
    Codec.readRequired_write (c := (graphNode floats).list) nodes
  have hedges : graphEdge.list.readRequired
      ((some (.array (edges.map graphEdge.write))).map Tree.sorted) = some edges :=
    Codec.readRequired_write (c := graphEdge.list) edges
  rw [hnodes, hedges, Codec.readRequired_write]
  rfl

theorem eq_of_dumps_write {α : Type} (c : Codec α) {a b : α}
    (h : dumps (c.write a) = dumps (c.write b)) : a = b := by
  have hsorted : (c.write a).sorted = (c.write b).sorted := Tree.print_injective h
  have hread := (c.read_write a).symm.trans ((congrArg c.read hsorted).trans (c.read_write b))
  exact Option.some.inj hread

theorem nodeKey_injective : Function.Injective (nodeKey : GraphNode floats → List (List Char)) := by
  intro m n h
  rw [nodeKey, nodeKey, List.cons.injEq, List.cons.injEq, List.cons.injEq, dumpNode_nil,
    dumpNode_nil] at h
  exact eq_of_dumps_write (graphNode floats) h.2.2.1

theorem edgeKey_injective : Function.Injective edgeKey := by
  intro d e h
  rw [edgeKey, edgeKey] at h
  simp only [List.cons.injEq, dumpEdge_nil] at h
  exact eq_of_dumps_write graphEdge h.2.2.2.2.2.1

namespace PipelineGraph

variable {g g' : PipelineGraph floats}

theorem eq_iff_perm : g = g' ↔ g.nodes.Perm g'.nodes ∧ g.edges.Perm g'.edges := by
  constructor
  · rintro rfl
    exact ⟨List.Perm.refl _, List.Perm.refl _⟩
  · rintro ⟨hnodes, hedges⟩
    obtain ⟨nodes, edges, hns, hes⟩ := g
    obtain ⟨nodes', edges', hns', hes'⟩ := g'
    obtain rfl : nodes = nodes' := eq_of_perm_of_pairwise nodeKey_injective hns hns' hnodes
    obtain rfl : edges = edges' := eq_of_perm_of_pairwise edgeKey_injective hes hes' hedges
    rfl

theorem perm_nodes_build (nodes : List (GraphNode floats)) (edges : List GraphEdge) :
    (build nodes edges).nodes.Perm nodes :=
  sortedBy_perm _ _

theorem perm_edges_build (nodes : List (GraphNode floats)) (edges : List GraphEdge) :
    (build nodes edges).edges.Perm edges :=
  sortedBy_perm _ _

theorem build_eq (g : PipelineGraph floats) : build g.nodes g.edges = g :=
  eq_iff_perm.mpr ⟨perm_nodes_build _ _, perm_edges_build _ _⟩

/-- **The text with what the canvas draws is read back.** -/
theorem parse_document (g : PipelineGraph floats) : parse floats g.document = some g := by
  have hnodes : g.nodes.map (dumpNode []) = g.nodes.map (graphNode floats).write :=
    List.map_congr_left fun n _ => dumpNode_nil n
  have hedges : g.edges.map (dumpEdge []) = g.edges.map graphEdge.write :=
    List.map_congr_left fun e _ => dumpEdge_nil e
  rw [document, hnodes, hedges, parse_dumps, build_eq]

theorem document_injective : Function.Injective (document : PipelineGraph floats → List Char) := by
  intro g g' h
  have hsame : parse floats g.document = parse floats g'.document := by rw [h]
  rw [parse_document, parse_document] at hsame
  exact Option.some.inj hsame

end PipelineGraph

theorem append_le_append {α : Type} [LinearOrder α] {l l' m m' k k' : List α}
    (hlength : l.length = l'.length) (h : l ++ m ≤ l' ++ m') (hk : l = l' → k ≤ k') :
    l ++ k ≤ l' ++ k' := by
  induction l generalizing l' with
  | nil =>
    obtain rfl : l' = [] := List.length_eq_zero_iff.mp hlength.symm
    exact hk rfl
  | cons a l ih =>
    cases l' with
    | nil => cases hlength
    | cons a' l' =>
      rw [List.cons_append, List.cons_append, ← not_lt, List.cons_lt_cons_iff] at h ⊢
      rintro (hlt | ⟨rfl, hlt⟩)
      · exact h (.inl hlt)
      · have htail : l ++ m ≤ l' ++ m' := not_lt.mp fun hlt' => h (.inr ⟨rfl, hlt'⟩)
        exact absurd hlt (not_lt.mpr
          (ih (Nat.succ_inj.mp hlength) htail fun heq => hk (congrArg (a' :: ·) heq)))

theorem nodeKey_erased_le {m n : GraphNode floats} (h : nodeKey m ≤ nodeKey n) :
    nodeKey m.erased ≤ nodeKey n.erased := by
  have hkey (k : GraphNode floats) : nodeKey k.erased =
      [k.id.1.toList, dumps (dumpNode nodeCosmetic k)] ++ [dumps (dumpNode nodeCosmetic k)] := by
    rw [nodeKey, dumpNode_nil, dumpNode_cosmetic k]
    rfl
  rw [hkey, hkey]
  refine append_le_append rfl h fun heq => ?_
  rw [(List.cons.inj (List.cons.inj heq).2).1]

theorem edgeKey_erased_le {d e : GraphEdge} (h : edgeKey d ≤ edgeKey e) :
    edgeKey d.erased ≤ edgeKey e.erased := by
  have hkey (k : GraphEdge) : edgeKey k.erased =
      [k.source.1.toList, k.sourcePort.1.toList, k.target.1.toList, k.targetPort.1.toList,
        dumps (dumpEdge edgeCosmetic k)] ++ [dumps (dumpEdge edgeCosmetic k)] := by
    rw [edgeKey, dumpEdge_nil, dumpEdge_cosmetic k]
    rfl
  rw [hkey, hkey]
  refine append_le_append rfl h fun heq => ?_
  simp only [List.cons.injEq] at heq
  rw [heq.2.2.2.2.1]

namespace PipelineGraph

variable {g g' : PipelineGraph floats}

theorem nodes_erased (g : PipelineGraph floats) :
    g.erased.nodes = g.nodes.map GraphNode.erased := by
  refine eq_of_perm_of_pairwise nodeKey_injective g.erased.nodes_sorted ?_ (perm_nodes_build _ _)
  exact List.pairwise_map.mpr (g.nodes_sorted.imp nodeKey_erased_le)

theorem edges_erased (g : PipelineGraph floats) :
    g.erased.edges = g.edges.map GraphEdge.erased := by
  refine eq_of_perm_of_pairwise edgeKey_injective g.erased.edges_sorted ?_ (perm_edges_build _ _)
  exact List.pairwise_map.mpr (g.edges_sorted.imp edgeKey_erased_le)

/-- **The canonical text is that of the graph without what the canvas draws.** -/
theorem canonicalJson_eq (g : PipelineGraph floats) : g.canonicalJson = g.erased.document := by
  have hnodes : g.nodes.map (dumpNode nodeCosmetic) =
      (g.nodes.map GraphNode.erased).map (dumpNode []) := by
    rw [List.map_map]
    exact List.map_congr_left fun n _ => (dumpNode_cosmetic n).trans (dumpNode_nil n.erased).symm
  have hedges : g.edges.map (dumpEdge edgeCosmetic) =
      (g.edges.map GraphEdge.erased).map (dumpEdge []) := by
    rw [List.map_map]
    exact List.map_congr_left fun e _ => (dumpEdge_cosmetic e).trans (dumpEdge_nil e.erased).symm
  rw [canonicalJson, document, nodes_erased, edges_erased, hnodes, hedges]

theorem erased_erased (g : PipelineGraph floats) : g.erased.erased = g.erased := by
  refine eq_iff_perm.mpr ⟨?_, ?_⟩
  · rw [nodes_erased, nodes_erased, List.map_map]
    exact List.Perm.refl _
  · rw [edges_erased, edges_erased, List.map_map]
    exact List.Perm.refl _

theorem erased_eq_iff : g.erased = g'.erased ↔
    (g.nodes.map GraphNode.erased).Perm (g'.nodes.map GraphNode.erased) ∧
      (g.edges.map GraphEdge.erased).Perm (g'.edges.map GraphEdge.erased) := by
  rw [eq_iff_perm, nodes_erased, nodes_erased, edges_erased, edges_erased]

theorem parse_canonicalJson (g : PipelineGraph floats) :
    parse floats g.canonicalJson = some g.erased := by
  rw [canonicalJson_eq, parse_document]

def texts (floats : Floats F) : Set (List Char) :=
  Set.range (document : PipelineGraph floats → List Char)

variable {sha256 : List Char → String}

theorem documentSha_eq_iff (hsha : (texts floats).InjOn sha256) :
    g.documentSha sha256 = g'.documentSha sha256 ↔ g = g' :=
  (hsha.eq_iff ⟨g, rfl⟩ ⟨g', rfl⟩).trans document_injective.eq_iff

theorem contentSha_eq_iff (hsha : (texts floats).InjOn sha256) :
    g.contentSha sha256 = g'.contentSha sha256 ↔ g.erased = g'.erased := by
  rw [contentSha, contentSha, canonicalJson_eq, canonicalJson_eq]
  exact documentSha_eq_iff hsha

/-! ## 6.  The identity of a graph -/

/-- **The two shas of a graph**, however it was authored: the content shas are equal exactly if the
graphs are but for what the canvas draws and the order of their elements, the document shas exactly
if they are but for the order; and the texts they hash are parsed into the same graphs. -/
theorem identity (floats : Floats F) (hsha : (texts floats).InjOn sha256) :
    (∀ (nodes nodes' : List (GraphNode floats)) (edges edges' : List GraphEdge),
      ((build nodes edges).contentSha sha256 = (build nodes' edges').contentSha sha256 ↔
        (nodes.map GraphNode.erased).Perm (nodes'.map GraphNode.erased) ∧
          (edges.map GraphEdge.erased).Perm (edges'.map GraphEdge.erased)) ∧
      ((build nodes edges).documentSha sha256 = (build nodes' edges').documentSha sha256 ↔
        nodes.Perm nodes' ∧ edges.Perm edges')) ∧
    ∀ g : PipelineGraph floats,
      parse floats g.document = some g ∧
        parse floats g.canonicalJson = some g.erased ∧
          g.erased.contentSha sha256 = g.contentSha sha256 ∧
            (g.erased.documentSha sha256 = g.documentSha sha256 ↔
              (∀ n ∈ g.nodes, n.position = none ∧ n.label = none) ∧
                ∀ e ∈ g.edges, e.label = none) := by
  refine ⟨fun nodes nodes' edges edges' => ⟨?_, ?_⟩, fun g => ⟨parse_document g,
    parse_canonicalJson g, (contentSha_eq_iff hsha).mpr (erased_erased g), ?_⟩⟩
  · rw [contentSha_eq_iff hsha, erased_eq_iff]
    have hnodes (ns : List (GraphNode floats)) (es : List GraphEdge) :=
      (perm_nodes_build ns es).map GraphNode.erased
    have hedges (ns : List (GraphNode floats)) (es : List GraphEdge) :=
      (perm_edges_build ns es).map GraphEdge.erased
    rw [(hnodes nodes edges).congr_left, (hnodes nodes' edges').congr_right,
      (hedges nodes edges).congr_left, (hedges nodes' edges').congr_right]
  · rw [documentSha_eq_iff hsha, eq_iff_perm, (perm_nodes_build nodes edges).congr_left,
      (perm_nodes_build nodes' edges').congr_right, (perm_edges_build nodes edges).congr_left,
      (perm_edges_build nodes' edges').congr_right]
  · rw [documentSha_eq_iff hsha]
    constructor
    · intro heq
      refine ⟨fun n hn => ?_, fun e he => ?_⟩
      · rw [← heq, nodes_erased] at hn
        obtain ⟨m, -, rfl⟩ := List.mem_map.mp hn
        exact ⟨rfl, rfl⟩
      · rw [← heq, edges_erased] at he
        obtain ⟨d, -, rfl⟩ := List.mem_map.mp he
        rfl
    · rintro ⟨hnodes, hedges⟩
      refine eq_iff_perm.mpr ⟨?_, ?_⟩
      · rw [nodes_erased, (List.map_congr_left fun n hn => ?_).trans (List.map_id g.nodes)]
        obtain ⟨hposition, hlabel⟩ := hnodes n hn
        rw [GraphNode.erased, ← hposition, ← hlabel]
        rfl
      · rw [edges_erased, (List.map_congr_left fun e he => ?_).trans (List.map_id g.edges)]
        rw [GraphEdge.erased, ← hedges e he]
        rfl

end PipelineGraph

/-! ## 7.  A graph with a label -/

theorem some_unit_eq : ∀ u : Unit, some () = some u := fun _ => rfl

/-- One number, written `0.8`. -/
def sampleFloats : Floats Unit where
  toToken _ := ⟨"0.8".toList, by decide, by decide⟩
  fromToken _ := some ()
  fromToken_toToken := some_unit_eq
  inUnit _ := true
  threshold := ⟨(), rfl⟩

def sampleNode : GraphNode sampleFloats where
  id := ⟨"plan", by decide⟩
  type := ⟨"plan", by decide⟩
  label := some "Plan"

def sampleGraph : PipelineGraph sampleFloats := .build [sampleNode] []

/-- The document sha of the graph whose canonical text is parsed is another one. -/
theorem label_lost :
    parse sampleFloats sampleGraph.canonicalJson = some sampleGraph.erased ∧
      sampleGraph.erased.documentSha String.ofList ≠ sampleGraph.documentSha String.ofList := by
  refine ⟨PipelineGraph.parse_canonicalJson sampleGraph, fun h => ?_⟩
  have heq := (PipelineGraph.documentSha_eq_iff (fun _ _ _ _ => String.ofList_injective)).mp h
  have hlabels : sampleGraph.erased.nodes.map GraphNode.label =
    sampleGraph.nodes.map GraphNode.label := by rw [heq]
  rw [PipelineGraph.nodes_erased] at hlabels
  exact absurd hlabels (by decide)

theorem identity_sample :
    sampleGraph.contentSha String.ofList =
      (PipelineGraph.build [sampleNode.erased] []).contentSha String.ofList :=
  ((PipelineGraph.identity sampleFloats (fun _ _ _ _ => String.ofList_injective)).1 [sampleNode]
    [sampleNode.erased] [] []).1.mpr ⟨List.Perm.refl _, List.Perm.refl _⟩

end Kroker.GraphIdentity
