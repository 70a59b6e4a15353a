import Kroker.Core.Config

/-!
# The stored pipeline graph

Nodes and edges as `graph/model.py` stores them, with the shape checks of parsing carried as
fields: ids and port names match `ID_PATTERN`, an edge's bound is at least one, an out-port is
plain and an in-port is never terminal.  Everything referential (unique ids, dangling edges, unknown
types) is left to `validate`, as in the source.  Canvas cosmetics are no part of legality or of
routing and are not modelled.

An edge's id is the text `source.source_port->target.target_port`.  `edgeId_injective` says that on
ids of the stored shape the text determines the four endpoints, so the router may key its maps by
the text.
-/

namespace Kroker

/-! ## Ids -/

/-- A character an id may contain after its first. -/
def isIdChar (c : Char) : Bool := c.isLower || c.isDigit || c = '_'

/-- `ID_PATTERN`: a lower-case letter, then lower-case letters, digits and underscores. -/
def isId (s : String) : Bool :=
  match s.toList with
  | [] => false
  | c :: cs => c.isLower && cs.all isIdChar

theorem isIdChar_of_mem {s : String} (h : isId s = true) {c : Char} (hc : c ∈ s.toList) :
    isIdChar c = true := by
  rw [isId] at h
  cases hs : s.toList with
  | nil =>
    rw [hs] at hc
    simp at hc
  | cons d ds =>
    rw [hs] at h hc
    simp only [Bool.and_eq_true, List.all_eq_true] at h
    rcases List.mem_cons.mp hc with rfl | hc
    · simp [isIdChar, h.1]
    · exact h.2 c hc

theorem notMem_of_isId {s : String} (h : isId s = true) {c : Char} (hc : isIdChar c = false) :
    c ∉ s.toList := by
  intro hmem
  rw [isIdChar_of_mem h hmem] at hc
  cases hc

/-! ## Ports and node types' ports -/

inductive Direction where
  | input
  | output
  deriving DecidableEq

/-- How many tokens an in-port takes: one, or one per edge ("collect"). -/
inductive Multiplicity where
  | one
  | many
  deriving DecidableEq

/-- The outcome an edgeless emission on a terminal out-port ends the run with. -/
inductive Terminal where
  | rejected
  | failed
  deriving DecidableEq

theorem outPorts_plain_default : Direction.output = .output → Multiplicity.one = .one ∧ true = true :=
  fun _ => ⟨rfl, rfl⟩

theorem outPorts_plain_of_input (m : Multiplicity) (required : Bool) :
    Direction.input = .output → m = .one ∧ required = true := nofun

theorem terminal_none (d : Direction) : d = .input → (none : Option Terminal) = none := fun _ => rfl

structure NodePort where
  name : String
  direction : Direction
  payload : Option String
  required : Bool := true
  multiplicity : Multiplicity := .one
  terminal : Option Terminal := none
  name_shape : isId name = true := by exact Eq.refl true
  outPorts_plain : direction = .output → multiplicity = .one ∧ required = true := by
    first | exact Kroker.outPorts_plain_default | exact Kroker.outPorts_plain_of_input _ _ | decide
  inPorts_not_terminal : direction = .input → terminal = none := by
    first | exact Kroker.terminal_none _ | decide

/-! ## Nodes, edges, graphs -/

structure GraphNode where
  id : String
  type : String
  role : Option RoleConfig := none
  gate : Option GateConfig := none
  id_shape : isId id = true := by exact Eq.refl true

theorem one_le_of_none : ∀ b : ℕ, none = some b → 1 ≤ b := nofun

theorem one_le_of_some_one : ∀ b : ℕ, some 1 = some b → 1 ≤ b := fun _ h => (Option.some.inj h).le

/-- A directed connection; its identity is the endpoint 4-tuple. -/
structure GraphEdge where
  source : String
  sourcePort : String
  target : String
  targetPort : String
  maxTraversals : Option ℕ := none
  source_shape : isId source = true := by exact Eq.refl true
  sourcePort_shape : isId sourcePort = true := by exact Eq.refl true
  target_shape : isId target = true := by exact Eq.refl true
  targetPort_shape : isId targetPort = true := by exact Eq.refl true
  maxTraversals_pos : ∀ b, maxTraversals = some b → 1 ≤ b := by
    first | exact Kroker.one_le_of_none | exact Kroker.one_le_of_some_one | simp
  deriving DecidableEq

/-- The whole graph.  Construction sorts `nodes` and `edges` into a total order; nothing below
depends on which order that is, so every order is allowed here. -/
structure PipelineGraph where
  nodes : List GraphNode
  edges : List GraphEdge

/-! ## Edge ids -/

structure EdgeKey where
  source : String
  sourcePort : String
  target : String
  targetPort : String
  deriving DecidableEq

def edgeKey (e : GraphEdge) : EdgeKey := ⟨e.source, e.sourcePort, e.target, e.targetPort⟩

/-- The text of an endpoint 4-tuple. -/
def EdgeKey.text (k : EdgeKey) : String :=
  k.source ++ "." ++ k.sourcePort ++ "->" ++ k.target ++ "." ++ k.targetPort

def edgeId (e : GraphEdge) : String := (edgeKey e).text

def isBackEdge (e : GraphEdge) : Bool := e.maxTraversals.isSome

/-- Four ids of the stored shape. -/
structure EdgeKey.Shaped (k : EdgeKey) : Prop where
  source : isId k.source = true
  sourcePort : isId k.sourcePort = true
  target : isId k.target = true
  targetPort : isId k.targetPort = true

theorem shaped_edgeKey (e : GraphEdge) : (edgeKey e).Shaped :=
  ⟨e.source_shape, e.sourcePort_shape, e.target_shape, e.targetPort_shape⟩

theorem EdgeKey.toList_text (k : EdgeKey) :
    k.text.toList = k.source.toList ++ '.' :: (k.sourcePort.toList ++ '-' :: ('>' ::
      (k.target.toList ++ '.' :: k.targetPort.toList))) := by
  simp [EdgeKey.text, String.toList_append]

/-- **On ids of the stored shape an edge's id determines its endpoints.** -/
theorem EdgeKey.text_injective {k k' : EdgeKey} (hk : k.Shaped) (hk' : k'.Shaped)
    (h : k.text = k'.text) : k = k' := by
  have hdot : isIdChar '.' = false := by decide
  have hdash : isIdChar '-' = false := by decide
  have hlist := congrArg String.toList h
  rw [toList_text, toList_text] at hlist
  obtain ⟨h1, hlist⟩ := append_cons_inj (notMem_of_isId hk.source hdot)
    (notMem_of_isId hk'.source hdot) hlist
  obtain ⟨h2, hlist⟩ := append_cons_inj (notMem_of_isId hk.sourcePort hdash)
    (notMem_of_isId hk'.sourcePort hdash) hlist
  obtain ⟨h3, h4⟩ := append_cons_inj (notMem_of_isId hk.target hdot)
    (notMem_of_isId hk'.target hdot) (List.cons.inj hlist).2
  cases k
  cases k'
  simp only [EdgeKey.mk.injEq]
  exact ⟨String.toList_injective h1, String.toList_injective h2, String.toList_injective h3,
    String.toList_injective h4⟩

theorem edgeId_injective {e e' : GraphEdge} (h : edgeId e = edgeId e') : edgeKey e = edgeKey e' :=
  EdgeKey.text_injective (shaped_edgeKey e) (shaped_edgeKey e') h

end Kroker
