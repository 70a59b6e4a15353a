import Kroker.Library.Except
import Mathlib.Data.Int.Notation

/-!
# Graph text

`graph/io.py` reads and writes a graph as YAML, with a loader that is stricter than YAML.  PyYAML
and pydantic are not in the repository: what their parts do with a text, a scalar or a value is a
parameter (`YamlEnv`).  The two methods that the loader overrides, and what of the loader's own
constructors stands between them, are here as they are.

`from_yaml` is to fail in one way.  The overriding `construct_mapping` looks each key up in a set
before the library's own check that it can be, and what is no `yaml.YAMLError` passes through.
-/

namespace Kroker.GraphIo

/-! ## 1.  Documents -/

/-- The tags that the safe constructors know, and the others. -/
inductive Tag where
  | null | bool | int | float | binary | timestamp | str
  | seq | map | set | omap | pairs
  | merge | value
  | other (name : String)
  deriving DecidableEq

def Tag.isScalar : Tag → Bool
  | .null | .bool | .int | .float | .binary | .timestamp | .str => true
  | _ => false

/-- A document as it is written: each node has the anchor that it is given, if any, and its tag as
it is resolved. -/
inductive Node where
  | alias (name : String)
  | scalar (anchor : Option String) (tag : Tag) (value : String)
  | sequence (anchor : Option String) (tag : Tag) (items : List Node)
  | mapping (anchor : Option String) (tag : Tag) (pairs : List (Node × Node))

/-- What the constructors return. -/
inductive Datum (S : Type) where
  | scalar (s : S)
  | list (items : List (Datum S))
  | dict (members : List (Datum S × Datum S))
  | set (members : List (Datum S))
  /-- A list of so many pairs, which no field of a graph takes. -/
  | tuples (count : ℕ)

/-- How a step fails. -/
inductive Raised where
  /-- `yaml.YAMLError`. -/
  | yaml (problem : String)
  /-- Any other exception, by its class. -/
  | python (name : String)

def Raised.isYaml : Raised → Bool
  | .yaml _ => true
  | .python _ => false

/-- What the scanner, the parser and the composer make of a text. -/
inductive Parsed where
  | malformed (problem : String)
  /-- Reading stops with another exception. -/
  | raises (name : String)
  | empty
  | document (root : Node)

namespace Node

def tag : Node → Tag
  | .alias _ => .other ""
  | .scalar _ tag _ | .sequence _ tag _ | .mapping _ tag _ => tag

def anchor : Node → Option String
  | .alias _ => none
  | .scalar anchor _ _ | .sequence anchor _ _ | .mapping anchor _ _ => anchor

def isAlias : Node → Bool
  | .alias _ => true
  | _ => false

def children : Node → List Node
  | .alias _ | .scalar .. => []
  | .sequence _ _ items => items
  | .mapping _ _ pairs => pairs.flatMap fun p => [p.1, p.2]

/-- The second node is the first, or stands at any depth below it. -/
def Within : Node → Node → Prop := Relation.ReflTransGen fun n m => m ∈ n.children

/-- The items of a `!!omap` or `!!pairs` that are a mapping of one pair. -/
def single? : Node → Option (Node × Node)
  | .mapping _ _ [p] => some p
  | _ => none

def constructed : Node → List Node
  | .sequence _ tag items =>
    if tag = .seq then items
    else if tag = .omap ∨ tag = .pairs then
      (items.filterMap single?).flatMap fun p => [p.1, p.2]
    else []
  | .mapping _ tag pairs =>
    if tag = .map ∨ tag = .set then pairs.flatMap fun p => [p.1, p.2] else []
  | _ => []

def Constructs : Node → Node → Prop := Relation.ReflTransGen fun n m => m ∈ n.constructed

end Node

/-! ## 2.  The strict loader -/

/-- PyYAML, and what pydantic makes of a `PipelineGraph`. -/
structure YamlEnv (S G : Type) where
  parse : String → Parsed
  /-- The constructor of a scalar tag, on the text of a scalar. -/
  scalar : Tag → String → Except Raised S
  /-- `==` of scalars, and their hashes. -/
  same : S → S → Bool
  /-- A string. -/
  text : String → S
  /-- The number, if `type(s) is int`. -/
  int? : S → Option ℤ
  /-- `repr` returns: it raises on an integer with too many digits. -/
  shows : Datum S → Bool
  /-- The nodes of a document in the order in which they are constructed. -/
  order : Node → List Node
  mem_order : ∀ n m, m ∈ order n ↔ n.Constructs m
  /-- `PipelineGraph.model_validate`. -/
  validate : Datum S → Option G
  /-- `model_dump(mode="json", exclude_defaults=True)`. -/
  dump : G → Datum S
  /-- `yaml.safe_dump`. -/
  emit : Datum S → String
  contentSha : G → String

variable {S G : Type}

def unanchored (anchor : Option String) : Except Raised Unit :=
  if anchor.isSome then .error (.yaml "anchors are not allowed in graph text") else .ok ()

mutual

/-- What the overriding `compose_node` lets through, at every node. -/
def Node.compose : Node → Except Raised Unit
  | .alias _ => .error (.yaml "aliases are not allowed in graph text")
  | .scalar anchor _ _ => unanchored anchor
  | .sequence anchor _ items => do
    unanchored anchor
    composeAll items
  | .mapping anchor _ pairs => do
    unanchored anchor
    composePairs pairs

def composeAll : List Node → Except Raised Unit
  | [] => .ok ()
  | n :: ns => do
    n.compose
    composeAll ns

def composePairs : List (Node × Node) → Except Raised Unit
  | [] => .ok ()
  | (k, v) :: ps => do
    k.compose
    v.compose
    composePairs ps

end

mutual

/-- `construct_scalar`: a mapping stands for the value of its first `=` key. -/
def Node.scalarText : Node → Option String
  | .scalar _ _ value => some value
  | .mapping _ _ pairs => valueText pairs
  | _ => none

def valueText : List (Node × Node) → Option String
  | [] => none
  | (k, v) :: ps => if k.tag = .value then v.scalarText else valueText ps

end

namespace YamlEnv

variable (env : YamlEnv S G)

/-- The constructor of a scalar tag. -/
def convert (n : Node) : Except Raised S :=
  match n.scalarText with
  | none => .error (.yaml "expected a scalar node")
  | some text =>
    match n with
    | .mapping .. =>
      -- The regular expression for a time is matched on what the node holds, here a list.
      if n.tag = .timestamp then .error (.python "TypeError") else env.scalar n.tag text
    | _ => env.scalar n.tag text

def undefined {α : Type} : Except Raised α :=
  .error (.yaml "could not determine a constructor for the tag")

/-- The key that a node is constructed to; none, if it is a list, a dictionary or a set, which
cannot be hashed. -/
def keyOf (k : Node) : Except Raised (Option S) :=
  if k.tag.isScalar then (env.convert k).map some
  else if k.tag ∈ [.seq, .map, .set, .omap, .pairs] then .ok none
  else undefined

/-- The loop of the overriding `construct_mapping`, with the keys it has seen. -/
def strictKeys : List S → List (Node × Node) → Except Raised Unit
  | _, [] => .ok ()
  | seen, (k, _) :: rest =>
    if k.tag = .merge then .error (.yaml "merge keys (<<) are not allowed in graph text")
    else do
      match ← env.keyOf k with
      | none => .error (.python "TypeError")
      | some key =>
        if seen.any (env.same key) then
          -- The key is shown in the message.
          if env.shows (.scalar key) then .error (.yaml "found duplicate key")
          else .error (.python "ValueError")
        else strictKeys (key :: seen) rest

/-- The overriding `construct_mapping`.  It takes the value of its node apart before the library
asks whether the node is a mapping. -/
def constructMapping : Node → Except Raised Unit
  | .mapping _ _ pairs => env.strictKeys [] pairs
  | .sequence _ _ (_ :: _) => .error (.python "TypeError")
  | .scalar _ _ value =>
    if value = "" then .error (.yaml "expected a mapping node") else .error (.python "ValueError")
  | _ => .error (.yaml "expected a mapping node")

/-- `construct_yaml_omap` and `construct_yaml_pairs`: a list of mappings of one pair. -/
def constructPairs : Node → Except Raised Unit
  | .sequence _ _ items =>
    if items.all fun item => item.single?.isSome then .ok ()
    else .error (.yaml "expected a mapping of length 1")
  | _ => .error (.yaml "expected a sequence")

/-- What the constructor of a node does with it, but for the nodes below. -/
def visit (n : Node) : Except Raised Unit :=
  match n.tag with
  | .seq =>
    match n with
    | .sequence .. => .ok ()
    | _ => .error (.yaml "expected a sequence node")
  | .map | .set => env.constructMapping n
  | .omap | .pairs => constructPairs n
  | .null | .bool | .int | .float | .binary | .timestamp | .str => (env.convert n).map fun _ => ()
  | .merge | .value | .other _ => undefined

mutual

/-- The value of a node, where it can be constructed. -/
def build : Node → Datum S
  | .sequence _ tag items =>
    if tag = .seq then .list (buildAll items) else .tuples items.length
  | .mapping anchor tag pairs =>
    if tag = .map then .dict (buildPairs pairs)
    else if tag = .set then .set (buildKeys pairs)
    else built (env.convert (.mapping anchor tag pairs))
  | n => built (env.convert n)

def built : Except Raised S → Datum S
  | .ok s => .scalar s
  | .error _ => .tuples 0

def buildAll : List Node → List (Datum S)
  | [] => []
  | n :: ns => build n :: buildAll ns

def buildPairs : List (Node × Node) → List (Datum S × Datum S)
  | [] => []
  | (k, v) :: ps => (build k, build v) :: buildPairs ps

def buildKeys : List (Node × Node) → List (Datum S)
  | [] => []
  | (k, _) :: ps => build k :: buildKeys ps

end

/-- `construct_document`: the first step that fails ends it. -/
def construct (root : Node) : Except Raised (Datum S) := do
  (env.order root).forM env.visit
  pure (env.build root)

/-- `yaml.load` with the strict loader, but for the reading of the text. -/
def load (root : Node) : Except Raised (Datum S) := do
  root.compose
  env.construct root

/-! ## 3.  Reading and writing -/

/-- `data.get("schema_version")`. -/
def version? (members : List (Datum S × Datum S)) : Option (Datum S) :=
  (members.find? fun p =>
    match p.1 with
    | .scalar s => env.same s (env.text "schema_version")
    | _ => false).map Prod.snd

/-- The version is an integer, and the one that is read. -/
def isVersion : Option (Datum S) → Bool
  | some (.scalar s) => env.int? s = some 1
  | _ => false

end YamlEnv

/-- Why a text is no graph. -/
inductive SchemaError where
  | notYaml (problem : String)
  | notMapping
  | version
  | shape
  deriving DecidableEq

/-- How `from_yaml` fails: `GraphSchemaError`, or another exception by its class. -/
inductive GraphFailure where
  | schema (e : SchemaError)
  | raised (name : String)
  deriving DecidableEq

def Raised.toFailure : Raised → GraphFailure
  | .yaml problem => .schema (.notYaml problem)
  | .python name => .raised name

namespace YamlEnv

variable (env : YamlEnv S G)

/-- What `from_yaml` makes of the data. -/
def graphOf : Datum S → Except GraphFailure G
  | .dict members =>
    if env.isVersion (env.version? members) then
      match env.validate (.dict members) with
      | some g => .ok g
      | none => .error (.schema .shape)
    -- The version is shown in the message.
    else if (env.version? members).all env.shows then .error (.schema .version)
    else .error (.raised "ValueError")
  | _ => .error (.schema .notMapping)

def fromYaml (text : String) : Except GraphFailure G :=
  match env.parse text with
  | .malformed problem => .error (.schema (.notYaml problem))
  | .raises name => .error (.raised name)
  | .empty => .error (.schema .notMapping)
  | .document root => do env.graphOf (← (env.load root).mapError Raised.toFailure)

def toYaml (g : G) : String := env.emit (env.dump g)

structure ParseOk (S : Type) where
  graph : Datum S
  sha : String

def parsed (g : G) : ParseOk S := ⟨env.dump g, env.contentSha g⟩

/-- `parse_text`, with `none` for `ParseErr`. -/
def parseText (text : String) : Except GraphFailure (Option (ParseOk S)) :=
  match env.fromYaml text with
  | .ok g => .ok (some (env.parsed g))
  | .error (.schema _) => .ok none
  | .error e => .error e

/-- `parse_object`, with `none` for `ParseErr`. -/
def parseObject (obj : Datum S) : Option (ParseOk S) := (env.validate obj).map env.parsed

/-- `serialize`, with `none` for `ParseErr`. -/
def serialize (obj : Datum S) : Option String := (env.validate obj).map env.toYaml

end YamlEnv

/-! ## 4.  One failure mode -/

/-- The exception, if one is raised. -/
def errorOf {α ε : Type} : Except ε α → Option ε
  | .error e => some e
  | .ok _ => none

theorem forM_eq {α ε : Type} (f : α → Except ε Unit) (xs : List α) :
    xs.forM f = match xs.findSome? fun x => errorOf (f x) with
      | some e => .error e
      | none => .ok () := by
  induction xs with
  | nil => rfl
  | cons x xs ih =>
    change (f x >>= fun _ => xs.forM f) = _
    rw [List.findSome?_cons]
    cases hx : f x with
    | error e => rfl
    | ok u => exact ih

namespace YamlEnv

variable (env : YamlEnv S G)

/-- What is refused first in a document: by the composer, and then in the order of construction. -/
def refusal (root : Node) : Option Raised :=
  (errorOf root.compose).or ((env.order root).findSome? fun n => errorOf (env.visit n))

theorem load_eq (root : Node) :
    env.load root = match env.refusal root with
      | some e => .error e
      | none => .ok (env.build root) := by
  rw [load, refusal]
  cases root.compose with
  | error e => rfl
  | ok u =>
    change env.construct root = _
    rw [construct, forM_eq]
    change _ = match (env.order root).findSome? fun n => errorOf (env.visit n) with
      | some e => Except.error e
      | none => Except.ok (env.build root)
    cases (env.order root).findSome? fun n => errorOf (env.visit n) with
    | some e => rfl
    | none => rfl

/-- A version that is not read can be shown. -/
def ShowsVersion : Datum S → Prop
  | .dict members => env.isVersion (env.version? members) = false →
      (env.version? members).all env.shows = true
  | _ => True

/-- **What a text is to be for one way to fail**: it is read, and what is refused in it first is
refused as YAML; and where nothing is, its version can be shown. -/
def OneWay (text : String) : Prop :=
  match env.parse text with
  | .malformed _ | .empty => True
  | .raises _ => False
  | .document root =>
    match env.refusal root with
    | some e => e.isYaml = true
    | none => env.ShowsVersion (env.build root)

/-- The failure is `GraphSchemaError`, if there is one. -/
def FailsOneWay {α : Type} (r : Except GraphFailure α) : Prop :=
  ∀ e, r = .error e → ∃ s, e = .schema s

theorem failsOneWay_ok {α : Type} (a : α) : FailsOneWay (.ok a) := nofun

theorem failsOneWay_error {α : Type} {e : GraphFailure} :
    FailsOneWay (.error e : Except GraphFailure α) ↔ ∃ s, e = .schema s := by
  constructor
  · exact fun h => h e rfl
  · rintro h e' he
    cases he
    exact h

theorem toFailure_schema (e : Raised) : (∃ s, e.toFailure = .schema s) ↔ e.isYaml = true := by
  cases e with
  | yaml problem => exact iff_of_true ⟨_, rfl⟩ rfl
  | python name =>
    refine iff_of_false ?_ Bool.false_ne_true
    rintro ⟨s, hs⟩
    cases hs

theorem failsOneWay_graphOf (data : Datum S) :
    FailsOneWay (env.graphOf data) ↔ env.ShowsVersion data := by
  cases data with
  | dict members =>
    rw [graphOf, ShowsVersion]
    cases hversion : env.isVersion (env.version? members) with
    | true =>
      refine iff_of_true ?_ nofun
      rw [if_pos rfl]
      cases env.validate (.dict members) with
      | some g => exact failsOneWay_ok g
      | none => exact failsOneWay_error.mpr ⟨_, rfl⟩
    | false =>
      rw [if_neg Bool.false_ne_true, forall_prop_of_true rfl]
      by_cases hshows : (env.version? members).all env.shows = true
      · rw [if_pos hshows]
        exact iff_of_true (failsOneWay_error.mpr ⟨_, rfl⟩) hshows
      · rw [if_neg hshows]
        refine iff_of_false (fun h => ?_) hshows
        obtain ⟨s, hs⟩ := failsOneWay_error.mp h
        cases hs
  | _ => exact iff_of_true (failsOneWay_error.mpr ⟨_, rfl⟩) trivial

/-- **The texts on which `from_yaml` fails in one way.** -/
theorem oneWay_iff (text : String) : FailsOneWay (env.fromYaml text) ↔ env.OneWay text := by
  rw [fromYaml, OneWay]
  cases env.parse text with
  | malformed problem => exact iff_of_true (failsOneWay_error.mpr ⟨_, rfl⟩) trivial
  | empty => exact iff_of_true (failsOneWay_error.mpr ⟨_, rfl⟩) trivial
  | raises name =>
    refine iff_of_false (fun h => ?_) id
    obtain ⟨s, hs⟩ := failsOneWay_error.mp h
    cases hs
  | document root =>
    dsimp only
    rw [load_eq]
    cases env.refusal root with
    | some e => exact failsOneWay_error.trans (toFailure_schema e)
    | none => exact env.failsOneWay_graphOf (env.build root)

end YamlEnv

/-! ## 5.  What is accepted -/

namespace Node

/-- No key of the node is a merge key, and none stands twice. -/
def Tidy : Node → Prop
  | .mapping _ _ pairs =>
    (∀ p ∈ pairs, p.1.tag ≠ .merge) ∧ (pairs.map Prod.fst).Pairwise (· ≠ ·)
  | _ => True

/-- **A strict document**: there is no alias, no anchor, no merge key and no duplicate key in it, at
any depth. -/
def Strict (root : Node) : Prop :=
  ∀ n, root.Within n → (n.isAlias = false ∧ n.anchor = none) ∧ n.Tidy

def Hidden (root n : Node) : Prop :=
  ∃ m, root.Constructs m ∧ (∃ anchor tag pairs, m = .mapping anchor tag pairs) ∧
    m.tag.isScalar = true ∧ m.Within n

/-- A mapping of one pair that is constructed as a pair. -/
def Single (root n : Node) : Prop :=
  ∃ p ∈ n.single?, root.Constructs p.1 ∧ root.Constructs p.2

end Node

theorem none_of_unanchored {anchor : Option String} (h : unanchored anchor = .ok ()) :
    anchor = none := by
  cases anchor with
  | none => rfl
  | some a => cases h

mutual

theorem Node.plain_of_compose : ∀ {n : Node}, n.compose = .ok () →
    ∀ m, n.Within m → m.isAlias = false ∧ m.anchor = none
  | .alias _, h => by cases h
  | .scalar anchor tag value, h => by
    intro m hm
    rcases Relation.ReflTransGen.cases_head hm with rfl | ⟨c, hc, -⟩
    · exact ⟨rfl, none_of_unanchored h⟩
    · cases hc
  | .sequence anchor tag items, h => by
    intro m hm
    rw [Node.compose] at h
    obtain ⟨u, hanchor, hitems⟩ := bind_eq_ok.mp h
    rcases Relation.ReflTransGen.cases_head hm with rfl | ⟨c, hc, hcm⟩
    · exact ⟨rfl, none_of_unanchored hanchor⟩
    · exact plain_of_composeAll hitems c hc m hcm
  | .mapping anchor tag pairs, h => by
    intro m hm
    rw [Node.compose] at h
    obtain ⟨u, hanchor, hpairs⟩ := bind_eq_ok.mp h
    rcases Relation.ReflTransGen.cases_head hm with rfl | ⟨c, hc, hcm⟩
    · exact ⟨rfl, none_of_unanchored hanchor⟩
    · exact plain_of_composePairs hpairs c hc m hcm

theorem plain_of_composeAll : ∀ {ns : List Node}, composeAll ns = .ok () →
    ∀ n ∈ ns, ∀ m, n.Within m → m.isAlias = false ∧ m.anchor = none
  | [], _ => nofun
  | n :: ns, h => by
    rw [composeAll] at h
    obtain ⟨u, hn, hns⟩ := bind_eq_ok.mp h
    exact List.forall_mem_cons.mpr ⟨Node.plain_of_compose hn, plain_of_composeAll hns⟩

theorem plain_of_composePairs : ∀ {ps : List (Node × Node)}, composePairs ps = .ok () →
    ∀ n ∈ ps.flatMap (fun p => [p.1, p.2]), ∀ m, n.Within m → m.isAlias = false ∧ m.anchor = none
  | [], _ => nofun
  | (k, v) :: ps, h => by
    rw [composePairs] at h
    obtain ⟨u, hk, h⟩ := bind_eq_ok.mp h
    obtain ⟨u, hv, hps⟩ := bind_eq_ok.mp h
    rw [List.flatMap_cons, List.forall_mem_append, List.forall_mem_cons, List.forall_mem_cons]
    exact ⟨⟨Node.plain_of_compose hk, Node.plain_of_compose hv, nofun⟩, plain_of_composePairs hps⟩

end

namespace YamlEnv

variable {env : YamlEnv S G}

def OddKey (env : YamlEnv S G) : Node → Prop
  | .mapping _ _ pairs => ∃ p ∈ pairs, ∃ s, env.keyOf p.1 = .ok (some s) ∧ env.same s s = false
  | _ => False

/-- **What the strict loop has let through**: each key is a scalar, none is a merge key, and each is
another than those before it. -/
theorem of_strictKeys {seen : List S} {pairs : List (Node × Node)}
    (h : env.strictKeys seen pairs = .ok ()) :
    (∀ p ∈ pairs, p.1.tag ≠ .merge ∧
      ∃ s, env.keyOf p.1 = .ok (some s) ∧ ∀ t ∈ seen, env.same s t = false) ∧
    (pairs.map Prod.fst).Pairwise fun k k' => ∃ s s',
      env.keyOf k = .ok (some s) ∧ env.keyOf k' = .ok (some s') ∧ env.same s' s = false := by
  induction pairs generalizing seen with
  | nil => exact ⟨nofun, List.Pairwise.nil⟩
  | cons p pairs ih =>
    obtain ⟨k, v⟩ := p
    rw [strictKeys] at h
    split at h
    · cases h
    · rename_i hmerge
      obtain ⟨key, hkey, h⟩ := bind_eq_ok.mp h
      cases key with
      | none => cases h
      | some key =>
        dsimp only at h
        split at h
        · split at h <;> cases h
        · rename_i hseen
          obtain ⟨hall, hpairs⟩ := ih h
          have hnew : ∀ t ∈ seen, env.same key t = false := by
            intro t ht
            rw [List.any_eq_true, not_exists] at hseen
            exact Bool.eq_false_iff.mpr fun hsame => hseen t ⟨ht, hsame⟩
          refine ⟨List.forall_mem_cons.mpr ⟨⟨hmerge, key, hkey, hnew⟩, fun q hq => ?_⟩, ?_⟩
          · obtain ⟨hq', s, hs, hother⟩ := hall q hq
            exact ⟨hq', s, hs, fun t ht => hother t (List.mem_cons_of_mem _ ht)⟩
          · rw [List.map_cons, List.pairwise_cons]
            refine ⟨fun k' hk' => ?_, hpairs⟩
            obtain ⟨q, hq, rfl⟩ := List.mem_map.mp hk'
            obtain ⟨-, s, hs, hother⟩ := hall q hq
            exact ⟨key, s, hkey, hs, hother key List.mem_cons_self⟩

theorem tidy_of_strictKeys {anchor : Option String} {tag : Tag} {pairs : List (Node × Node)}
    (h : env.strictKeys [] pairs = .ok ()) (hodd : ¬env.OddKey (.mapping anchor tag pairs)) :
    (Node.mapping anchor tag pairs).Tidy := by
  obtain ⟨hall, hpairs⟩ := of_strictKeys h
  refine ⟨fun p hp => (hall p hp).1, hpairs.imp_of_mem ?_⟩
  rintro k k' hk - ⟨s, s', hs, hs', hsame⟩ rfl
  rw [hs] at hs'
  cases hs'
  obtain ⟨p, hp, rfl⟩ := List.mem_map.mp hk
  exact hodd ⟨p, hp, s, hs, hsame⟩

theorem of_load {root : Node} {data : Datum S} (h : env.load root = .ok data) :
    root.compose = .ok () ∧ (∀ n, root.Constructs n → env.visit n = .ok ()) ∧
      data = env.build root := by
  rw [load_eq] at h
  cases hrefusal : env.refusal root with
  | some e =>
    rw [hrefusal] at h
    cases h
  | none =>
    rw [hrefusal] at h
    rw [refusal, Option.or_eq_none_iff, List.findSome?_eq_none_iff] at hrefusal
    have hok : ∀ {x : Except Raised Unit}, errorOf x = none → x = .ok () := by
      intro x hx
      cases x with
      | ok u => rfl
      | error e => cases hx
    refine ⟨hok hrefusal.1, fun n hn => hok (hrefusal.2 n ?_), (Except.ok.inj h).symm⟩
    exact (env.mem_order root n).mpr hn

theorem of_visit_sequence {anchor : Option String} {tag : Tag} {items : List Node}
    (h : env.visit (.sequence anchor tag items) = .ok ()) :
    tag = .seq ∨ ((tag = .omap ∨ tag = .pairs) ∧ ∀ item ∈ items, item.single?.isSome = true) ∨
      items = [] := by
  have hpairs : constructPairs (.sequence anchor tag items) = .ok () →
      ∀ item ∈ items, item.single?.isSome = true := by
    intro h
    rw [constructPairs] at h
    split at h
    · rename_i hall
      exact List.all_eq_true.mp hall
    · cases h
  have hmapping : env.constructMapping (.sequence anchor tag items) = .ok () → items = [] := by
    intro h
    cases items with
    | nil => rfl
    | cons item items => cases h
  cases tag with
  | seq => exact .inl rfl
  | omap => exact .inr (.inl ⟨.inl rfl, hpairs h⟩)
  | pairs => exact .inr (.inl ⟨.inr rfl, hpairs h⟩)
  | map => exact .inr (.inr (hmapping h))
  | set => exact .inr (.inr (hmapping h))
  | _ => cases h

theorem of_visit_mapping {anchor : Option String} {tag : Tag} {pairs : List (Node × Node)}
    (h : env.visit (.mapping anchor tag pairs) = .ok ()) :
    ((tag = .map ∨ tag = .set) ∧ env.strictKeys [] pairs = .ok ()) ∨ tag.isScalar = true := by
  cases tag with
  | map => exact .inl ⟨.inl rfl, h⟩
  | set => exact .inl ⟨.inr rfl, h⟩
  | seq => cases h
  | omap => cases h
  | pairs => cases h
  | merge => cases h
  | value => cases h
  | other name => cases h
  | _ => exact .inr rfl

/-- **Where a node of a loaded document stands**, by induction on the way down to it: it is
constructed, or it is hidden below a scalar's constructor, or it is constructed as a pair. -/
theorem within_cases {root n : Node} (hvisit : ∀ n, root.Constructs n → env.visit n = .ok ())
    (h : root.Within n) : root.Constructs n ∨ root.Hidden n ∨ root.Single n := by
  induction h with
  | refl => exact .inl .refl
  | @tail n m _ hm ih =>
    rcases ih with hn | ⟨top, htop, hmapping, htag, hwithin⟩ | ⟨p, hp, hfst, hsnd⟩
    · cases n with
      | «alias» name => cases hm
      | scalar anchor tag value => cases hm
      | sequence anchor tag items =>
        rcases of_visit_sequence (hvisit _ hn) with rfl | ⟨htag, hsingle⟩ | rfl
        · exact .inl (hn.tail hm)
        · obtain ⟨p, hp⟩ := Option.isSome_iff_exists.mp (hsingle m hm)
          have hseq : tag ≠ .seq := by
            rcases htag with rfl | rfl <;> exact nofun
          have hbelow : ∀ c ∈ [p.1, p.2],
              c ∈ (Node.sequence anchor tag items).constructed := by
            intro c hc
            rw [Node.constructed, if_neg hseq, if_pos htag]
            exact List.mem_flatMap.mpr ⟨p, List.mem_filterMap.mpr ⟨m, hm, hp⟩, hc⟩
          exact .inr (.inr ⟨p, hp, hn.tail (hbelow _ (by simp)), hn.tail (hbelow _ (by simp))⟩)
        · cases hm
      | mapping anchor tag pairs =>
        rcases of_visit_mapping (hvisit _ hn) with ⟨htag, -⟩ | htag
        · refine .inl (hn.tail ?_)
          rw [Node.constructed, if_pos htag]
          exact hm
        · exact .inr (.inl ⟨_, hn, ⟨anchor, tag, pairs, rfl⟩, htag, .single hm⟩)
    · exact .inr (.inl ⟨top, htop, hmapping, htag, hwithin.tail hm⟩)
    · cases n with
      | mapping anchor tag pairs =>
        match pairs, hp, hm with
        | [q], hp, hm =>
          cases hp
          change m ∈ [p.1, p.2] at hm
          simp only [List.mem_cons, List.not_mem_nil, or_false] at hm
          rcases hm with rfl | rfl
          · exact .inl hfst
          · exact .inl hsnd
      | _ => cases hp

/-- **What a text that is accepted may still hold**: an untidy mapping below a scalar's constructor,
or one with a key that is not the same as itself. -/
theorem strict_iff {root : Node} {data : Datum S} (h : env.load root = .ok data) :
    root.Strict ↔ ∀ n, root.Within n → root.Hidden n ∨ env.OddKey n → n.Tidy := by
  obtain ⟨hcompose, hvisit, -⟩ := of_load h
  refine ⟨fun hstrict n hn _ => (hstrict n hn).2, fun htidy n hn => ?_⟩
  refine ⟨Node.plain_of_compose hcompose n hn, ?_⟩
  by_cases hodd : env.OddKey n
  · exact htidy n hn (.inr hodd)
  · rcases within_cases hvisit hn with hconstructed | hhidden | ⟨p, hp, hfst, -⟩
    · cases n with
      | mapping anchor tag pairs =>
        rcases of_visit_mapping (hvisit _ hconstructed) with ⟨-, hkeys⟩ | htag
        · exact tidy_of_strictKeys hkeys hodd
        · exact htidy _ hn (.inl ⟨_, hconstructed, ⟨anchor, tag, pairs, rfl⟩, htag, .refl⟩)
      | _ => trivial
    · exact htidy n hn (.inl hhidden)
    · cases n with
      | mapping anchor tag pairs =>
        match pairs, hp with
        | [q], hp =>
          cases hp
          refine ⟨List.forall_mem_singleton.mpr fun hmerge => ?_, List.pairwise_singleton _ _⟩
          have hfails := hvisit p.1 hfst
          unfold visit at hfails
          rw [hmerge] at hfails
          cases hfails
      | _ => trivial

end YamlEnv

/-! ## 6.  What is written is read back -/

/-- How a scalar is written: its tag and its text. -/
abbrev Writes (S : Type) := S → Tag × String

mutual

/-- The nodes that a value is written as. -/
def Datum.represent (writes : Writes S) : Datum S → Node
  | .scalar s => .scalar none (writes s).1 (writes s).2
  | .list items => .sequence none .seq (representAll writes items)
  | .dict members => .mapping none .map (representPairs writes members)
  | .set members => .sequence none .set (representAll writes members)
  | .tuples _ => .sequence none .pairs []

def representAll (writes : Writes S) : List (Datum S) → List Node
  | [] => []
  | d :: ds => d.represent writes :: representAll writes ds

def representPairs (writes : Writes S) : List (Datum S × Datum S) → List (Node × Node)
  | [] => []
  | (k, v) :: ps => (k.represent writes, v.represent writes) :: representPairs writes ps

end

/-- The key of a dictionary is a scalar, and another than these. -/
def KeyOther (env : YamlEnv S G) (k k' : Datum S) : Prop :=
  ∃ s s', k = .scalar s ∧ k' = .scalar s' ∧ env.same s' s = false

mutual

/-- Data as it is dumped: lists and dictionaries with different scalars as keys, of scalars that are
read as they are written. -/
def Datum.Plain (env : YamlEnv S G) (writes : Writes S) : Datum S → Prop
  | .scalar s => (writes s).1.isScalar = true ∧ env.scalar (writes s).1 (writes s).2 = .ok s
  | .list items => PlainAll env writes items
  | .dict members => (∀ p ∈ members, ∃ s, p.1 = .scalar s) ∧
      (members.map Prod.fst).Pairwise (KeyOther env) ∧ PlainPairs env writes members
  | _ => False

def PlainAll (env : YamlEnv S G) (writes : Writes S) : List (Datum S) → Prop
  | [] => True
  | d :: ds => d.Plain env writes ∧ PlainAll env writes ds

def PlainPairs (env : YamlEnv S G) (writes : Writes S) : List (Datum S × Datum S) → Prop
  | [] => True
  | (k, v) :: ps => k.Plain env writes ∧ v.Plain env writes ∧ PlainPairs env writes ps

end

/-- **A graph that is read as it is written**: its dump is plain data with a version, of which
PyYAML writes a text that is read as the nodes of the dump; and pydantic takes the dump for the
graph. -/
structure ReadBack (env : YamlEnv S G) (writes : Writes S) (g : G) : Prop where
  plain : (env.dump g).Plain env writes
  version : ∃ members, env.dump g = .dict members ∧ env.isVersion (env.version? members) = true
  emitted : env.parse (env.emit (env.dump g)) = .document ((env.dump g).represent writes)
  validated : env.validate (env.dump g) = some g

section Represent

variable {env : YamlEnv S G} {writes : Writes S}

mutual

theorem compose_represent : ∀ d : Datum S, (d.represent writes).compose = .ok ()
  | .scalar _ => rfl
  | .list items => composeAll_represent items
  | .dict members => composePairs_represent members
  | .set members => composeAll_represent members
  | .tuples _ => rfl

theorem composeAll_represent : ∀ ds : List (Datum S),
    composeAll (representAll writes ds) = .ok ()
  | [] => rfl
  | d :: ds => bind_eq_ok.mpr ⟨(), compose_represent d, composeAll_represent ds⟩

theorem composePairs_represent : ∀ ps : List (Datum S × Datum S),
    composePairs (representPairs writes ps) = .ok ()
  | [] => rfl
  | (k, v) :: ps => bind_eq_ok.mpr ⟨(), compose_represent k,
      bind_eq_ok.mpr ⟨(), compose_represent v, composePairs_represent ps⟩⟩

end

theorem plainAll_iff {ds : List (Datum S)} :
    PlainAll env writes ds ↔ ∀ d ∈ ds, d.Plain env writes := by
  induction ds with
  | nil => exact iff_of_true trivial nofun
  | cons d ds ih => rw [PlainAll, ih, List.forall_mem_cons]

theorem plainPairs_iff {ps : List (Datum S × Datum S)} :
    PlainPairs env writes ps ↔ ∀ p ∈ ps, p.1.Plain env writes ∧ p.2.Plain env writes := by
  induction ps with
  | nil => exact iff_of_true trivial nofun
  | cons p ps ih => rw [PlainPairs, ih, List.forall_mem_cons, and_assoc]

theorem representAll_eq (ds : List (Datum S)) :
    representAll writes ds = ds.map (Datum.represent writes) := by
  induction ds with
  | nil => rfl
  | cons d ds ih => rw [representAll, ih, List.map_cons]

theorem representPairs_eq (ps : List (Datum S × Datum S)) :
    representPairs writes ps = ps.map fun p => (p.1.represent writes, p.2.represent writes) := by
  induction ps with
  | nil => rfl
  | cons p ps ih => rw [representPairs, ih, List.map_cons]

theorem convert_represent {s : S} (h : (Datum.scalar s).Plain env writes) :
    env.convert ((Datum.scalar s).represent writes) = .ok s :=
  h.2

theorem keyOf_represent {s : S} (h : (Datum.scalar s).Plain env writes) :
    env.keyOf ((Datum.scalar s).represent writes) = .ok (some s) := by
  have htag : ((Datum.scalar s).represent writes).tag.isScalar = true := h.1
  rw [YamlEnv.keyOf, if_pos htag, convert_represent h]
  rfl

theorem strictKeys_represent {members : List (Datum S × Datum S)} {seen : List S}
    (hkeys : ∀ p ∈ members, ∃ s, p.1 = .scalar s ∧ ∀ t ∈ seen, env.same s t = false)
    (hother : (members.map Prod.fst).Pairwise (KeyOther env))
    (hplain : ∀ p ∈ members, p.1.Plain env writes) :
    env.strictKeys seen (representPairs writes members) = .ok () := by
  induction members generalizing seen with
  | nil => rfl
  | cons p members ih =>
    obtain ⟨k, v⟩ := p
    rw [List.forall_mem_cons] at hkeys hplain
    rw [List.map_cons, List.pairwise_cons] at hother
    obtain ⟨⟨s, hs, hnew⟩, hrest⟩ := hkeys
    change k = .scalar s at hs
    subst hs
    have hmerge : ((Datum.scalar s).represent writes).tag ≠ .merge := by
      intro hmerge
      have hscalar := hplain.1.1
      change (writes s).1 = .merge at hmerge
      rw [hmerge] at hscalar
      cases hscalar
    have hseen : ¬seen.any (env.same s) = true := by
      rw [List.any_eq_true]
      rintro ⟨t, ht, hsame⟩
      rw [hnew t ht] at hsame
      cases hsame
    rw [representPairs, YamlEnv.strictKeys, if_neg hmerge, keyOf_represent hplain.1]
    change (if seen.any (env.same s) then _ else _) = _
    rw [if_neg hseen]
    refine ih (fun q hq => ?_) hother.2 hplain.2
    obtain ⟨t, ht, hnew'⟩ := hrest q hq
    refine ⟨t, ht, List.forall_mem_cons.mpr ⟨?_, hnew'⟩⟩
    obtain ⟨s₁, t₁, hs₁, ht₁, hsame⟩ := hother.1 q.1 (List.mem_map_of_mem hq)
    rw [ht] at ht₁
    cases hs₁
    cases ht₁
    exact hsame

theorem visit_represent {d : Datum S} (h : d.Plain env writes) :
    env.visit (d.represent writes) = .ok () := by
  cases d with
  | scalar s =>
    have hconvert :
        (env.convert ((Datum.scalar s).represent writes)).map (fun _ => ()) = .ok () := by
      rw [convert_represent h]
      rfl
    have htag : (writes s).1.isScalar = true := h.1
    unfold YamlEnv.visit
    change (match (writes s).1 with
      | .seq => _ | .map | .set => _ | .omap | .pairs => _
      | .null | .bool | .int | .float | .binary | .timestamp | .str => _
      | .merge | .value | .other _ => _) = _
    revert htag
    cases (writes s).1 <;> first | exact fun _ => hconvert | exact nofun
  | list items => rfl
  | dict members =>
    obtain ⟨hscalars, hother, hplain⟩ := h
    refine strictKeys_represent (fun p hp => ?_) hother fun p hp =>
      (plainPairs_iff.mp hplain p hp).1
    obtain ⟨s, hs⟩ := hscalars p hp
    exact ⟨s, hs, nofun⟩
  | set members => exact h.elim
  | tuples count => exact h.elim

theorem exists_of_constructs {d : Datum S} (h : d.Plain env writes) {n : Node}
    (hn : (d.represent writes).Constructs n) :
    ∃ d' : Datum S, d'.Plain env writes ∧ n = d'.represent writes := by
  induction hn with
  | refl => exact ⟨d, h, rfl⟩
  | tail _ hm ih =>
    obtain ⟨d', hd', rfl⟩ := ih
    cases d' with
    | scalar s => cases hm
    | list items =>
      change _ ∈ representAll writes items at hm
      rw [representAll_eq] at hm
      obtain ⟨item, hitem, rfl⟩ := List.mem_map.mp hm
      exact ⟨item, plainAll_iff.mp hd' item hitem, rfl⟩
    | dict members =>
      change _ ∈ (representPairs writes members).flatMap _ at hm
      rw [representPairs_eq] at hm
      obtain ⟨q, hq, hmem⟩ := List.mem_flatMap.mp hm
      obtain ⟨p, hp, rfl⟩ := List.mem_map.mp hq
      obtain ⟨hfst, hsnd⟩ := plainPairs_iff.mp hd'.2.2 p hp
      simp only [List.mem_cons, List.not_mem_nil, or_false] at hmem
      rcases hmem with rfl | rfl
      · exact ⟨p.1, hfst, rfl⟩
      · exact ⟨p.2, hsnd, rfl⟩
    | set members => exact hd'.elim
    | tuples count => exact hd'.elim

mutual

/-- **Plain data is constructed from its nodes.** -/
theorem build_represent : ∀ {d : Datum S}, d.Plain env writes →
    env.build (d.represent writes) = d
  | .scalar s, h => by
    change env.built (env.convert ((Datum.scalar s).represent writes)) = _
    rw [convert_represent h]
    rfl
  | .list items, h => by
    change Datum.list (env.buildAll (representAll writes items)) = _
    rw [buildAll_represent h]
  | .dict members, h => by
    change Datum.dict (env.buildPairs (representPairs writes members)) = _
    rw [buildPairs_represent h.2.2]
  | .set _, h => h.elim
  | .tuples _, h => h.elim

theorem buildAll_represent : ∀ {ds : List (Datum S)}, PlainAll env writes ds →
    env.buildAll (representAll writes ds) = ds
  | [], _ => rfl
  | d :: ds, h => by
    rw [representAll, YamlEnv.buildAll, build_represent h.1, buildAll_represent h.2]

theorem buildPairs_represent : ∀ {ps : List (Datum S × Datum S)}, PlainPairs env writes ps →
    env.buildPairs (representPairs writes ps) = ps
  | [], _ => rfl
  | (k, v) :: ps, h => by
    rw [representPairs, YamlEnv.buildPairs, build_represent h.1, build_represent h.2.1,
      buildPairs_represent h.2.2]

end

/-- **Plain data is loaded from the nodes it is written as.** -/
theorem load_represent {d : Datum S} (h : d.Plain env writes) :
    env.load (d.represent writes) = .ok d := by
  have hvisits : (env.order (d.represent writes)).findSome? (fun n => errorOf (env.visit n)) =
      none := by
    rw [List.findSome?_eq_none_iff]
    intro n hn
    obtain ⟨d', hd', rfl⟩ := exists_of_constructs h ((env.mem_order _ n).mp hn)
    rw [visit_represent hd']
    rfl
  have hrefusal : env.refusal (d.represent writes) = none := by
    rw [YamlEnv.refusal, compose_represent, hvisits]
    rfl
  rw [YamlEnv.load_eq, hrefusal, build_represent h]

/-- **A graph that is read as it is written** is read back from its text. -/
theorem fromYaml_toYaml {g : G} (h : ReadBack env writes g) :
    env.fromYaml (env.toYaml g) = .ok g := by
  obtain ⟨members, hdump, hversion⟩ := h.version
  rw [YamlEnv.fromYaml, YamlEnv.toYaml, h.emitted]
  dsimp only
  rw [load_represent h.plain]
  change env.graphOf (env.dump g) = _
  have hvalid := h.validated
  rw [hdump] at hvalid ⊢
  rw [YamlEnv.graphOf, if_pos hversion, hvalid]

theorem parseText_serialize {g : G} (h : ReadBack env writes g) {obj : Datum S}
    (hobj : env.validate obj = some g) :
    ∃ text, env.serialize obj = some text ∧ env.parseText text = .ok (env.parseObject obj) := by
  refine ⟨env.toYaml g, ?_, ?_⟩
  · rw [YamlEnv.serialize, hobj]
    rfl
  · rw [YamlEnv.parseText, fromYaml_toYaml h, YamlEnv.parseObject, hobj]
    rfl

end Represent

namespace Sample

/-- The scalars of these texts. -/
inductive Atom where
  | text (s : String)
  | int (z : ℤ)
  deriving DecidableEq

mutual

/-- The nodes that are constructed with a node, each before those below it. -/
def order : Node → List Node
  | .alias name => [.alias name]
  | .scalar anchor tag value => [.scalar anchor tag value]
  | .sequence anchor tag items => .sequence anchor tag items ::
      (if tag = .seq then orderAll items
      else if tag = .omap ∨ tag = .pairs then orderSingles items
      else [])
  | .mapping anchor tag pairs => .mapping anchor tag pairs ::
      (if tag = .map ∨ tag = .set then orderPairs pairs else [])

def orderAll : List Node → List Node
  | [] => []
  | n :: ns => order n ++ orderAll ns

def orderSingles : List Node → List Node
  | [] => []
  | .mapping _ _ [(k, v)] :: ns => order k ++ (order v ++ orderSingles ns)
  | _ :: ns => orderSingles ns

def orderPairs : List (Node × Node) → List Node
  | [] => []
  | (k, v) :: ps => order k ++ (order v ++ orderPairs ps)

end

theorem orderAll_eq (ns : List Node) : orderAll ns = ns.flatMap order := by
  induction ns with
  | nil => rfl
  | cons n ns ih => rw [orderAll, ih, List.flatMap_cons]

theorem orderPairs_eq (ps : List (Node × Node)) :
    orderPairs ps = (ps.flatMap fun p => [p.1, p.2]).flatMap order := by
  induction ps with
  | nil => rfl
  | cons p ps ih => rw [orderPairs, ih]; simp

theorem orderSingles_eq (ns : List Node) :
    orderSingles ns = ((ns.filterMap Node.single?).flatMap fun p => [p.1, p.2]).flatMap order := by
  induction ns with
  | nil => rfl
  | cons n ns ih =>
    rw [List.filterMap_cons]
    cases n with
    | mapping anchor tag pairs =>
      match pairs with
      | [] => exact ih
      | [(k, v)] =>
        rw [orderSingles, ih]
        simp [Node.single?]
      | _ :: _ :: _ => exact ih
    | _ => exact ih

theorem order_eq (n : Node) : order n = n :: n.constructed.flatMap order := by
  cases n with
  | «alias» name => rfl
  | scalar anchor tag value => rfl
  | sequence anchor tag items =>
    rw [order, orderAll_eq, orderSingles_eq, Node.constructed]
    split_ifs <;> rfl
  | mapping anchor tag pairs =>
    rw [order, orderPairs_eq, Node.constructed]
    split_ifs <;> rfl

mutual

theorem constructs_of_mem_order : ∀ {n m : Node}, m ∈ order n → n.Constructs m
  | .alias _, m, h => by
    rw [List.mem_singleton.mp h]
    exact .refl
  | .scalar .., m, h => by
    rw [List.mem_singleton.mp h]
    exact .refl
  | .sequence anchor tag items, m, h => by
    rcases List.mem_cons.mp h with rfl | h
    · exact .refl
    · by_cases hseq : tag = .seq
      · rw [if_pos hseq] at h
        obtain ⟨c, hc, hcm⟩ := constructs_of_mem_orderAll h
        refine .head ?_ hcm
        rw [Node.constructed, if_pos hseq]
        exact hc
      · rw [if_neg hseq] at h
        split at h
        · rename_i htag
          obtain ⟨c, hc, hcm⟩ := constructs_of_mem_orderSingles h
          refine .head ?_ hcm
          rw [Node.constructed, if_neg hseq, if_pos htag]
          exact hc
        · cases h
  | .mapping anchor tag pairs, m, h => by
    rcases List.mem_cons.mp h with rfl | h
    · exact .refl
    · split at h
      · rename_i htag
        obtain ⟨c, hc, hcm⟩ := constructs_of_mem_orderPairs h
        refine .head ?_ hcm
        rw [Node.constructed, if_pos htag]
        exact hc
      · cases h

theorem constructs_of_mem_orderAll : ∀ {ns : List Node} {m : Node}, m ∈ orderAll ns →
    ∃ n ∈ ns, n.Constructs m
  | [], _, h => by cases h
  | n :: ns, m, h => by
    rw [orderAll, List.mem_append] at h
    rcases h with h | h
    · exact ⟨n, List.mem_cons_self, constructs_of_mem_order h⟩
    · obtain ⟨c, hc, hcm⟩ := constructs_of_mem_orderAll h
      exact ⟨c, List.mem_cons_of_mem _ hc, hcm⟩

theorem constructs_of_mem_orderSingles : ∀ {ns : List Node} {m : Node}, m ∈ orderSingles ns →
    ∃ n ∈ (ns.filterMap Node.single?).flatMap (fun p => [p.1, p.2]), n.Constructs m
  | [], _, h => by cases h
  | .mapping _ _ [(k, v)] :: ns, m, h => by
    rw [orderSingles, List.mem_append, List.mem_append] at h
    rcases h with h | h | h
    · exact ⟨k, by simp [Node.single?], constructs_of_mem_order h⟩
    · exact ⟨v, by simp [Node.single?], constructs_of_mem_order h⟩
    · obtain ⟨c, hc, hcm⟩ := constructs_of_mem_orderSingles h
      refine ⟨c, ?_, hcm⟩
      rw [List.filterMap_cons]
      exact List.mem_append_right [k, v] hc
  | .alias _ :: ns, m, h => @constructs_of_mem_orderSingles ns m h
  | .scalar .. :: ns, m, h => @constructs_of_mem_orderSingles ns m h
  | .sequence .. :: ns, m, h => @constructs_of_mem_orderSingles ns m h
  | .mapping _ _ [] :: ns, m, h => @constructs_of_mem_orderSingles ns m h
  | .mapping _ _ (_ :: _ :: _) :: ns, m, h => @constructs_of_mem_orderSingles ns m h

theorem constructs_of_mem_orderPairs : ∀ {ps : List (Node × Node)} {m : Node},
    m ∈ orderPairs ps → ∃ n ∈ ps.flatMap (fun p => [p.1, p.2]), n.Constructs m
  | [], _, h => by cases h
  | (k, v) :: ps, m, h => by
    rw [orderPairs, List.mem_append, List.mem_append] at h
    rcases h with h | h | h
    · exact ⟨k, by simp, constructs_of_mem_order h⟩
    · exact ⟨v, by simp, constructs_of_mem_order h⟩
    · obtain ⟨c, hc, hcm⟩ := constructs_of_mem_orderPairs h
      exact ⟨c, List.mem_append_right [k, v] hc, hcm⟩

end

theorem mem_order (n m : Node) : m ∈ order n ↔ n.Constructs m := by
  refine ⟨constructs_of_mem_order, fun h => ?_⟩
  induction h using Relation.ReflTransGen.head_induction_on with
  | refl =>
    rw [order_eq]
    exact List.mem_cons_self
  | head hc _ ih =>
    rw [order_eq]
    exact List.mem_cons_of_mem _ (List.mem_flatMap.mpr ⟨_, hc, ih⟩)

def str (value : String) : Node := .scalar none .str value

def graphNode (nodes : List Node) : Node :=
  .mapping none .map [(str "schema_version", .scalar none .int "1"),
    (str "nodes", .sequence none .seq nodes), (str "edges", .sequence none .seq [])]

def emptyText : String := "schema_version: 1\nnodes: []\nedges: []\n"

def complexKey : String := "? [a]\n: b\n"

/-- A day that there is not. -/
def badDate : String := "a: 2026-13-45\n"

/-- A mapping with a duplicate key, that stands for a string. -/
def hiddenKeys : String := "schema_version: 1\nnodes:\n- id: a\n  type: intake\n" ++
  "  label: !!str \x7b=: x, b: 1, b: 2\x7d\nedges: []\n"

def hiddenLabel : Node :=
  .mapping none .str [(.scalar none .value "=", str "x"), (str "b", .scalar none .int "1"),
    (str "b", .scalar none .int "2")]

def hiddenNode : Node :=
  .mapping none .map [(str "id", str "a"), (str "type", str "intake"), (str "label", hiddenLabel)]

def hiddenRoot : Node := graphNode [hiddenNode]

theorem within_hiddenLabel : hiddenRoot.Within hiddenLabel := by
  have hnodes : Node.sequence none .seq [hiddenNode] ∈ hiddenRoot.children := by
    simp [hiddenRoot, graphNode, Node.children]
  have hnode : hiddenNode ∈ (Node.sequence none .seq [hiddenNode]).children :=
    List.mem_singleton_self hiddenNode
  have hlabel : hiddenLabel ∈ hiddenNode.children := by simp [hiddenNode, Node.children]
  exact ((Relation.ReflTransGen.single hnodes).tail hnode).tail hlabel

def parse (text : String) : Parsed :=
  if text = emptyText then .document (graphNode [])
  else if text = complexKey then
    .document (.mapping none .map [(.sequence none .seq [str "a"], str "b")])
  else if text = badDate then
    .document (.mapping none .map [(str "a", .scalar none .timestamp "2026-13-45")])
  else if text = hiddenKeys then .document hiddenRoot
  else .malformed "not one of these texts"

def scalar : Tag → String → Except Raised Atom
  | .str, value => .ok (.text value)
  | .int, value => .ok (.int (if value = "1" then 1 else 2))
  | .timestamp, _ => .error (.python "ValueError")
  | _, value => .ok (.text value)

def text (s : String) : Datum Atom := .scalar (.text s)

def dumped (nodes : List (Datum Atom)) : Datum Atom :=
  .dict [(text "schema_version", .scalar (.int 1)), (text "nodes", .list nodes),
    (text "edges", .list [])]

/-- Graphs with no edges, and at most one node, given by its label. -/
def dump : Option String → Datum Atom
  | none => dumped []
  | some label => dumped
      [.dict [(text "id", text "a"), (text "type", text "intake"), (text "label", text label)]]

def validate : Datum Atom → Option (Option String)
  | .dict [_, (_, .list []), _] => some none
  | .dict [_, (_, .list [.dict [_, _, (_, .scalar (.text label))]]), _] => some (some label)
  | _ => none

def env : YamlEnv Atom (Option String) where
  parse := parse
  scalar := scalar
  same a b := decide (a = b)
  text s := .text s
  int?
    | .int z => some z
    | .text _ => none
  shows _ := true
  order := order
  mem_order := mem_order
  validate := validate
  dump := dump
  emit _ := emptyText
  contentSha g := g.getD ""

def writes : Writes Atom
  | .text s => (.str, s)
  | .int _ => (.int, "1")

theorem readBack : ReadBack env writes none where
  plain := by
    refine ⟨?_, ?_, ?_⟩
    · simp [text]
    · simp [KeyOther, text, env]
    · simp [PlainPairs, PlainAll, Datum.Plain, text, writes, Tag.isScalar, env, scalar]
  version := ⟨_, rfl, by decide +kernel⟩
  emitted := by
    change parse emptyText = _
    rw [parse, if_pos rfl]
    rfl
  validated := rfl

end Sample

end Kroker.GraphIo
