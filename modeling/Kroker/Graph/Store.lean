import Kroker.Core.PyValue
import Kroker.Graph.Io

/-!
# The graph store

`graph/store.py` keeps a graph in a file that is named by its content sha, a layout of it in one
that is named by its document sha, a snapshot of the registry by its sha, and a pointer for each
run.  A file may hold any bytes: it is trusted only after it verifies.

What a file holds is decoded, read and checked before hashes are compared, and each of these steps
raises in its own way.  `legible` says of a file that reading a graph from it raises nothing that is
not caught, and `Fits` of a text that `from_json` neither raises on it nor takes it for a pointer
that it is not.

* `get_none_of_stored`, `get_some_of_stored` --- when what was put is read back;
* `fromJson_iff`, `fromJson_toJson` --- pointers.
-/

namespace Kroker.GraphStore

open GraphIo

/-! ## 1.  Files -/

/-- The files of a store. -/
inductive Place where
  | identity (sha : String)
  | layout (sha doc : String)
  | latest (sha : String)
  | registry (sha : String)
  | pointer (runId : String)
  deriving DecidableEq

abbrev Files := Place → Option ByteArray

inductive ReadFailure where
  | missing
  | unicode
  deriving DecidableEq

/-- `path.read_text(encoding="utf-8")`. -/
def readText (files : Files) (p : Place) : Except ReadFailure String :=
  match files p with
  | none => .error .missing
  | some bytes =>
    match decoded bytes with
    | none => .error .unicode
    | some text => .ok text

/-- `os.replace` of a file by one with this text, where another process may hold the file until the
attempts are over. -/
def replace (held : Place → Bool) (files : Files) (p : Place) (text : String) : Files :=
  if held p then files else Function.update files p (some text.toByteArray)

/-- `_SHA.fullmatch`. -/
def isSha (s : PyStr) : Bool :=
  s.length = 64 ∧ s.all fun c => decide (c ∈ pyStr "0123456789abcdef")

/-- How an operation fails.  The first two are declared: `GraphStoreCorrupt`, and `ValueError` for
what is no sha. -/
inductive StoreFailure where
  | corrupt
  | badSha
  | schema
  | raised (name : String)
  | python (e : PyError)

/-- The store, with what of the libraries it needs. -/
structure StoreEnv (S G N R D P : Type) [PyNumber N] where
  yaml : YamlEnv S G
  documentSha : G → String
  isSha_content : ∀ g, isSha (pyStr (yaml.contentSha g)) = true
  isSha_document : ∀ g, isSha (pyStr (documentSha g)) = true
  /-- A carriage return is escaped in a scalar, and lines end in line feeds. -/
  emit_unbroken : ∀ g, '\r' ∉ (yaml.toYaml g).toList
  /-- `hashlib.sha256(text.encode("utf-8")).hexdigest()`. -/
  sha256 : String → String
  /-- `json.loads`; `ValueError` is a malformed text. -/
  loads : String → Except PyError (PyValue N)
  /-- `_dumps`, of a value with its keys in order. -/
  dumps : PyValue N → String
  dumps_unbroken : ∀ v, '\r' ∉ (dumps v).toList
  one : N
  int?_one : PyNumber.int? one = some 1
  /-- `str`. -/
  str : PyValue N → Except PyError PyStr
  str_text : ∀ s, str (.text s) = .ok s
  /-- `RoleConfig.model_validate`. -/
  role : PyValue N → Option R
  roleDump : R → PyValue N
  role_dump : ∀ r, role (roleDump r) = some r
  /-- `datetime.fromisoformat`. -/
  fromIso : PyStr → Option D
  iso : D → PyStr
  fromIso_iso : ∀ d, fromIso (iso d) = some d
  /-- `NodeTypeSpec.model_validate`. -/
  spec : PyValue N → Option P
  specType : P → PyStr

variable {S G N R D P : Type} [PyNumber N] (env : StoreEnv S G N R D P)

/-! ## 2.  Graphs -/

inductive GraphRead (G : Type) where
  | missing
  | unparsed
  | graph (g : G)
  | raises (e : StoreFailure)

def graphOfText (text : String) : GraphRead G :=
  match env.yaml.fromYaml text with
  | .ok g => .graph g
  | .error (.schema _) => .unparsed
  | .error (.raised name) => .raises (.raised name)

/-- `from_yaml(path.read_text(encoding="utf-8"))`. -/
def graphAt (files : Files) (p : Place) : GraphRead G :=
  match readText files p with
  | .error .missing => .missing
  | .error .unicode => .raises (.python .unicode)
  | .ok text => graphOfText env text

def verifies (files : Files) (p : Place) (sha : String) : Except StoreFailure Bool :=
  match graphAt env files p with
  | .graph g => .ok (env.yaml.contentSha g = sha)
  | .raises e => .error e
  | _ => .ok false

def readLayout (files : Files) (doc sha : String) : Except StoreFailure (Option G) :=
  match graphAt env files (.layout sha doc) with
  | .graph g =>
    .ok (if env.documentSha g ≠ doc ∨ env.yaml.contentSha g ≠ sha then none else some g)
  | .raises e => .error e
  | _ => .ok none

def putLayout (held : Place → Bool) (files : Files) (g : G) (sha text : String) :
    Except StoreFailure Files :=
  (readLayout env files (env.documentSha g) sha).map fun
    | some _ => files
    | none => replace held files (.layout sha (env.documentSha g)) text

def put (held : Place → Bool) (files : Files) (g : G) : Except StoreFailure String × Files :=
  let sha := env.yaml.contentSha g
  let text := env.yaml.toYaml g
  match env.yaml.fromYaml text with
  | .error (.schema _) => (.error .schema, files)
  | .error (.raised name) => (.error (.raised name), files)
  | .ok g' =>
    if env.yaml.contentSha g' ≠ sha then (.error .corrupt, files)
    else
      match putLayout env held files g sha text with
      | .error e => (.error e, files)
      | .ok files =>
        match verifies env files (.identity sha) sha with
        | .error e => (.error e, files)
        | .ok true => (.ok sha, files)
        | .ok false =>
          -- A file that another process holds is looked at again before the error is raised.
          if held (.identity sha) then (.error (.raised "PermissionError"), files)
          else (.ok sha, replace held files (.identity sha) text)

def latestLayout (files : Files) (sha : String) : Except StoreFailure (Option G) :=
  match readText files (.latest sha) with
  | .error .missing => .ok none
  | .error .unicode => .error (.python .unicode)
  | .ok text =>
    if isSha (pyStr (strip text)) then readLayout env files (strip text) sha else .ok none

/-- The identity file, once no layout is asked for or named. -/
def getIdentity (files : Files) (sha : String) : Except StoreFailure (Option G) :=
  match graphAt env files (.identity sha) with
  | .missing => .ok none
  | .unparsed => .error .corrupt
  | .graph g => if env.yaml.contentSha g ≠ sha then .error .corrupt else .ok (some g)
  | .raises e => .error e

def get (files : Files) (sha : String) (layout : Option String) :
    Except StoreFailure (Option G) :=
  if isSha (pyStr sha) = false then .error .badSha
  else
    match layout with
    | some doc => if isSha (pyStr doc) then readLayout env files doc sha else .ok none
    | none => do
      match ← latestLayout env files sha with
      | some g => pure (some g)
      | none => getIdentity env files sha

/-! ## 3.  The registry -/

def hasKeys (names : List String) : PyValue N → Bool
  | .dict members =>
    members.all (fun m => decide (m.1 ∈ names.map pyStr)) &&
      names.all fun name => decide (pyStr name ∈ members.map Prod.fst)
  | _ => false

/-- The specs of a snapshot, if each is one and no type stands twice. -/
def specsOf : List PyStr → List (PyValue N) → Option (List P)
  | _, [] => some []
  | seen, v :: vs => do
    let spec ← env.spec v
    if env.specType spec ∈ seen then none
    else
      let specs ← specsOf (env.specType spec :: seen) vs
      some (spec :: specs)

def loadRegistry (document : String) : Except PyError (Option (List P)) :=
  match env.loads document with
  | .error .value => .ok none
  | .error e => .error e
  | .ok doc =>
    if hasKeys ["schema", "node_types"] doc ∧ (doc.field "schema").int? = some 1 then
      match doc.field "node_types" with
      | .list entries => .ok (specsOf env [] entries)
      | _ => .ok none
    else .ok none

/-- `put_registry`, of a snapshot. -/
def putRegistry (held : Place → Bool) (files : Files) (snapshot : String) :
    Except StoreFailure String × Files :=
  let sha := env.sha256 snapshot
  match readText files (.registry sha) with
  | .error .unicode => (.error (.python .unicode), files)
  | .error .missing => (.ok sha, replace held files (.registry sha) snapshot)
  | .ok text =>
    if env.sha256 text = sha then (.ok sha, files)
    else (.ok sha, replace held files (.registry sha) snapshot)

def getRegistry (files : Files) (sha : String) : Except StoreFailure (Option (List P)) :=
  if isSha (pyStr sha) = false then .ok none
  else
    match readText files (.registry sha) with
    | .error .missing => .ok none
    | .error .unicode => .error (.python .unicode)
    | .ok text =>
      if env.sha256 text ≠ sha then .ok none
      else (loadRegistry env text).mapError .python

/-! ## 4.  Pointers -/

structure RunGraphPointer (R D : Type) where
  runId : PyStr
  graphSha : PyStr
  layoutSha : PyStr
  registrySha : Option PyStr
  roles : List (PyStr × R)
  startedAt : D

def pointerKeys : List String :=
  ["graph_sha", "layout_sha", "registry_sha", "roles", "run_id", "schema", "started_at"]

/-- `_SHA.fullmatch`, of any value. -/
def fullmatch : PyValue N → Except PyError Bool
  | .text s => .ok (isSha s)
  | _ => .error .type

/-- The registry sha is `None` or one. -/
def registryMatch : PyValue N → Except PyError Bool
  | .none => .ok true
  | v => fullmatch v

def rolesOf : PyValue N → Option (List (PyStr × R))
  | .dict members => members.mapM fun m => (env.role m.2).map fun r => (m.1, r)
  | _ => none

def shaOf : PyValue N → PyStr
  | .text s => s
  | _ => []

/-- The checks of `from_json` on a document, up to its roles. -/
def checked (doc : PyValue N) : Except PyError (Option (List (PyStr × R))) :=
  if hasKeys pointerKeys doc ∧ (doc.field "schema").int? = some 1 then do
    if ← fullmatch (doc.field "graph_sha") then
      if ← fullmatch (doc.field "layout_sha") then
        if ← registryMatch (doc.field "registry_sha") then
          pure (rolesOf env (doc.field "roles"))
        else pure none
      else pure none
    else pure none
  else pure none

/-- What `from_json` makes of a document whose checks have passed. -/
def finished (doc : PyValue N) (roles : List (PyStr × R)) :
    Except PyError (Option (RunGraphPointer R D)) :=
  match env.str (doc.field "started_at") with
  | .error .value => .ok none
  | .error e => .error e
  | .ok started =>
    match env.fromIso started with
    | none => .ok none
    | some startedAt =>
      (env.str (doc.field "run_id")).map fun runId =>
        some
          { runId := runId
            graphSha := shaOf (doc.field "graph_sha")
            layoutSha := shaOf (doc.field "layout_sha")
            registrySha := (doc.field "registry_sha").text?
            roles := roles
            startedAt := startedAt }

def fromJson (document : String) : Except PyError (Option (RunGraphPointer R D)) :=
  match env.loads document with
  | .error .value => .ok none
  | .error e => .error e
  | .ok doc => do
    match ← checked env doc with
    | none => pure none
    | some roles => finished env doc roles

/-- The document of a pointer, with its keys in order. -/
def toDoc (p : RunGraphPointer R D) : PyValue N :=
  .dict
    [(pyStr "graph_sha", .text p.graphSha), (pyStr "layout_sha", .text p.layoutSha),
      (pyStr "registry_sha", (p.registrySha.map PyValue.text).getD .none),
      (pyStr "roles", .dict ((p.roles.insertionSort fun a b => a.1 ≤ b.1).map fun role =>
        (role.1, env.roleDump role.2))),
      (pyStr "run_id", .text p.runId), (pyStr "schema", .number env.one),
      (pyStr "started_at", .text (env.iso p.startedAt))]

def toJson (p : RunGraphPointer R D) : String := env.dumps (toDoc env p)

def safeRunId (runId : String) : Bool :=
  1 ≤ runId.length ∧ runId.length ≤ 200 ∧
    (runId.toList.all fun c => c.isAlphanum || c ∈ ['.', '_', '-']) ∧
    runId.toList.head? ≠ some '.'

/-- `put_pointer`, for a run id. -/
def putPointer (held : Place → Bool) (files : Files) (runId : String) (p : RunGraphPointer R D) :
    Files :=
  if safeRunId runId then replace held files (.pointer runId) (toJson env p) else files

def getPointer (files : Files) (runId : String) :
    Except StoreFailure (Option (RunGraphPointer R D)) :=
  if safeRunId runId = false then .ok none
  else
    match readText files (.pointer runId) with
    | .error .missing => .ok none
    | .error .unicode => .error (.python .unicode)
    | .ok text => (fromJson env text).mapError .python

/-! ## 5.  What is declared -/

/-- **Only what is declared is raised.** -/
def Declared {α : Type} (r : Except StoreFailure α) : Prop :=
  ∀ e, r = .error e → e = .corrupt ∨ e = .badSha

/-- A graph can be looked for in the file: what is raised on the way is caught. -/
def legible (files : Files) (p : Place) : Bool :=
  match graphAt env files p with
  | .raises _ => false
  | _ => true

def isText (files : Files) (p : Place) : Bool := decide (readText files p ≠ .error .unicode)

theorem declared_ok {α : Type} (a : α) : Declared (.ok a) := nofun

theorem declared_error {α : Type} {e : StoreFailure} :
    Declared (.error e : Except StoreFailure α) ↔ e = .corrupt ∨ e = .badSha := by
  constructor
  · exact fun h => h e rfl
  · rintro h e' he
    cases he
    exact h

theorem not_declared_python {α : Type} (e : PyError) :
    ¬Declared (.error (.python e) : Except StoreFailure α) := by
  rw [declared_error]
  rintro (h | h) <;> cases h

theorem not_declared_raised {α : Type} (name : String) :
    ¬Declared (.error (.raised name) : Except StoreFailure α) := by
  rw [declared_error]
  rintro (h | h) <;> cases h

section Graphs

variable {env : StoreEnv S G N R D P} {files : Files}

variable {p : Place}

theorem not_declared_of_raises {α : Type} {e : StoreFailure} (h : graphAt env files p = .raises e) :
    ¬Declared (.error e : Except StoreFailure α) := by
  unfold graphAt at h
  split at h
  · cases h
  · cases h
    exact not_declared_python _
  · unfold graphOfText at h
    split at h
    · cases h
    · cases h
    · cases h
      exact not_declared_raised _

variable {sha : String}

theorem declared_readLayout_iff {doc : String} :
    Declared (readLayout env files doc sha) ↔ legible env files (.layout sha doc) = true := by
  rw [readLayout, legible]
  cases h : graphAt env files (.layout sha doc) with
  | raises e => exact iff_of_false (not_declared_of_raises h) Bool.false_ne_true
  | missing => exact iff_of_true (declared_ok _) rfl
  | unparsed => exact iff_of_true (declared_ok _) rfl
  | graph g => exact iff_of_true (declared_ok _) rfl

theorem declared_getIdentity_iff :
    Declared (getIdentity env files sha) ↔ legible env files (.identity sha) = true := by
  rw [getIdentity, legible]
  cases h : graphAt env files (.identity sha) with
  | raises e => exact iff_of_false (not_declared_of_raises h) Bool.false_ne_true
  | missing => exact iff_of_true (declared_ok _) rfl
  | unparsed => exact iff_of_true (declared_error.mpr (.inl rfl)) rfl
  | graph g =>
    refine iff_of_true ?_ rfl
    dsimp only
    split
    · exact declared_error.mpr (.inl rfl)
    · exact declared_ok _

theorem declared_verifies_iff :
    Declared (verifies env files p sha) ↔ legible env files p = true := by
  rw [verifies, legible]
  cases h : graphAt env files p with
  | raises e => exact iff_of_false (not_declared_of_raises h) Bool.false_ne_true
  | missing => exact iff_of_true (declared_ok _) rfl
  | unparsed => exact iff_of_true (declared_ok _) rfl
  | graph g => exact iff_of_true (declared_ok _) rfl

/-- What the hint `latest` leads to can be read. -/
def LatestLegible (env : StoreEnv S G N R D P) (files : Files) (sha : String) : Prop :=
  isText files (.latest sha) = true ∧ ∀ text, readText files (.latest sha) = .ok text →
    isSha (pyStr (strip text)) = true → legible env files (.layout sha (strip text)) = true

theorem declared_latestLayout_iff :
    Declared (latestLayout env files sha) ↔ LatestLegible env files sha := by
  rw [latestLayout, LatestLegible, isText, decide_eq_true_eq]
  cases h : readText files (.latest sha) with
  | error e =>
    cases e with
    | missing => exact iff_of_true (declared_ok _) ⟨nofun, nofun⟩
    | unicode => exact iff_of_false (not_declared_python _) fun hboth => hboth.1 rfl
  | ok text =>
    dsimp only
    by_cases hsha : isSha (pyStr (strip text)) = true
    · rw [if_pos hsha, declared_readLayout_iff]
      refine ⟨fun hlegible => ⟨nofun, fun text' htext _ => ?_⟩, fun hboth => hboth.2 text rfl hsha⟩
      cases htext
      exact hlegible
    · rw [if_neg hsha]
      refine iff_of_true (declared_ok _) ⟨nofun, fun text' htext hsha' => ?_⟩
      cases htext
      exact absurd hsha' hsha

/-- The files that `get` comes to can be read. -/
def Gettable (env : StoreEnv S G N R D P) (files : Files) (sha : String) : Option String → Prop
  | some doc => isSha (pyStr sha) = true → isSha (pyStr doc) = true →
      legible env files (.layout sha doc) = true
  | none => isSha (pyStr sha) = true → LatestLegible env files sha ∧
      (latestLayout env files sha = .ok none → legible env files (.identity sha) = true)

/-- **When `get` raises what it declares, or nothing.** -/
theorem declared_get_iff {layout : Option String} :
    Declared (get env files sha layout) ↔ Gettable env files sha layout := by
  unfold get
  cases hsha : isSha (pyStr sha) with
  | false =>
    rw [if_pos rfl]
    refine iff_of_true (declared_error.mpr (.inr rfl)) ?_
    cases layout with
    | none => exact fun h => Bool.noConfusion (hsha.symm.trans h)
    | some doc => exact fun h => Bool.noConfusion (hsha.symm.trans h)
  | true =>
    rw [if_neg (Bool.noConfusion : ¬true = false)]
    cases layout with
    | some doc =>
      dsimp only
      rw [Gettable, forall_prop_of_true hsha]
      by_cases hdoc : isSha (pyStr doc) = true
      · rw [if_pos hdoc, forall_prop_of_true hdoc, declared_readLayout_iff]
      · rw [if_neg hdoc]
        exact iff_of_true (declared_ok _) fun h => absurd h hdoc
    | none =>
      rw [Gettable, forall_prop_of_true hsha, ← declared_latestLayout_iff]
      cases h : latestLayout env files sha with
      | error e => exact ⟨fun hd => ⟨hd, nofun⟩, fun hd => hd.1⟩
      | ok found =>
        cases found with
        | some g => exact iff_of_true (declared_ok _) ⟨declared_ok _, nofun⟩
        | none =>
          refine Iff.trans declared_getIdentity_iff ?_
          exact ⟨fun hlegible => ⟨declared_ok _, fun _ => hlegible⟩, fun hboth => hboth.2 rfl⟩

/-! ## 6.  What is put and what is got -/

theorem readLayout_eq_some_iff {doc : String} {g : G} :
    readLayout env files doc sha = .ok (some g) ↔
      graphAt env files (.layout sha doc) = .graph g ∧ env.documentSha g = doc ∧
        env.yaml.contentSha g = sha := by
  rw [readLayout]
  cases graphAt env files (.layout sha doc) with
  | graph g' =>
    dsimp only
    by_cases hother : env.documentSha g' ≠ doc ∨ env.yaml.contentSha g' ≠ sha
    · rw [if_pos hother]
      refine iff_of_false nofun ?_
      rintro ⟨hg, hdoc, hsha⟩
      cases hg
      exact hother.elim (fun h => h hdoc) fun h => h hsha
    · rw [if_neg hother]
      rw [not_or, not_not, not_not] at hother
      constructor
      · intro h
        cases h
        exact ⟨rfl, hother⟩
      · rintro ⟨hg, -⟩
        cases hg
        rfl
  | _ => exact iff_of_false nofun fun h => nomatch h.1

theorem getIdentity_eq_some_iff {g : G} :
    getIdentity env files sha = .ok (some g) ↔
      graphAt env files (.identity sha) = .graph g ∧ env.yaml.contentSha g = sha := by
  rw [getIdentity]
  cases graphAt env files (.identity sha) with
  | graph g' =>
    dsimp only
    by_cases hother : env.yaml.contentSha g' ≠ sha
    · rw [if_pos hother]
      refine iff_of_false nofun ?_
      rintro ⟨hg, hsha⟩
      cases hg
      exact hother hsha
    · rw [if_neg hother]
      constructor
      · intro h
        cases h
        exact ⟨rfl, not_not.mp hother⟩
      · rintro ⟨hg, -⟩
        cases hg
        rfl
  | _ => exact iff_of_false nofun fun h => nomatch h.1

theorem verifies_eq_true_iff :
    verifies env files p sha = .ok true ↔
      ∃ g, graphAt env files p = .graph g ∧ env.yaml.contentSha g = sha := by
  rw [verifies]
  cases graphAt env files p with
  | graph g =>
    constructor
    · intro h
      exact ⟨g, rfl, of_decide_eq_true (Except.ok.inj h)⟩
    · rintro ⟨g', hg, hsha⟩
      cases hg
      exact congrArg Except.ok (decide_eq_true hsha)
  | _ =>
    refine iff_of_false nofun ?_
    rintro ⟨g, hg, -⟩
    cases hg

/-- **A graph that is got** has the sha that was asked for. -/
theorem sha_of_get {layout : Option String} {g : G} (h : get env files sha layout = .ok (some g)) :
    env.yaml.contentSha g = sha := by
  unfold get at h
  split at h
  · cases h
  · cases layout with
    | some doc =>
      dsimp only at h
      split at h
      · exact (readLayout_eq_some_iff.mp h).2.2
      · cases h
    | none =>
      obtain ⟨found, hfound, hrest⟩ := bind_eq_ok.mp h
      cases found with
      | none => exact (getIdentity_eq_some_iff.mp hrest).2
      | some g' =>
        cases hrest
        unfold latestLayout at hfound
        split at hfound
        · cases hfound
        · cases hfound
        · split at hfound
          · exact (readLayout_eq_some_iff.mp hfound).2.2
          · cases hfound

theorem graphAt_congr {files' : Files} (h : files p = files' p) :
    graphAt env files p = graphAt env files' p := by
  rw [graphAt, graphAt, readText, readText, h]

variable {text : String}

theorem replace_of_ne {held : Place → Bool} {q : Place} (h : p ≠ q) :
    replace held files q text p = files p := by
  rw [replace]
  split
  · rfl
  · exact Function.update_of_ne h _ _

theorem graphOfText_eq_graph_iff {g : G} :
    graphOfText env text = .graph g ↔ env.yaml.fromYaml text = .ok g := by
  rw [graphOfText]
  cases env.yaml.fromYaml text with
  | ok g' =>
    constructor
    · intro h
      cases h
      rfl
    · intro h
      cases h
      rfl
  | error e => cases e <;> exact iff_of_false nofun nofun

theorem readText_replace {held : Place → Bool} (h : held p = false) (htext : '\r' ∉ text.toList) :
    readText (replace held files p text) p = .ok text := by
  have hfile : replace held files p text p = some text.toByteArray := by
    rw [replace, if_neg (by rw [h]; exact Bool.false_ne_true), Function.update_self]
  rw [readText, hfile]
  dsimp only
  rw [decoded_toByteArray htext]

theorem graphAt_replace {held : Place → Bool} {g : G} (h : held p = false) :
    graphAt env (replace held files p (env.yaml.toYaml g)) p =
      graphOfText env (env.yaml.toYaml g) := by
  rw [graphAt, readText_replace h (env.emit_unbroken g)]

/-- What `put` has to find, for nothing but what is declared to be raised. -/
def Puttable (env : StoreEnv S G N R D P) (held : Place → Bool) (files : Files) (g : G) : Prop :=
  let sha := env.yaml.contentSha g
  ∃ g', env.yaml.fromYaml (env.yaml.toYaml g) = .ok g' ∧ (env.yaml.contentSha g' = sha →
    legible env files (.layout sha (env.documentSha g)) = true ∧
      legible env files (.identity sha) = true ∧
      (held (.identity sha) = true → verifies env files (.identity sha) sha = .ok true))

theorem verifies_of_putLayout {held : Place → Bool} {files' : Files} {g : G}
    (h : putLayout env held files g sha text = .ok files') :
    verifies env files' (.identity sha) sha = verifies env files (.identity sha) sha := by
  obtain ⟨found, -, rfl⟩ := map_eq_ok.mp h
  cases found with
  | some g' => rfl
  | none =>
    change verifies env (replace held files (.layout sha (env.documentSha g)) text) _ _ = _
    have hother : Place.identity sha ≠ .layout sha (env.documentSha g) := nofun
    rw [verifies, verifies, graphAt_congr (replace_of_ne hother)]

theorem raises_of_readLayout {doc : String} {e : StoreFailure}
    (h : readLayout env files doc sha = .error e) :
    graphAt env files (.layout sha doc) = .raises e := by
  rw [readLayout] at h
  cases hat : graphAt env files (.layout sha doc) with
  | raises e' =>
    rw [hat] at h
    cases h
    rfl
  | _ =>
    rw [hat] at h
    cases h

theorem raises_of_verifies {e : StoreFailure} (h : verifies env files p sha = .error e) :
    graphAt env files p = .raises e := by
  rw [verifies] at h
  cases hat : graphAt env files p with
  | raises e' =>
    rw [hat] at h
    cases h
    rfl
  | _ =>
    rw [hat] at h
    cases h

/-- `put`, once its text has been read back: the layout first, then the identity file. -/
theorem declared_put_of_back {held : Place → Bool} {g g' : G}
    (hback : env.yaml.fromYaml (env.yaml.toYaml g) = .ok g')
    (hsha : env.yaml.contentSha g' = env.yaml.contentSha g) :
    Declared (put env held files g).1 ↔
      Declared (readLayout env files (env.documentSha g) (env.yaml.contentSha g)) ∧
        Declared (verifies env files (.identity (env.yaml.contentSha g)) (env.yaml.contentSha g)) ∧
        (held (.identity (env.yaml.contentSha g)) = true →
          verifies env files (.identity (env.yaml.contentSha g)) (env.yaml.contentSha g) =
            .ok true) := by
  rw [put, hback]
  dsimp only
  rw [if_neg (not_not.mpr hsha)]
  cases hlayout : putLayout env held files g (env.yaml.contentSha g) (env.yaml.toYaml g) with
  | error e =>
    rw [putLayout] at hlayout
    cases hread : readLayout env files (env.documentSha g) (env.yaml.contentSha g) with
    | error e' =>
      rw [hread] at hlayout
      cases hlayout
      have hnot := not_declared_of_raises (α := Option G) (raises_of_readLayout hread)
      refine iff_of_false ?_ fun h => hnot h.1
      exact not_declared_of_raises (raises_of_readLayout hread)
    | ok found =>
      rw [hread] at hlayout
      cases hlayout
  | ok files' =>
    obtain ⟨found, hread, -⟩ := map_eq_ok.mp hlayout
    rw [hread, and_iff_right (declared_ok found)]
    dsimp only
    rw [verifies_of_putLayout hlayout]
    cases hverifies : verifies env files (.identity (env.yaml.contentSha g))
        (env.yaml.contentSha g) with
    | error e =>
      have hraises := raises_of_verifies hverifies
      exact iff_of_false (not_declared_of_raises hraises)
        fun h => not_declared_of_raises hraises h.1
    | ok verified =>
      cases verified with
      | true => exact iff_of_true (declared_ok _) ⟨declared_ok _, fun _ => rfl⟩
      | false =>
        dsimp only
        by_cases hheld : held (.identity (env.yaml.contentSha g)) = true
        · rw [if_pos hheld]
          refine iff_of_false (not_declared_raised _) fun h => ?_
          cases h.2 hheld
        · rw [if_neg hheld]
          exact iff_of_true (declared_ok _) ⟨declared_ok _, fun h => absurd h hheld⟩

/-- **When `put` raises what it declares, or nothing.** -/
theorem declared_put_iff {held : Place → Bool} {g : G} :
    Declared (put env held files g).1 ↔ Puttable env held files g := by
  rw [Puttable]
  cases hback : env.yaml.fromYaml (env.yaml.toYaml g) with
  | error e =>
    refine iff_of_false ?_ (fun h => nomatch h.choose_spec.1)
    rw [put, hback]
    cases e with
    | schema s =>
      dsimp only
      rw [declared_error]
      rintro (h | h) <;> cases h
    | raised name => exact not_declared_raised name
  | ok g' =>
    by_cases hsha : env.yaml.contentSha g' = env.yaml.contentSha g
    · rw [declared_put_of_back hback hsha, declared_readLayout_iff, declared_verifies_iff]
      constructor
      · exact fun h => ⟨g', rfl, fun _ => h⟩
      · rintro ⟨g'', hg, h⟩
        cases hg
        exact h hsha
    · rw [put, hback]
      dsimp only
      rw [if_pos hsha]
      exact iff_of_true (declared_error.mpr (.inl rfl)) ⟨g', rfl, fun h => absurd h hsha⟩

/-- What `put` has done when it returns. -/
structure Stored (env : StoreEnv S G N R D P) (held : Place → Bool) (files : Files) (g : G)
    (files' : Files) : Prop where
  back : ∃ g', env.yaml.fromYaml (env.yaml.toYaml g) = .ok g' ∧
    env.yaml.contentSha g' = env.yaml.contentSha g
  layout :
    (∃ found, readLayout env files (env.documentSha g) (env.yaml.contentSha g) =
        .ok (some found) ∧
      files' (.layout (env.yaml.contentSha g) (env.documentSha g)) =
        files (.layout (env.yaml.contentSha g) (env.documentSha g))) ∨
    readLayout env files (env.documentSha g) (env.yaml.contentSha g) = .ok none ∧
      files' (.layout (env.yaml.contentSha g) (env.documentSha g)) =
        replace held files (.layout (env.yaml.contentSha g) (env.documentSha g))
          (env.yaml.toYaml g) (.layout (env.yaml.contentSha g) (env.documentSha g))
  identity : ∃ found, graphAt env files' (.identity (env.yaml.contentSha g)) = .graph found ∧
    env.yaml.contentSha found = env.yaml.contentSha g
  other : ∀ q, q ≠ .identity (env.yaml.contentSha g) →
    q ≠ .layout (env.yaml.contentSha g) (env.documentSha g) → files' q = files q

theorem layout_of_putLayout {held : Place → Bool} {files' : Files} {g : G}
    (h : putLayout env held files g sha text = .ok files') :
    ((∃ found, readLayout env files (env.documentSha g) sha = .ok (some found)) ∧ files' = files) ∨
      readLayout env files (env.documentSha g) sha = .ok none ∧
        files' = replace held files (.layout sha (env.documentSha g)) text := by
  obtain ⟨found, hread, rfl⟩ := map_eq_ok.mp h
  cases found with
  | some found => exact .inl ⟨⟨found, hread⟩, rfl⟩
  | none => exact .inr ⟨hread, rfl⟩

/-- `put` returns the sha of the graph, once each of its steps is done. -/
theorem stored_of_put {held : Place → Bool} {g : G} {files' : Files}
    (h : put env held files g = (.ok sha, files')) :
    sha = env.yaml.contentSha g ∧ Stored env held files g files' := by
  have hplaces : Place.identity (env.yaml.contentSha g) ≠
      .layout (env.yaml.contentSha g) (env.documentSha g) := nofun
  unfold put at h
  dsimp only at h
  cases hback : env.yaml.fromYaml (env.yaml.toYaml g) with
  | error e =>
    rw [hback] at h
    cases e <;> cases h
  | ok g' =>
    rw [hback] at h
    dsimp only at h
    by_cases hsha : env.yaml.contentSha g' = env.yaml.contentSha g
    · rw [if_neg (not_not.mpr hsha)] at h
      cases hlayout : putLayout env held files g (env.yaml.contentSha g) (env.yaml.toYaml g) with
      | error e =>
        rw [hlayout] at h
        cases h
      | ok between =>
        rw [hlayout] at h
        dsimp only at h
        have hbetween : ∀ q, q ≠ .layout (env.yaml.contentSha g) (env.documentSha g) →
            between q = files q := by
          intro q hq
          obtain ⟨-, rfl⟩ | ⟨-, rfl⟩ := layout_of_putLayout hlayout
          · rfl
          · exact replace_of_ne hq
        have hdone : between (.layout (env.yaml.contentSha g) (env.documentSha g)) =
            files' (.layout (env.yaml.contentSha g) (env.documentSha g)) →
            (∃ found, graphAt env files' (.identity (env.yaml.contentSha g)) = .graph found ∧
              env.yaml.contentSha found = env.yaml.contentSha g) →
            (∀ q, q ≠ .identity (env.yaml.contentSha g) → files' q = between q) →
            Stored env held files g files' := by
          intro hsame hidentity hother
          refine ⟨⟨g', hback, hsha⟩, ?_, hidentity, fun q hq hq' => ?_⟩
          · rw [← hsame]
            obtain ⟨⟨found, hread⟩, rfl⟩ | ⟨hread, rfl⟩ := layout_of_putLayout hlayout
            · exact .inl ⟨found, hread, rfl⟩
            · exact .inr ⟨hread, rfl⟩
          · rw [hother q hq, hbetween q hq']
        cases hverifies : verifies env between (.identity (env.yaml.contentSha g))
            (env.yaml.contentSha g) with
        | error e =>
          rw [hverifies] at h
          cases h
        | ok verified =>
          rw [hverifies] at h
          cases verified with
          | true =>
            cases h
            exact ⟨rfl, hdone rfl (verifies_eq_true_iff.mp hverifies) fun q _ => rfl⟩
          | false =>
            dsimp only at h
            by_cases hheld : held (.identity (env.yaml.contentSha g)) = true
            · rw [if_pos hheld] at h
              cases h
            · rw [if_neg hheld] at h
              cases h
              refine ⟨rfl, hdone (replace_of_ne hplaces.symm).symm ⟨g', ?_, hsha⟩ fun q hq =>
                replace_of_ne hq⟩
              rw [graphAt_replace (Bool.eq_false_iff.mpr hheld)]
              exact graphOfText_eq_graph_iff.mpr hback
    · rw [if_pos hsha] at h
      cases h

theorem legible_of_graph {g : G} (h : graphAt env files p = .graph g) :
    legible env files p = true := by
  rw [legible, h]

theorem legible_congr {files' : Files} (h : files p = files' p) :
    legible env files p = legible env files' p := by
  rw [legible, legible, graphAt_congr h]

theorem legible_of_readLayout {doc : String} {found : Option G}
    (h : readLayout env files doc sha = .ok found) :
    legible env files (.layout sha doc) = true :=
  declared_readLayout_iff.mp (h ▸ declared_ok found)

section Stored

variable {held : Place → Bool} {g : G} {files' : Files}

theorem legible_layout_of_stored (h : Stored env held files g files') (doc : String) :
    legible env files' (.layout (env.yaml.contentSha g) doc) =
      legible env files (.layout (env.yaml.contentSha g) doc) := by
  by_cases hdoc : doc = env.documentSha g
  · subst hdoc
    obtain ⟨found, hread, hsame⟩ | ⟨hread, hsame⟩ := h.layout
    · exact legible_congr hsame
    · rw [legible_of_readLayout hread, legible_congr hsame]
      by_cases hheld : held (.layout (env.yaml.contentSha g) (env.documentSha g)) = true
      · rw [replace, if_pos hheld, legible_of_readLayout hread]
      · obtain ⟨g', hback, -⟩ := h.back
        refine legible_of_graph (g := g') ?_
        rw [graphAt_replace (Bool.eq_false_iff.mpr hheld)]
        exact graphOfText_eq_graph_iff.mpr hback
  · refine legible_congr (h.other _ nofun fun hsame => hdoc ?_)
    exact (Place.layout.inj hsame).2

theorem latestLegible_of_stored (h : Stored env held files g files') :
    LatestLegible env files' (env.yaml.contentSha g) ↔
      LatestLegible env files (env.yaml.contentSha g) := by
  have hread : readText files' (.latest (env.yaml.contentSha g)) =
      readText files (.latest (env.yaml.contentSha g)) := by
    rw [readText, readText, h.other (.latest (env.yaml.contentSha g)) nofun nofun]
  rw [LatestLegible, LatestLegible, isText, isText, hread]
  refine and_congr_right fun _ => forall_congr' fun text => ?_
  rw [legible_layout_of_stored h]

theorem exists_of_latestLegible {sha : String} (h : LatestLegible env files sha) :
    ∃ found, latestLayout env files sha = .ok found := by
  obtain ⟨htext, hlegible⟩ := h
  rw [latestLayout]
  cases hread : readText files (.latest sha) with
  | error e =>
    cases e with
    | missing => exact ⟨none, rfl⟩
    | unicode => exact absurd hread (of_decide_eq_true htext)
  | ok text =>
    dsimp only
    by_cases hsha : isSha (pyStr (strip text)) = true
    · rw [if_pos hsha]
      have hlayout := hlegible text hread hsha
      cases hfound : readLayout env files (strip text) sha with
      | ok found => exact ⟨found, rfl⟩
      | error e =>
        rw [legible, raises_of_readLayout hfound] at hlayout
        cases hlayout
    · rw [if_neg hsha]
      exact ⟨none, rfl⟩

/-- **The graph is read back** by its sha, unless the hint leads to what cannot be read. -/
theorem get_none_of_stored (h : Stored env held files g files') :
    (∃ g', get env files' (env.yaml.contentSha g) none = .ok (some g')) ↔
      LatestLegible env files (env.yaml.contentSha g) := by
  have hsha := env.isSha_content g
  have hget : get env files' (env.yaml.contentSha g) none =
      latestLayout env files' (env.yaml.contentSha g) >>= fun
        | some g => pure (some g)
        | none => getIdentity env files' (env.yaml.contentSha g) := by
    rw [get, if_neg (by rw [hsha]; exact Bool.noConfusion)]
  constructor
  · rintro ⟨g', hg'⟩
    have hgettable := declared_get_iff.mp (hg' ▸ declared_ok (some g'))
    exact (latestLegible_of_stored h).mp (hgettable hsha).1
  · intro hlatest
    obtain ⟨found, hfound⟩ := exists_of_latestLegible ((latestLegible_of_stored h).mpr hlatest)
    rw [hget, hfound]
    cases found with
    | some g' => exact ⟨g', rfl⟩
    | none =>
      obtain ⟨found, hat, hcontent⟩ := h.identity
      exact ⟨found, getIdentity_eq_some_iff.mpr ⟨hat, hcontent⟩⟩

/-- The layout was there, or could be written and reads as the same document. -/
def LayoutKept (env : StoreEnv S G N R D P) (held : Place → Bool) (files : Files) (g : G) : Prop :=
  (∃ g', readLayout env files (env.documentSha g) (env.yaml.contentSha g) = .ok (some g')) ∨
    held (.layout (env.yaml.contentSha g) (env.documentSha g)) = false ∧
      ∃ g', env.yaml.fromYaml (env.yaml.toYaml g) = .ok g' ∧
        env.documentSha g' = env.documentSha g

theorem get_some_of_stored (h : Stored env held files g files') :
    (∃ g', get env files' (env.yaml.contentSha g) (some (env.documentSha g)) = .ok (some g') ∧
        env.documentSha g' = env.documentSha g) ↔
      LayoutKept env held files g := by
  have hget : get env files' (env.yaml.contentSha g) (some (env.documentSha g)) =
      readLayout env files' (env.documentSha g) (env.yaml.contentSha g) := by
    rw [get, if_neg (by rw [env.isSha_content g]; exact Bool.noConfusion)]
    exact if_pos (env.isSha_document g)
  rw [hget]
  obtain ⟨found, hread, hsame⟩ | ⟨hread, hsame⟩ := h.layout
  · refine iff_of_true ⟨found, ?_, (readLayout_eq_some_iff.mp hread).2.1⟩ (.inl ⟨found, hread⟩)
    rw [readLayout, graphAt_congr hsame]
    exact hread
  · constructor
    · rintro ⟨g', hg', hdoc⟩
      obtain ⟨hat, -, hcontent⟩ := readLayout_eq_some_iff.mp hg'
      rw [graphAt_congr hsame] at hat
      by_cases hheld : held (.layout (env.yaml.contentSha g) (env.documentSha g)) = true
      · rw [replace, if_pos hheld] at hat
        exact .inl ⟨g', readLayout_eq_some_iff.mpr ⟨hat, hdoc, hcontent⟩⟩
      · rw [graphAt_replace (Bool.eq_false_iff.mpr hheld)] at hat
        exact .inr ⟨Bool.eq_false_iff.mpr hheld, g', graphOfText_eq_graph_iff.mp hat, hdoc⟩
    · rintro (⟨g', hg'⟩ | ⟨hheld, g', hback, hdoc⟩)
      · cases hread.symm.trans hg'
      · obtain ⟨g'', hback', hcontent⟩ := h.back
        cases hback.symm.trans hback'
        refine ⟨g', readLayout_eq_some_iff.mpr ⟨?_, hdoc, hcontent⟩, hdoc⟩
        rw [graphAt_congr hsame, graphAt_replace hheld]
        exact graphOfText_eq_graph_iff.mpr hback

end Stored

end Graphs

/-! ## 7.  Snapshots -/

section Registry

variable {env : StoreEnv S G N R D P} {files : Files}

/-- The file is a text, and one that has the sha is JSON or is malformed as `ValueError` says. -/
def RegistryLegible (env : StoreEnv S G N R D P) (files : Files) (sha : String) : Prop :=
  isText files (.registry sha) = true ∧ ∀ text, readText files (.registry sha) = .ok text →
    env.sha256 text = sha → ∀ e, env.loads text = .error e → e = .value

theorem loadRegistry_returns_iff {text : String} :
    Declared ((loadRegistry env text).mapError .python) ↔
      ∀ e, env.loads text = .error e → e = .value := by
  rw [loadRegistry]
  cases env.loads text with
  | error e =>
    by_cases hvalue : e = .value
    · subst hvalue
      refine iff_of_true (declared_ok _) fun e he => ?_
      cases he
      rfl
    · refine iff_of_false ?_ fun h => hvalue (h e rfl)
      cases e with
      | value => exact absurd rfl hvalue
      | _ => exact not_declared_python _
  | ok doc =>
    refine iff_of_true ?_ nofun
    dsimp only
    split
    · split
      · exact declared_ok _
      · exact declared_ok _
    · exact declared_ok _

/-- **When `get_registry` raises nothing.** -/
theorem declared_getRegistry_iff {sha : String} :
    Declared (getRegistry env files sha) ↔
      (isSha (pyStr sha) = true → RegistryLegible env files sha) := by
  rw [getRegistry]
  cases hsha : isSha (pyStr sha) with
  | false =>
    rw [if_pos rfl]
    exact iff_of_true (declared_ok _) nofun
  | true =>
    rw [if_neg (Bool.noConfusion : ¬true = false), forall_prop_of_true rfl, RegistryLegible, isText,
      decide_eq_true_eq]
    cases readText files (.registry sha) with
    | error e =>
      cases e with
      | missing => exact iff_of_true (declared_ok _) ⟨nofun, nofun⟩
      | unicode => exact iff_of_false (not_declared_python _) fun h => h.1 rfl
    | ok text =>
      dsimp only
      by_cases hhash : env.sha256 text = sha
      · rw [if_neg (not_not.mpr hhash), loadRegistry_returns_iff]
        constructor
        · refine fun h => ⟨nofun, fun text' htext _ => ?_⟩
          cases htext
          exact h
        · exact fun h => h.2 text rfl hhash
      · rw [if_pos hhash]
        refine iff_of_true (declared_ok _) ⟨nofun, fun text' htext hhash' => ?_⟩
        cases htext
        exact absurd hhash' hhash

/-- **When `put_registry` raises nothing.** -/
theorem declared_putRegistry_iff {held : Place → Bool} {snapshot : String} :
    Declared (putRegistry env held files snapshot).1 ↔
      isText files (.registry (env.sha256 snapshot)) = true := by
  rw [putRegistry, isText, decide_eq_true_eq]
  cases readText files (.registry (env.sha256 snapshot)) with
  | error e =>
    cases e with
    | missing => exact iff_of_true (declared_ok _) nofun
    | unicode => exact iff_of_false (not_declared_python _) fun h => h rfl
  | ok text =>
    refine iff_of_true ?_ nofun
    dsimp only
    split
    · exact declared_ok _
    · exact declared_ok _

end Registry

/-! ## 8.  Pointers -/

def IsStr (v : PyValue N) : Prop := ∃ s, v = .text s

def IsSha (v : PyValue N) : Prop := ∃ s, v = .text s ∧ isSha s = true

def Keyed (doc : PyValue N) : Prop :=
  hasKeys pointerKeys doc = true ∧ (doc.field "schema").int? = some 1

structure ShasMatch (doc : PyValue N) : Prop where
  graph : IsSha (doc.field "graph_sha")
  layout : IsSha (doc.field "layout_sha")
  registry : doc.field "registry_sha" = .none ∨ IsSha (doc.field "registry_sha")

/-- The values that `_SHA.fullmatch` comes to are strings. -/
def ShasTyped (doc : PyValue N) : Prop :=
  IsStr (doc.field "graph_sha") ∧ (IsSha (doc.field "graph_sha") →
    IsStr (doc.field "layout_sha") ∧ (IsSha (doc.field "layout_sha") →
      doc.field "registry_sha" = .none ∨ IsStr (doc.field "registry_sha")))

/-- What `str` makes of the start is no time, or the start and the run id are strings. -/
def Finishes (env : StoreEnv S G N R D P) (doc : PyValue N) : Prop :=
  match env.str (doc.field "started_at") with
  | .error e => e = .value
  | .ok started => (env.fromIso started).isSome = true →
      IsStr (doc.field "started_at") ∧ IsStr (doc.field "run_id")

/-- The text is malformed as `ValueError` says; or, if it has the keys of a pointer, then the checks
that follow come to values of the types that they expect. -/
def Fits (env : StoreEnv S G N R D P) (text : String) : Prop :=
  match env.loads text with
  | .error e => e = .value
  | .ok doc => Keyed doc → ShasTyped doc ∧
      (ShasMatch doc → (rolesOf env (doc.field "roles")).isSome = true → Finishes env doc)

/-- **The document of a pointer.** -/
structure PointerDoc (env : StoreEnv S G N R D P) (doc : PyValue N) (p : RunGraphPointer R D) :
    Prop where
  keyed : Keyed doc
  graph : doc.field "graph_sha" = .text p.graphSha ∧ isSha p.graphSha = true
  layout : doc.field "layout_sha" = .text p.layoutSha ∧ isSha p.layoutSha = true
  registry : doc.field "registry_sha" = (p.registrySha.map PyValue.text).getD .none ∧
    ∀ s ∈ p.registrySha, isSha s = true
  roles : rolesOf env (doc.field "roles") = some p.roles
  runId : doc.field "run_id" = .text p.runId
  startedAt : ∃ s, doc.field "started_at" = .text s ∧ env.fromIso s = some p.startedAt

section Shas

omit [PyNumber N]

theorem fullmatch_eq_true_iff {v : PyValue N} : fullmatch v = .ok true ↔ IsSha v := by
  cases v with
  | text s =>
    constructor
    · exact fun h => ⟨s, rfl, Except.ok.inj h⟩
    · rintro ⟨s', hs, hsha⟩
      cases hs
      exact congrArg Except.ok hsha
  | _ =>
    refine iff_of_false nofun ?_
    rintro ⟨s, hs, -⟩
    cases hs

theorem fullmatch_returns_iff {v : PyValue N} : (∃ b, fullmatch v = .ok b) ↔ IsStr v := by
  cases v with
  | text s => exact iff_of_true ⟨_, rfl⟩ ⟨s, rfl⟩
  | _ =>
    refine iff_of_false ?_ ?_
    · rintro ⟨b, hb⟩
      cases hb
    · rintro ⟨s, hs⟩
      cases hs

theorem registryMatch_eq_true_iff {v : PyValue N} :
    registryMatch v = .ok true ↔ v = .none ∨ IsSha v := by
  cases v with
  | none => exact iff_of_true rfl (.inl rfl)
  | _ =>
    rw [registryMatch, fullmatch_eq_true_iff, or_iff_right nofun]
    exact nofun

theorem registryMatch_returns_iff {v : PyValue N} :
    (∃ b, registryMatch v = .ok b) ↔ v = .none ∨ IsStr v := by
  cases v with
  | none => exact iff_of_true ⟨true, rfl⟩ (.inl rfl)
  | _ =>
    rw [registryMatch, fullmatch_returns_iff, or_iff_right nofun]
    exact nofun

theorem shaOf_of_isSha {v : PyValue N} (h : IsSha v) : v = .text (shaOf v) ∧ isSha (shaOf v) := by
  obtain ⟨s, rfl, hsha⟩ := h
  exact ⟨rfl, hsha⟩

end Shas

section Pointers

variable {env : StoreEnv S G N R D P} {doc : PyValue N} {roles : List (PyStr × R)}

theorem checked_eq_some_iff :
    checked env doc = .ok (some roles) ↔
      Keyed doc ∧ ShasMatch doc ∧ rolesOf env (doc.field "roles") = some roles := by
  rw [checked, Keyed]
  split
  next hkeyed =>
    rw [and_iff_right hkeyed, bind_eq_ok]
    constructor
    · rintro ⟨graph, hgraph, h⟩
      cases graph with
      | false => cases h
      | true =>
        rw [if_pos rfl, bind_eq_ok] at h
        obtain ⟨layout, hlayout, h⟩ := h
        cases layout with
        | false => cases h
        | true =>
          rw [if_pos rfl, bind_eq_ok] at h
          obtain ⟨registry, hregistry, h⟩ := h
          cases registry with
          | false => cases h
          | true =>
            rw [if_pos rfl] at h
            exact ⟨⟨fullmatch_eq_true_iff.mp hgraph, fullmatch_eq_true_iff.mp hlayout,
              registryMatch_eq_true_iff.mp hregistry⟩, Except.ok.inj h⟩
    · rintro ⟨⟨hgraph, hlayout, hregistry⟩, hroles⟩
      refine ⟨true, fullmatch_eq_true_iff.mpr hgraph, ?_⟩
      rw [if_pos rfl, fullmatch_eq_true_iff.mpr hlayout]
      change (registryMatch _ >>= _) = _
      rw [registryMatch_eq_true_iff.mpr hregistry]
      exact congrArg Except.ok hroles
  next hkeyed => exact iff_of_false nofun fun h => hkeyed h.1

/-- The checks raise nothing. -/
theorem checked_returns_iff :
    (∃ found, checked env doc = .ok found) ↔ (Keyed doc → ShasTyped doc) := by
  rw [checked, Keyed]
  split
  next hkeyed =>
    rw [forall_prop_of_true hkeyed, ShasTyped]
    constructor
    · rintro ⟨found, h⟩
      obtain ⟨graph, hgraph, h⟩ := bind_eq_ok.mp h
      refine ⟨fullmatch_returns_iff.mp ⟨graph, hgraph⟩, fun hsha => ?_⟩
      cases hgraph.symm.trans (fullmatch_eq_true_iff.mpr hsha)
      rw [if_pos rfl] at h
      obtain ⟨layout, hlayout, h⟩ := bind_eq_ok.mp h
      refine ⟨fullmatch_returns_iff.mp ⟨layout, hlayout⟩, fun hsha => ?_⟩
      cases hlayout.symm.trans (fullmatch_eq_true_iff.mpr hsha)
      rw [if_pos rfl] at h
      obtain ⟨registry, hregistry, h⟩ := bind_eq_ok.mp h
      exact registryMatch_returns_iff.mp ⟨registry, hregistry⟩
    · rintro ⟨hgraph, hlater⟩
      obtain ⟨graph, hgraph⟩ := fullmatch_returns_iff.mpr hgraph
      rw [hgraph]
      cases graph with
      | false => exact ⟨none, rfl⟩
      | true =>
        obtain ⟨hlayout, hlater⟩ := hlater (fullmatch_eq_true_iff.mp hgraph)
        obtain ⟨layout, hlayout⟩ := fullmatch_returns_iff.mpr hlayout
        change ∃ found, (fullmatch (doc.field "layout_sha") >>= _) = .ok found
        rw [hlayout]
        cases layout with
        | false => exact ⟨none, rfl⟩
        | true =>
          obtain ⟨registry, hregistry⟩ :=
            registryMatch_returns_iff.mpr (hlater (fullmatch_eq_true_iff.mp hlayout))
          change ∃ found, (registryMatch (doc.field "registry_sha") >>= _) = .ok found
          rw [hregistry]
          cases registry with
          | false => exact ⟨none, rfl⟩
          | true => exact ⟨_, rfl⟩
  next hkeyed => exact iff_of_true ⟨none, rfl⟩ fun h => absurd h hkeyed

/-- What the last steps return is of the document. -/
def FinishedRight (env : StoreEnv S G N R D P) (doc : PyValue N) (roles : List (PyStr × R)) :
    Prop :=
  ∃ found, finished env doc roles = .ok found ∧ ∀ p, found = some p → PointerDoc env doc p

theorem pointerDoc_of_finished (hkeyed : Keyed doc) (hshas : ShasMatch doc)
    (hroles : rolesOf env (doc.field "roles") = some roles) {runId started : PyStr} {startedAt : D}
    (hrunId : doc.field "run_id" = .text runId) (hstarted : doc.field "started_at" = .text started)
    (hiso : env.fromIso started = some startedAt) :
    PointerDoc env doc
      { runId := runId
        graphSha := shaOf (doc.field "graph_sha")
        layoutSha := shaOf (doc.field "layout_sha")
        registrySha := (doc.field "registry_sha").text?
        roles := roles
        startedAt := startedAt } where
  keyed := hkeyed
  graph := shaOf_of_isSha hshas.graph
  layout := shaOf_of_isSha hshas.layout
  registry := by
    obtain hnone | ⟨s, hs, hsha⟩ := hshas.registry
    · rw [hnone]
      exact ⟨rfl, nofun⟩
    · rw [hs]
      refine ⟨rfl, fun s' hs' => ?_⟩
      cases hs'
      exact hsha
  roles := hroles
  runId := hrunId
  startedAt := ⟨started, hstarted, hiso⟩

theorem finishedRight_iff (hkeyed : Keyed doc) (hshas : ShasMatch doc)
    (hroles : rolesOf env (doc.field "roles") = some roles) :
    FinishedRight env doc roles ↔ Finishes env doc := by
  rw [FinishedRight, finished, Finishes]
  cases hstr : env.str (doc.field "started_at") with
  | error e =>
    by_cases hvalue : e = .value
    · subst hvalue
      exact iff_of_true ⟨none, rfl, nofun⟩ rfl
    · refine iff_of_false ?_ hvalue
      rintro ⟨found, hfound, -⟩
      cases e with
      | value => exact hvalue rfl
      | _ => cases hfound
  | ok started =>
    dsimp only
    cases hiso : env.fromIso started with
    | none => exact iff_of_true ⟨none, rfl, nofun⟩ nofun
    | some startedAt =>
      rw [forall_prop_of_true (Option.isSome_some)]
      constructor
      · rintro ⟨found, hfound, hright⟩
        obtain ⟨runId, -, rfl⟩ := map_eq_ok.mp hfound
        have hdoc := hright _ rfl
        obtain ⟨s, hs, -⟩ := hdoc.startedAt
        exact ⟨⟨s, hs⟩, ⟨_, hdoc.runId⟩⟩
      · rintro ⟨⟨s, hs⟩, ⟨runId, hrunId⟩⟩
        have hstarted : started = s := by
          rw [hs, env.str_text] at hstr
          exact (Except.ok.inj hstr).symm
        rw [hrunId, env.str_text]
        refine ⟨_, rfl, fun p hp => ?_⟩
        cases hp
        exact pointerDoc_of_finished hkeyed hshas hroles hrunId (hstarted ▸ hs) hiso

/-- **`from_json` neither raises** on the text nor takes it for a pointer that it is not. -/
def ReadRight (env : StoreEnv S G N R D P) (text : String) : Prop :=
  ∃ found, fromJson env text = .ok found ∧
    ∀ p, found = some p → ∃ doc, env.loads text = .ok doc ∧ PointerDoc env doc p

theorem fromJson_iff {text : String} : ReadRight env text ↔ Fits env text := by
  rw [ReadRight, Fits, fromJson]
  cases hloads : env.loads text with
  | error e =>
    by_cases hvalue : e = .value
    · subst hvalue
      exact iff_of_true ⟨none, rfl, nofun⟩ rfl
    · refine iff_of_false ?_ hvalue
      rintro ⟨found, hfound, -⟩
      cases e with
      | value => exact hvalue rfl
      | _ => cases hfound
  | ok doc =>
    dsimp only
    constructor
    · rintro ⟨found, hfound, hright⟩ hkeyed
      obtain ⟨checks, hchecks, hfound⟩ := bind_eq_ok.mp hfound
      refine ⟨checked_returns_iff.mp ⟨checks, hchecks⟩ hkeyed, fun hshas hroles => ?_⟩
      obtain ⟨roles, hroles⟩ := Option.isSome_iff_exists.mp hroles
      cases hchecks.symm.trans (checked_eq_some_iff.mpr ⟨hkeyed, hshas, hroles⟩)
      refine (finishedRight_iff hkeyed hshas hroles).mp ⟨found, hfound, fun p hp => ?_⟩
      obtain ⟨doc', hdoc', hp⟩ := hright p hp
      cases hdoc'
      exact hp
    · intro hfits
      obtain ⟨checks, hchecks⟩ := checked_returns_iff.mpr fun hkeyed => (hfits hkeyed).1
      rw [hchecks]
      cases checks with
      | none => exact ⟨none, rfl, nofun⟩
      | some roles =>
        obtain ⟨hkeyed, hshas, hroles⟩ := checked_eq_some_iff.mp hchecks
        have hfinishes := (hfits hkeyed).2 hshas (Option.isSome_iff_exists.mpr ⟨roles, hroles⟩)
        obtain ⟨found, hfound, hright⟩ := (finishedRight_iff hkeyed hshas hroles).mpr hfinishes
        exact ⟨found, hfound, fun p hp => ⟨doc, rfl, hright p hp⟩⟩

theorem fromJson_of_pointerDoc {text : String} {p : RunGraphPointer R D}
    (hloads : env.loads text = .ok doc) (h : PointerDoc env doc p) :
    fromJson env text = .ok (some p) := by
  have hregistry : doc.field "registry_sha" = .none ∨ IsSha (doc.field "registry_sha") := by
    rw [h.registry.1]
    cases hp : p.registrySha with
    | none => exact .inl rfl
    | some s => exact .inr ⟨s, rfl, h.registry.2 s hp⟩
  have hshas : ShasMatch doc := ⟨⟨_, h.graph⟩, ⟨_, h.layout⟩, hregistry⟩
  obtain ⟨started, hstarted, hiso⟩ := h.startedAt
  rw [fromJson, hloads]
  change (checked env doc >>= _) = _
  rw [checked_eq_some_iff.mpr ⟨h.keyed, hshas, h.roles⟩]
  change finished env doc p.roles = _
  rw [finished, hstarted, env.str_text]
  dsimp only
  rw [hiso, h.runId, env.str_text, h.graph.1, h.layout.1, h.registry.1]
  cases p with
  | mk runId graphSha layoutSha registrySha roles startedAt => cases registrySha <;> rfl

structure WellFormed (p : RunGraphPointer R D) : Prop where
  graph : isSha p.graphSha = true
  layout : isSha p.layoutSha = true
  registry : ∀ s ∈ p.registrySha, isSha s = true

def RunGraphPointer.ordered (p : RunGraphPointer R D) : RunGraphPointer R D :=
  { p with roles := p.roles.insertionSort fun a b => a.1 ≤ b.1 }

theorem rolesOf_dump (roles : List (PyStr × R)) :
    rolesOf env (.dict (roles.map fun role => (role.1, env.roleDump role.2))) = some roles := by
  rw [rolesOf]
  induction roles with
  | nil => rfl
  | cons role roles ih =>
    rw [List.map_cons, List.mapM_cons, env.role_dump, ih]
    rfl

theorem pointerDoc_toDoc {p : RunGraphPointer R D} (h : WellFormed p) :
    PointerDoc env (toDoc env p) p.ordered where
  keyed := ⟨rfl, env.int?_one⟩
  graph := ⟨rfl, h.graph⟩
  layout := ⟨rfl, h.layout⟩
  registry := ⟨rfl, h.registry⟩
  roles := rolesOf_dump _
  runId := rfl
  startedAt := ⟨_, rfl, env.fromIso_iso _⟩

/-- **A pointer is read back** from its text: its roles, which are a dictionary, come in the order
of their names. -/
theorem fromJson_toJson {p : RunGraphPointer R D} (h : WellFormed p)
    (hjson : env.loads (toJson env p) = .ok (toDoc env p)) :
    fromJson env (toJson env p) = .ok (some p.ordered) ∧ p.ordered.roles.Perm p.roles :=
  ⟨fromJson_of_pointerDoc hjson (pointerDoc_toDoc h), List.perm_insertionSort _ _⟩

/-- What `get_pointer` returns is what the file holds, or nothing. -/
def PointerRight (env : StoreEnv S G N R D P) (files : Files) (runId : String) : Prop :=
  ∃ found, getPointer env files runId = .ok found ∧
    ∀ p, found = some p → ∃ text doc, readText files (.pointer runId) = .ok text ∧
      env.loads text = .ok doc ∧ PointerDoc env doc p

theorem getPointer_iff {files : Files} {runId : String} :
    PointerRight env files runId ↔
      (safeRunId runId = true → isText files (.pointer runId) = true ∧
        ∀ text, readText files (.pointer runId) = .ok text → Fits env text) := by
  rw [PointerRight, getPointer]
  cases hsafe : safeRunId runId with
  | false =>
    rw [if_pos rfl]
    exact iff_of_true ⟨none, rfl, nofun⟩ nofun
  | true =>
    rw [if_neg (Bool.noConfusion : ¬true = false), forall_prop_of_true rfl, isText,
      decide_eq_true_eq]
    cases readText files (.pointer runId) with
    | error e =>
      cases e with
      | missing => exact iff_of_true ⟨none, rfl, nofun⟩ ⟨nofun, nofun⟩
      | unicode =>
        refine iff_of_false ?_ fun h => h.1 rfl
        rintro ⟨found, hfound, -⟩
        cases hfound
    | ok text =>
      dsimp only
      constructor
      · rintro ⟨found, hfound, hright⟩
        refine ⟨nofun, fun text' htext => ?_⟩
        cases htext
        refine fromJson_iff.mp ?_
        cases hjson : fromJson env text with
        | error e =>
          rw [hjson] at hfound
          cases hfound
        | ok found' =>
          rw [hjson] at hfound
          cases hfound
          refine ⟨_, hjson, fun p hp => ?_⟩
          obtain ⟨text', doc, htext, hdoc⟩ := hright p hp
          cases htext
          exact ⟨doc, hdoc⟩
      · rintro ⟨-, hfits⟩
        obtain ⟨found, hfound, hright⟩ := fromJson_iff.mpr (hfits text rfl)
        rw [hfound]
        refine ⟨found, rfl, fun p hp => ?_⟩
        obtain ⟨doc, hdoc⟩ := hright p hp
        exact ⟨text, doc, rfl, hdoc⟩

end Pointers

/-! ## 9.  The store -/

namespace StoreSample

/-- The one number of these documents. -/
instance one : PyNumber Unit where
  zero := ()
  zeroFloat := ()
  ofBool _ := ()
  nonzero _ := true
  add _ _ := some ()
  int? _ := some 1

def zeros : String := String.ofList (List.replicate 64 '0')

theorem isSha_zeros : isSha (pyStr zeros) = true := by decide +kernel

def document (graph : PyValue Unit) : PyValue Unit :=
  .dict
    [(pyStr "graph_sha", graph), (pyStr "layout_sha", .text (pyStr zeros)),
      (pyStr "registry_sha", .none), (pyStr "roles", .dict []), (pyStr "run_id", .text (pyStr "r")),
      (pyStr "schema", .number ()), (pyStr "started_at", .text [])]

/-- Three texts: one of a pointer, one that has a number where a sha stands, and the rest. -/
def loads (text : String) : Except PyError (PyValue Unit) :=
  if text = "pointer" then .ok (document (.text (pyStr zeros)))
  else if text = "number" then .ok (document (.number ()))
  else .error .value

def storeEnv : StoreEnv GraphIo.Sample.Atom (Option String) Unit Unit Unit Unit where
  yaml := { GraphIo.Sample.env with contentSha := fun _ => zeros }
  documentSha _ := zeros
  isSha_content _ := isSha_zeros
  isSha_document _ := isSha_zeros
  emit_unbroken _ := by
    change '\r' ∉ GraphIo.Sample.emptyText.toList
    decide +kernel
  sha256 _ := zeros
  loads := loads
  dumps _ := "pointer"
  dumps_unbroken _ := by decide +kernel
  one := ()
  int?_one := rfl
  str
    | .text s => .ok s
    | _ => .ok (pyStr "1")
  str_text _ := rfl
  role _ := some ()
  roleDump _ := .none
  role_dump _ := rfl
  fromIso s := if s = [] then some () else none
  iso _ := []
  fromIso_iso _ := rfl
  spec _ := none
  specType _ := []

def pointer : RunGraphPointer Unit Unit where
  runId := pyStr "r"
  graphSha := pyStr zeros
  layoutSha := pyStr zeros
  registrySha := none
  roles := []
  startedAt := ()

/-- In the one file there is stands a byte that begins no character. -/
def torn (p : Place) : Files := Function.update (fun _ => none) p (some ⟨#[255]⟩)

theorem put_empty :
    put storeEnv (fun _ => false) (fun _ => none) none =
      (.ok zeros,
        replace (fun _ => false)
          (replace (fun _ => false) (fun _ => none) (.layout zeros zeros) GraphIo.Sample.emptyText)
          (.identity zeros) GraphIo.Sample.emptyText) := by
  have hyaml : storeEnv.yaml.fromYaml (storeEnv.yaml.toYaml none) = .ok none := by decide +kernel
  rw [put, hyaml]
  rfl

end StoreSample

end Kroker.GraphStore
