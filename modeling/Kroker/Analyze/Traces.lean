import Kroker.Core.PosixPath
import Kroker.Library.Members
import Kroker.Merge.Scoping

/-!
# Traces of acceptance criteria

`enforce_traces` of `stages/analyze/models.py`: the analyst proposes, row by row, which tests and
which other evidence stand for an acceptance criterion of the plan, and the workflow checks the rows
against its inventory of the integrated tree.

A criterion has a key, made of its task and of its place among the criteria of the task.  Its row is
the first with its key, or else the first with its task and text.  Each test and each evidence of
the row is valid or not, and the criterion falls in the first bucket for which there is any.

Paths are compared by `_norm_path`, a function of this module: it is `normalize_path`, which the
rest of the pipeline uses, with every dot and slash at the start of the path taken off.
-/

namespace Kroker.Analyze

open Kroker.Scoping (normalizePath dropDotSlash)

/-! ## 1.  Criteria and their keys -/

/-- What `enforce_traces` depends on in a task of the plan. -/
structure DevTask where
  id : String
  acceptanceCriteria : List String

def authoritative (tasks : List DevTask) : List (String × String) :=
  tasks.flatMap fun t => t.acceptanceCriteria.map fun c => (t.id, c)

structure KeyedCriterion where
  key : String
  taskId : String
  criterion : String

/-- The criteria that follow others, of which `counts` says how many each task has. -/
def criterionKeysFrom (counts : Dict ℕ) : List (String × String) → List KeyedCriterion
  | [] => []
  | (taskId, criterion) :: rest =>
    let n := counts.getD taskId 0 + 1
    ⟨taskId ++ "#" ++ toString n, taskId, criterion⟩ ::
      criterionKeysFrom (counts.insert taskId n) rest

def criterionKeys (criteria : List (String × String)) : List KeyedCriterion :=
  criterionKeysFrom ∅ criteria

/-! ## 2.  The report of the analyst and the inventory -/

inductive EvidenceKind where
  | file
  | taskUnchanged
  | command

inductive Expect where
  | present
  | absent

structure Evidence where
  kind : EvidenceKind
  ref : Option String := none
  expect : Option Expect := none

structure CriterionTrace where
  taskId : String
  criterion : String
  tests : List String := []
  key : Option String := none
  evidence : List Evidence := []

structure AnalysisReport where
  traceability : List CriterionTrace := []

/-- A task whose number of changed files is not known is in `taskChanged` with `none`. -/
structure TraceInventory where
  changedFiles : List String := []
  tests : List String := []
  tree : List String := []
  taskChanged : Dict (Option ℤ) := ∅

/-! ## 3.  What is valid -/

def normPath (p : String) : String :=
  String.ofList ((strip (String.ofList (p.toList.map fun c =>
    if c = Char.ofNat 92 then '/' else c))).toList.dropWhile fun c => c = '.' || c = '/')

/-- `re.sub(r"\[.*\]$", "", ...)` of a text that does not end in a line break. -/
def dropParams : List Char → List Char
  | [] => []
  | c :: cs => if c = '[' ∧ '\n' ∉ cs ∧ cs.getLast? = some ']' then [] else c :: dropParams cs

def normalizeTestName (testName : String) : String :=
  String.ofList (dropParams (strip testName).toList)

/-- `text.endswith(suffix)`. -/
def endsIn (suffix text : String) : Bool := decide (suffix.toList <:+ text.toList)

def isTestValid (testCite : String) (inventoryTests : List String) : Bool :=
  let citeNorm := normalizeTestName testCite
  let invUnparam := inventoryTests.map normalizeTestName
  if citeNorm = "" then false
  else if citeNorm ∈ invUnparam then true
  else (invUnparam.filter (endsIn ("::" ++ citeNorm))).length = 1

/-- The path of a piece of evidence. -/
def Evidence.refNorm (ev : Evidence) : String :=
  match ev.ref with
  | none => ""
  | some ref => if ref = "" then "" else normPath ref

/-- The path, or its base name, stands in the text of the criterion. -/
def contained (refNorm criterion : String) : Bool :=
  decide (refNorm.toList <:+: criterion.toList) ||
    decide ((basename refNorm).toList <:+: criterion.toList)

def Evidence.valid (inventory : TraceInventory) (kc : KeyedCriterion) (ev : Evidence) : Bool :=
  match ev.kind with
  | .file => match ev.expect.getD .present with
    | .present => ev.refNorm ≠ "" && decide (ev.refNorm ∈ inventory.tree.map normPath)
    | .absent => ev.refNorm ≠ "" && decide (ev.refNorm ∉ inventory.changedFiles.map normPath) &&
        contained ev.refNorm kc.criterion
  | .taskUnchanged => decide (inventory.taskChanged[kc.taskId]? = some (some 0))
  | .command => false

/-! ## 4.  Enforcement -/

inductive AuditKind where
  | test
  | file
  | taskUnchanged
  | command
  deriving DecidableEq

structure AuditEvidence where
  kind : AuditKind
  ref : Option String
  expect : Option Expect
  valid : Bool

inductive Bucket where
  | test
  | file
  | command
  | empty
  deriving DecidableEq

structure CriterionAudit where
  key : String
  bucket : Bucket
  evidence : List AuditEvidence := []

/-- The counts of the four buckets. -/
structure Buckets where
  test : ℕ := 0
  file : ℕ := 0
  command : ℕ := 0
  empty : ℕ := 0

structure TraceEnforcement where
  buckets : Buckets := {}
  untraced : List String := []
  commandOnly : List String := []
  criteriaTrace : List CriterionAudit := []
  truncated : Bool := false

/-- The first 200 characters of a reference. -/
def cutRef (ref : String) : String := String.ofList (ref.toList.take 200)

def refCut (ref : String) : Bool := 200 < ref.length

def EvidenceKind.audited : EvidenceKind → AuditKind
  | .file => .file
  | .taskUnchanged => .taskUnchanged
  | .command => .command

namespace CriterionTrace

variable (inventory : TraceInventory) (kc : KeyedCriterion) (row : CriterionTrace)

def audited : List AuditEvidence :=
  (row.tests.map fun t => ⟨.test, some (cutRef t), none, isTestValid t inventory.tests⟩) ++
    row.evidence.map fun ev =>
      ⟨ev.kind.audited, ev.ref.map cutRef, ev.expect, ev.valid inventory kc⟩

def anyRefCut : Bool :=
  row.tests.any refCut || row.evidence.any fun ev => (ev.ref.map refCut).getD false

end CriterionTrace

def bucketOf (audit : List AuditEvidence) : Bucket :=
  if audit.any fun ae => ae.kind = .test && ae.valid then .test
  else if audit.any fun ae => (ae.kind = .file || ae.kind = .taskUnchanged) && ae.valid then .file
  else if audit.any fun ae => ae.kind = .command then .command
  else .empty

namespace AnalysisReport

variable (report : AnalysisReport)

def byKey : List (String × CriterionTrace) :=
  Members.firsts (fun item => item.key.getD "")
    (report.traceability.filter fun item => item.key.getD "" ≠ "")

def byText : List ((String × String) × CriterionTrace) :=
  Members.firsts (fun item => (item.taskId, item.criterion)) report.traceability

def matchedTrace (kc : KeyedCriterion) : Option CriterionTrace :=
  (Members.get? report.byKey kc.key).or (Members.get? report.byText (kc.taskId, kc.criterion))

end AnalysisReport

def Buckets.add (b : Buckets) : Bucket → Buckets
  | .test => { b with test := b.test + 1 }
  | .file => { b with file := b.file + 1 }
  | .command => { b with command := b.command + 1 }
  | .empty => { b with empty := b.empty + 1 }

def KeyedCriterion.label (kc : KeyedCriterion) : String := kc.taskId ++ ": " ++ kc.criterion

section Loop

variable (report : AnalysisReport) (inventory : TraceInventory)

def auditEv (kc : KeyedCriterion) : List AuditEvidence :=
  match report.matchedTrace kc with
  | none => []
  | some row => row.audited inventory kc

def bucket (kc : KeyedCriterion) : Bucket :=
  match report.matchedTrace kc with
  | none => .empty
  | some row => bucketOf (row.audited inventory kc)

/-- One turn of the loop over the criteria. -/
def enforceCriterion (e : TraceEnforcement) (kc : KeyedCriterion) : TraceEnforcement where
  buckets := e.buckets.add (bucket report inventory kc)
  commandOnly := if bucket report inventory kc = .command then e.commandOnly ++ [kc.label]
    else e.commandOnly
  untraced := if bucket report inventory kc ∈ [Bucket.command, .empty] then
      e.untraced ++ [kc.label]
    else e.untraced
  criteriaTrace := e.criteriaTrace ++
    [⟨kc.key, bucket report inventory kc, auditEv report inventory kc⟩]
  truncated := e.truncated || ((report.matchedTrace kc).map (·.anyRefCut)).getD false

def enforceTraces (criteria : List KeyedCriterion) : TraceEnforcement :=
  let e := criteria.foldl (enforceCriterion report inventory) {}
  { e with
    criteriaTrace := e.criteriaTrace.take 300
    truncated := 300 < e.criteriaTrace.length || e.truncated }

end Loop

/-! ## 5.  What a trace is evidence of -/

/-- The path without the dots and slashes at its start. -/
def undotted (p : String) : List Char :=
  (normalizePath p).toList.dropWhile fun c => c = '.' || c = '/'

/-- `normalize_path` keeps two paths apart, but only by the dots and slashes they start with. -/
def DotApart (p q : String) : Prop := normalizePath p ≠ normalizePath q ∧ undotted p = undotted q

def NamesTest (tests : List String) (cited test : String) : Prop :=
  test ∈ tests ∧ normalizeTestName cited ≠ "" ∧
    (normalizeTestName test = normalizeTestName cited ∨
      endsIn ("::" ++ normalizeTestName cited) (normalizeTestName test) = true ∧
        ∀ other ∈ tests, endsIn ("::" ++ normalizeTestName cited) (normalizeTestName other) = true →
          normalizeTestName other = normalizeTestName test)

section Meaning

variable (inventory : TraceInventory) (kc : KeyedCriterion)

/-- The four forms of evidence that a row can have for a criterion. -/
inductive Evidenced (row : CriterionTrace) : Prop where
  /-- A test of the inventory is cited. -/
  | test (cited test : String) (hrow : cited ∈ row.tests)
      (hnames : NamesTest inventory.tests cited test)
  /-- A path is cited as present, and it is a path of the tree. -/
  | present (ev : Evidence) (ref : String) (hrow : ev ∈ row.evidence) (hkind : ev.kind = .file)
      (hexpect : ev.expect ≠ some .absent) (href : ev.ref = some ref)
      (htree : (∀ p ∈ inventory.tree, ¬DotApart p ref) →
        ∃ p ∈ inventory.tree, normalizePath p = normalizePath ref)
  /-- A path that the criterion names is cited as absent, and it was not changed. -/
  | absent (ev : Evidence) (ref : String) (hrow : ev ∈ row.evidence) (hkind : ev.kind = .file)
      (hexpect : ev.expect = some .absent) (href : ev.ref = some ref)
      (hunchanged : ∀ p ∈ inventory.changedFiles, normalizePath p ≠ normalizePath ref)
      (hnamed : (normalizePath ref).toList.head? ≠ some '.' →
        contained (normalizePath ref) kc.criterion = true)
  /-- The task of the criterion changed no file. -/
  | taskUnchanged (ev : Evidence) (hrow : ev ∈ row.evidence) (hkind : ev.kind = .taskUnchanged)
      (hzero : inventory.taskChanged[kc.taskId]? = some (some 0))

end Meaning

/-- The key of the row is that of the criterion, or it is no criterion's and the row has the task
and the text of the criterion. -/
def AddressedTo (criteria : List KeyedCriterion) (row : CriterionTrace) (kc : KeyedCriterion) :
    Prop :=
  row.key = some kc.key ∨
    (row.taskId = kc.taskId ∧ row.criterion = kc.criterion ∧
      ∀ other ∈ criteria, row.key ≠ some other.key)

def Misaddressed (criteria : List KeyedCriterion) (row : CriterionTrace) (kc : KeyedCriterion) :
    Prop :=
  row.taskId = kc.taskId ∧ row.criterion = kc.criterion ∧
    ∃ other ∈ criteria, row.key = some other.key ∧ other.key ≠ kc.key

def Bucket.traced (b : Bucket) : Bool := b = .test || b = .file

section Honest

variable (tasks : List DevTask) (report : AnalysisReport) (inventory : TraceInventory)

/-- The criteria of a plan, with their keys. -/
def keyed : List KeyedCriterion := criterionKeys (authoritative tasks)

/-- What an enforcement says about the criteria of a plan. -/
structure Honest (e : TraceEnforcement) : Prop where
  keys_nodup : ((keyed tasks).map (·.key)).Nodup
  sum_buckets : e.buckets.test + e.buckets.file + e.buckets.command + e.buckets.empty =
    (tasks.map (·.acceptanceCriteria.length)).sum
  test_eq : e.buckets.test = (keyed tasks).countP (bucket report inventory · = .test)
  file_eq : e.buckets.file = (keyed tasks).countP (bucket report inventory · = .file)
  command_eq : e.buckets.command = (keyed tasks).countP (bucket report inventory · = .command)
  empty_eq : e.buckets.empty = (keyed tasks).countP (bucket report inventory · = .empty)
  untraced_eq : e.untraced =
    ((keyed tasks).filter fun kc => !(bucket report inventory kc).traced).map (·.label)
  trace_eq : e.criteriaTrace.map (fun a => (a.key, a.bucket)) =
    ((keyed tasks).map fun kc => (kc.key, bucket report inventory kc)).take 300
  traced : ∀ kc ∈ keyed tasks, (bucket report inventory kc).traced = true →
    ∃ row ∈ report.traceability, Evidenced inventory kc row ∧
      ((∀ other ∈ report.traceability, ¬Misaddressed (keyed tasks) other kc) →
        AddressedTo (keyed tasks) row kc)
  apart : ∀ p ∈ inventory.tree, ∀ q ∈ inventory.tree, ¬DotApart p q →
    normalizePath p ≠ normalizePath q → normPath p ≠ normPath q

end Honest

/-! ## 6.  Keys -/

theorem criterionKeysFrom_map (counts : Dict ℕ) (criteria : List (String × String)) :
    (criterionKeysFrom counts criteria).map (fun kc => (kc.taskId, kc.criterion)) = criteria := by
  induction criteria generalizing counts with
  | nil => rfl
  | cons c cs ih => rw [criterionKeysFrom, List.map_cons, ih]

theorem key_of_mem_criterionKeysFrom {counts : Dict ℕ} {criteria : List (String × String)}
    {kc : KeyedCriterion} (h : kc ∈ criterionKeysFrom counts criteria) :
    ∃ n, counts.getD kc.taskId 0 < n ∧ kc.key = gateKey kc.taskId n := by
  induction criteria generalizing counts with
  | nil => cases h
  | cons c cs ih =>
    rw [criterionKeysFrom] at h
    rcases List.mem_cons.mp h with rfl | htail
    · exact ⟨_, Nat.lt_succ_self _, rfl⟩
    · obtain ⟨n, hlt, hkey⟩ := ih htail
      refine ⟨n, ?_, hkey⟩
      rw [Dict.getD_insert] at hlt
      split_ifs at hlt with htask
      · rw [← htask]
        omega
      · exact hlt

theorem nodup_keysFrom (counts : Dict ℕ) (criteria : List (String × String)) :
    ((criterionKeysFrom counts criteria).map (·.key)).Nodup := by
  induction criteria generalizing counts with
  | nil => exact List.nodup_nil
  | cons c cs ih =>
    rw [criterionKeysFrom, List.map_cons, List.nodup_cons]
    refine ⟨fun hmem => ?_, ih _⟩
    obtain ⟨kc, hkc, hkey⟩ := List.mem_map.mp hmem
    obtain ⟨n, hlt, hn⟩ := key_of_mem_criterionKeysFrom hkc
    obtain ⟨htask, hplace⟩ := gateKey_injective (hn.symm.trans hkey)
    rw [htask, Dict.getD_insert, if_pos rfl] at hlt
    omega

/-- **No two criteria of a plan have one key.** -/
theorem nodup_keys (tasks : List DevTask) : ((keyed tasks).map (·.key)).Nodup :=
  nodup_keysFrom ∅ _

theorem length_keyed (tasks : List DevTask) :
    (keyed tasks).length = (tasks.map (·.acceptanceCriteria.length)).sum := by
  have hmap := congrArg List.length (criterionKeysFrom_map ∅ (authoritative tasks))
  rw [List.length_map] at hmap
  rw [keyed, criterionKeys, hmap, authoritative, List.length_flatMap]
  simp only [List.length_map]

/-! ## 7.  Paths -/

theorem strip_map_slash (p : String) :
    strip (String.ofList (p.toList.map fun c => if c = Char.ofNat 92 then '/' else c)) =
      String.ofList ((strip p).toList.map fun c => if c = Char.ofNat 92 then '/' else c) := by
  have hspace : (isSpace ∘ fun c => if c = Char.ofNat 92 then '/' else c) = isSpace := by
    funext c
    by_cases hc : c = Char.ofNat 92
    · subst hc
      rfl
    · rw [Function.comp_apply, if_neg hc]
  simp only [strip, String.toList_ofList, List.dropWhile_map, hspace,
    ← List.map_reverse]

theorem dropWhile_dropDotSlash (cs : List Char) :
    (dropDotSlash cs).dropWhile (fun c => c = '.' || c = '/') =
      cs.dropWhile fun c => c = '.' || c = '/' := by
  fun_induction dropDotSlash cs with
  | case1 cs ih => rw [ih]; rfl
  | case2 cs h => rfl

theorem dropWhile_slash (cs : List Char) :
    (cs.dropWhile (· = '/')).dropWhile (fun c => c = '.' || c = '/') =
      cs.dropWhile fun c => c = '.' || c = '/' := by
  induction cs with
  | nil => rfl
  | cons c cs ih =>
    by_cases hc : c = '/'
    · rw [List.dropWhile_cons_of_pos (by simpa using hc), ih,
        List.dropWhile_cons_of_pos (by simp [hc])]
    · rw [List.dropWhile_cons_of_neg (by simpa using hc)]

/-- **`_norm_path` is `normalize_path` without the dots and slashes at the start.** -/
theorem normPath_eq (p : String) : normPath p = String.ofList (undotted p) := by
  rw [normPath, undotted, strip_map_slash, String.toList_ofList, normalizePath,
    String.toList_ofList, dropWhile_slash, dropWhile_dropDotSlash]

theorem normPath_inj {p q : String} : normPath p = normPath q ↔ undotted p = undotted q := by
  rw [normPath_eq, normPath_eq, String.ofList_inj]

theorem undotted_congr {p q : String} (h : normalizePath p = normalizePath q) :
    undotted p = undotted q := by
  rw [undotted, undotted, h]

theorem head?_dropWhile_ne {p : Char → Bool} {cs : List Char} {c : Char}
    (h : (cs.dropWhile p).head? = some c) : p c = false := by
  have hnot := List.head?_dropWhile_not p cs
  rw [h] at hnot
  simpa using hnot

theorem normPath_eq_normalizePath {p : String} (h : (normalizePath p).toList.head? ≠ some '.') :
    normPath p = normalizePath p := by
  have hslash : ∀ c, (normalizePath p).toList.head? = some c → c ≠ '/' := by
    intro c hc
    rw [normalizePath, String.toList_ofList] at hc
    simpa using head?_dropWhile_ne hc
  rw [normPath_eq, undotted]
  cases hp : (normalizePath p).toList with
  | nil => rw [List.dropWhile_nil, ← hp, String.ofList_toList]
  | cons c cs =>
    rw [hp] at h hslash
    have hc : c ≠ '.' := fun hdot => h (by rw [hdot]; rfl)
    rw [List.dropWhile_cons_of_neg (by simpa using ⟨hc, hslash c rfl⟩), ← hp,
      String.ofList_toList]

/-! ## 8.  The loop -/

theorem Buckets.add_eq (b : Buckets) (k : Bucket) : b.add k =
    { test := b.test + if k = .test then 1 else 0
      file := b.file + if k = .file then 1 else 0
      command := b.command + if k = .command then 1 else 0
      empty := b.empty + if k = .empty then 1 else 0 } := by
  cases k <;> rfl

section Loop

variable (report : AnalysisReport) (inventory : TraceInventory)

theorem buckets_foldl (criteria : List KeyedCriterion) (e : TraceEnforcement) :
    (criteria.foldl (enforceCriterion report inventory) e).buckets =
      { test := e.buckets.test + criteria.countP (bucket report inventory · = .test)
        file := e.buckets.file + criteria.countP (bucket report inventory · = .file)
        command := e.buckets.command + criteria.countP (bucket report inventory · = .command)
        empty := e.buckets.empty + criteria.countP (bucket report inventory · = .empty) } := by
  induction criteria generalizing e with
  | nil => rfl
  | cons kc rest ih =>
    rw [List.foldl_cons, ih]
    simp only [enforceCriterion, Buckets.add_eq, List.countP_cons, decide_eq_true_eq, Nat.add_assoc,
      Nat.add_comm (List.countP _ rest)]

theorem untraced_foldl (criteria : List KeyedCriterion) (e : TraceEnforcement) :
    (criteria.foldl (enforceCriterion report inventory) e).untraced = e.untraced ++
      (criteria.filter fun kc => !(bucket report inventory kc).traced).map (·.label) := by
  induction criteria generalizing e with
  | nil => rw [List.filter_nil, List.map_nil, List.append_nil]; rfl
  | cons kc rest ih =>
    rw [List.foldl_cons, ih, List.filter_cons]
    cases hb : bucket report inventory kc <;> simp [enforceCriterion, hb, Bucket.traced]

theorem trace_foldl (criteria : List KeyedCriterion) (e : TraceEnforcement) :
    (criteria.foldl (enforceCriterion report inventory) e).criteriaTrace = e.criteriaTrace ++
      criteria.map fun kc => ⟨kc.key, bucket report inventory kc, auditEv report inventory kc⟩ := by
  induction criteria generalizing e with
  | nil => exact (List.append_nil _).symm
  | cons kc rest ih =>
    rw [List.foldl_cons, ih, List.map_cons, enforceCriterion, List.append_assoc]
    rfl

theorem sum_countP (criteria : List KeyedCriterion) :
    criteria.countP (bucket report inventory · = .test) +
      criteria.countP (bucket report inventory · = .file) +
      criteria.countP (bucket report inventory · = .command) +
      criteria.countP (bucket report inventory · = .empty) = criteria.length := by
  induction criteria with
  | nil => rfl
  | cons kc rest ih =>
    simp only [List.countP_cons, List.length_cons]
    cases bucket report inventory kc <;> simp <;> omega

end Loop

/-! ## 9.  The row of a criterion and its evidence -/

section Row

variable {report : AnalysisReport} {inventory : TraceInventory} {kc : KeyedCriterion}
  {row : CriterionTrace}

theorem matchedTrace_cases (h : report.matchedTrace kc = some row) :
    row ∈ report.traceability ∧
      (row.key = some kc.key ∨ row.taskId = kc.taskId ∧ row.criterion = kc.criterion) := by
  rw [AnalysisReport.matchedTrace, AnalysisReport.byKey, AnalysisReport.byText,
    Members.get?_firsts, Members.get?_firsts, Option.or_eq_some_iff] at h
  rcases h with hkey | ⟨-, htext⟩
  · have hmem := List.mem_filter.mp (List.mem_of_find?_eq_some hkey)
    have hnonempty : row.key.getD "" ≠ "" := by simpa using hmem.2
    have hsame : row.key.getD "" = kc.key := by simpa using List.find?_some hkey
    refine ⟨hmem.1, Or.inl ?_⟩
    cases hrow : row.key with
    | none => exact absurd (by rw [hrow]; rfl) hnonempty
    | some k => rw [← hsame, hrow]; rfl
  · have hsame : (row.taskId, row.criterion) = (kc.taskId, kc.criterion) := by
      simpa using List.find?_some htext
    exact ⟨List.mem_of_find?_eq_some htext, Or.inr (Prod.mk.inj hsame)⟩

theorem addressedTo_of_matchedTrace {criteria : List KeyedCriterion}
    (h : report.matchedTrace kc = some row)
    (hrows : ∀ other ∈ report.traceability, ¬Misaddressed criteria other kc) :
    AddressedTo criteria row kc := by
  obtain ⟨hrow, hkey | ⟨htask, htext⟩⟩ := matchedTrace_cases h
  · exact Or.inl hkey
  · by_cases hkey : row.key = some kc.key
    · exact Or.inl hkey
    · refine Or.inr ⟨htask, htext, fun other hother hsame => hrows row hrow ?_⟩
      exact ⟨htask, htext, other, hother, hsame, fun heq => hkey (heq ▸ hsame)⟩

theorem exists_namesTest {cited : String} {tests : List String} (h : isTestValid cited tests = true) :
    ∃ test, NamesTest tests cited test := by
  unfold isTestValid at h
  simp only at h
  split_ifs at h with hempty hmem
  · obtain ⟨test, htest, hsame⟩ := List.mem_map.mp hmem
    exact ⟨test, htest, hempty, Or.inl hsame⟩
  · obtain ⟨name, hone⟩ := List.length_eq_one_iff.mp (of_decide_eq_true h)
    have hname : ∀ t ∈ tests.map normalizeTestName,
        endsIn ("::" ++ normalizeTestName cited) t = true → t = name := by
      intro t ht hends
      exact List.mem_singleton.mp (hone ▸ List.mem_filter.mpr ⟨ht, hends⟩)
    have hin : name ∈ (tests.map normalizeTestName).filter
        (endsIn ("::" ++ normalizeTestName cited)) := by
      rw [hone]
      exact List.mem_singleton_self name
    obtain ⟨hnames, hends⟩ := List.mem_filter.mp hin
    obtain ⟨test, htest, rfl⟩ := List.mem_map.mp hnames
    exact ⟨test, htest, hempty, Or.inr ⟨hends, fun other hother hother' =>
      hname _ (List.mem_map_of_mem hother) hother'⟩⟩

theorem exists_ref_of_refNorm {ev : Evidence} (h : ev.refNorm ≠ "") :
    ∃ ref, ev.ref = some ref ∧ ev.refNorm = normPath ref := by
  unfold Evidence.refNorm at h ⊢
  cases href : ev.ref with
  | none => rw [href] at h; exact absurd rfl h
  | some ref =>
    rw [href] at h
    simp only at h ⊢
    split_ifs at h ⊢ with hempty
    · exact absurd rfl h
    · exact ⟨ref, rfl, rfl⟩

/-- **Valid evidence of a row is of one of the forms for files and tasks.** -/
theorem evidenced_of_valid {ev : Evidence} (hrow : ev ∈ row.evidence)
    (h : ev.valid inventory kc = true) : Evidenced inventory kc row := by
  unfold Evidence.valid at h
  cases hkind : ev.kind with
  | command => rw [hkind] at h; cases h
  | taskUnchanged =>
    rw [hkind] at h
    exact .taskUnchanged ev hrow hkind (of_decide_eq_true h)
  | file =>
    rw [hkind] at h
    cases hexpect : ev.expect.getD .present with
    | present =>
      simp only [hexpect, Bool.and_eq_true, decide_eq_true_eq] at h
      obtain ⟨ref, href, hnorm⟩ := exists_ref_of_refNorm h.1
      obtain ⟨p, hp, hsame⟩ := List.mem_map.mp (hnorm ▸ h.2)
      refine .present ev ref hrow hkind (fun habsent => ?_) href fun hapart => ⟨p, hp, ?_⟩
      · rw [habsent] at hexpect
        cases hexpect
      · by_contra hne
        exact hapart p hp ⟨hne, normPath_inj.mp hsame⟩
    | absent =>
      simp only [hexpect, Bool.and_eq_true, decide_eq_true_eq] at h
      obtain ⟨ref, href, hnorm⟩ := exists_ref_of_refNorm h.1.1
      refine .absent ev ref hrow hkind ?_ href (fun p hp hsame => h.1.2 ?_) fun hplain => ?_
      · cases hev : ev.expect with
        | none => rw [hev] at hexpect; cases hexpect
        | some e => rw [hev] at hexpect; exact congrArg some hexpect
      · rw [hnorm, ← normPath_inj.mpr (undotted_congr hsame)]
        exact List.mem_map_of_mem hp
      · rw [← normPath_eq_normalizePath hplain, ← hnorm]
        exact h.2

/-- **A criterion that counts as traced has evidence in its row.** -/
theorem evidenced_of_traced (h : (bucketOf (row.audited inventory kc)).traced = true) :
    Evidenced inventory kc row := by
  have hany : ∃ ae ∈ row.audited inventory kc, ae.kind ≠ .command ∧ ae.valid = true := by
    unfold bucketOf at h
    split_ifs at h with htest hfile
    · obtain ⟨ae, hae, hvalid⟩ := List.any_eq_true.mp htest
      simp only [Bool.and_eq_true, decide_eq_true_eq] at hvalid
      exact ⟨ae, hae, by rw [hvalid.1]; decide, hvalid.2⟩
    · obtain ⟨ae, hae, hvalid⟩ := List.any_eq_true.mp hfile
      simp only [Bool.and_eq_true, Bool.or_eq_true, decide_eq_true_eq] at hvalid
      exact ⟨ae, hae, by rcases hvalid.1 with hk | hk <;> rw [hk] <;> decide, hvalid.2⟩
    · cases h
    · cases h
  obtain ⟨ae, hae, -, hvalid⟩ := hany
  rcases List.mem_append.mp hae with htests | hevidence
  · obtain ⟨cited, hcited, rfl⟩ := List.mem_map.mp htests
    dsimp only at hvalid
    obtain ⟨test, hnames⟩ := exists_namesTest hvalid
    exact .test cited test hcited hnames
  · obtain ⟨ev, hev, rfl⟩ := List.mem_map.mp hevidence
    dsimp only at hvalid
    exact evidenced_of_valid hev hvalid

end Row

/-! ## 10.  Traces are honest -/

def CitesTree (inventory : TraceInventory) (row : CriterionTrace) : Prop :=
  (∃ cited ∈ row.tests, ∃ test, NamesTest inventory.tests cited test) ∨
    ∃ ev ∈ row.evidence, ∃ ref, ev.ref = some ref ∧
      ∃ p ∈ inventory.tree, normalizePath p = normalizePath ref

/-- A plan with one criterion. -/
def noLegacy : List DevTask := [⟨"T01", ["legacy.py is gone"]⟩]

/-- Its evidence, a path that is cited as absent. -/
def legacyAbsent : AnalysisReport where
  traceability := [{
    taskId := "T01", criterion := "legacy.py is gone", key := some "T01#1"
    evidence := [{ kind := .file, ref := some "legacy.py", expect := some .absent }] }]

end Kroker.Analyze
