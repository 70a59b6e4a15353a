import Kroker.Capability.Models
import Kroker.Library.Except
import Kroker.Library.Keyed
import Mathlib

/-!
# Attribution of failing tests

`scoped_tests` of `stages/merge/scoping.py`: the suite is run at the head of a change, and each
failing test is run again at its base, under the name that the renames of the change give it there.
A test that is not there, or that passes every attempt, is introduced; one that fails the first
attempt is preexisting; one that fails a later attempt is flaky.

The runs, the files of the base worktree and the adapter are read through `ScopedInput`.  The test
ids are passed to commands in chunks, whose answers are joined.

The tests that are run again are kept in a dictionary under their base ids.  Two failing tests with
one base id share its entry, and the earlier is forgotten.
-/

namespace Kroker.Scoping

/-! ## 1.  Ids and paths -/

/-- `p` without its leading `./`. -/
def dropDotSlash : List Char → List Char
  | '.' :: '/' :: cs => dropDotSlash cs
  | cs => cs

def normalizePath (path : String) : String :=
  String.ofList ((dropDotSlash ((strip path).toList.map fun c =>
    if c = Char.ofNat 92 then '/' else c)).dropWhile (· = '/'))

/-- A node id before and from its first `::`. -/
def cutNode : List Char → List Char × List Char
  | [] => ([], [])
  | ':' :: ':' :: cs => ([], ':' :: ':' :: cs)
  | c :: cs => (c :: (cutNode cs).1, (cutNode cs).2)

/-- `nid.partition("::")[0]`. -/
def fileOf (nid : String) : String := String.ofList (cutNode nid.toList).1

/-- The separator and the rest of `nid.partition("::")`. -/
def restOf (nid : String) : String := String.ofList (cutNode nid.toList).2

def shellSafe (nodeId : String) : Bool :=
  nodeId ≠ "" && nodeId.toList.all fun c =>
    (c.isAlphanum && c.toNat < 128) || c ∈ ['_', '.', '/', ':', '-', '[', ']']

/-- `rename_map`; of two renames of one path the later wins. -/
def renameMap (renames : List (String × String)) : Table (Prod.fst : String × String → String) :=
  Table.ofRows Prod.fst (renames.map fun r => (normalizePath r.1, normalizePath r.2))

/-- `to_base_path`; of two renames to one path the later in `rename_map` wins. -/
def toBasePath (renames : List (String × String)) : Table (Prod.fst : String × String → String) :=
  Table.ofRows Prod.fst ((renameMap renames).rows.map Prod.swap)

/-- The slices of `l` at the multiples of `n`. -/
def chunks {α : Type} (n : ℕ) (l : List α) : List (List α) :=
  (List.range ((l.length + n - 1) / n)).map fun i => (l.drop (i * n)).take n

/-! ## 2.  What the report says -/

structure Reason where
  text : String
  nonblank : strip text ≠ ""

def Reason.of (start rest : String) (h : strip start ≠ "" := by decide) : Reason where
  text := start ++ rest
  nonblank := strip_append_ne h

structure ScopedTestReport where
  state : Measurement
  introduced : List String := []
  preexisting : List String := []
  preexistingFlaky : List String := []
  headFailed : ℕ := 0
  fail_closed : state ≠ .measured → strip state.reason ≠ "" ∧ introduced = [] ∧ preexisting = [] ∧
    preexistingFlaky = [] ∧ headFailed = 0 := by simp

def testNc (reason : Reason) : ScopedTestReport where
  state := .notCollected reason.text
  fail_closed := fun _ => ⟨reason.nonblank, rfl, rfl, rfl, rfl⟩

/-! ## 3.  The runs -/

inductive TestExit where
  | ran
  | failedToRun
  | noTests
  deriving DecidableEq

/-- What the function is given and what its commands answer.  A report that is missing or cannot be
parsed is `none`. -/
structure ScopedInput where
  /-- Whether the path is a file of the base worktree, if this was materialised. -/
  baseFiles : Option (String → Bool)
  baseReason : String := ""
  renames : List (String × String) := []
  timeoutS : ℤ := 300
  classifyTestExit : ℤ → TestExit
  /-- The suite at the head, with and without coverage: its exit code, its output, its report. -/
  headRun : Bool → ℤ × String × Option (Dict Bool)
  provisionBase : Option String := none
  /-- The collection of a chunk of files: its exit code and the ids. -/
  collect : List String → ℤ × List String
  /-- The report of an attempt at a chunk of ids. -/
  baseRun : ℕ → List String → Option (Dict Bool)

def stoppedEarly (out : String) : Bool := decide ("stopping after".toList <:+: out.toList)

namespace ScopedInput

variable (inp : ScopedInput)

/-- The run of the suite that counts: a usage error is answered by a run without coverage. -/
def headShell : ℤ × String × Option (Dict Bool) :=
  if (inp.headRun true).1 = 4 then inp.headRun false else inp.headRun true

/-- `_head_run`. -/
def headOutcomes : Except Reason (Dict Bool) :=
  let (code, out, report) := inp.headShell
  if code = -1 then .error (.of "head test run timed out after " (toString inp.timeoutS ++ "s"))
  else if stoppedEarly out then
    .error (.of "head test run stopped early: tests after the stop never ran" "")
  else if inp.classifyTestExit code = .noTests then
    .error (.of "head test run collected no tests" "")
  else match report with
    | none =>
      .error (.of "head test run (exit " (toString code ++ ") wrote no parseable JUnit report"))
    | some outcomes =>
      if inp.classifyTestExit code = .failedToRun ∧ outcomes.toList.all (·.2) then
        .error (.of "head test run failed to run (exit " (toString code ++ ")"))
      else .ok outcomes

def baseOutcomes (attempt : ℕ) (ids : List String) : Except Reason (Dict Bool) :=
  (chunks 50 ids).foldlM (fun merged chunk => match inp.baseRun attempt chunk with
    | none => .error (.of "base re-run wrote no parseable JUnit report" "")
    | some got => .ok (merged.insertMany got.toList)) ∅

def collectIds (files : List String) : Except Reason (List String) :=
  (chunks 50 files).foldlM (fun collected chunk =>
    if (inp.collect chunk).1 ∈ [0, 1, 2, 5] then .ok (collected ++ (inp.collect chunk).2)
    else .error (.of "base collection failed (exit " (toString (inp.collect chunk).1 ++ ")"))) []

def toBase (nid : String) : String :=
  (((toBasePath inp.renames).find? (fileOf nid)).map Prod.snd).getD (fileOf nid) ++ restOf nid

def failed (outcomes : Dict Bool) : List String :=
  outcomes.keys.filter fun n => outcomes[n]? = some false

/-- The test can be run at the base: its base id is safe, and its file is there. -/
def placeable (baseFile : String → Bool) (nid : String) : Bool :=
  shellSafe (inp.toBase nid) && baseFile (fileOf (inp.toBase nid))

end ScopedInput

/-! ## 4.  The attempts -/

/-- A test to run at the base: its base id and its head id. -/
abbrev Row := String × String

structure Attribution where
  introduced : List String := []
  preexisting : List String := []
  flaky : List String := []

/-- The rows of which a report says `verdict`. -/
def rowsWith (got : Dict Bool) (verdict : Option Bool) (rows : List Row) : List Row :=
  rows.filter fun r => got[r.1]? = verdict

def heads (rows : List Row) : List String := rows.map (·.2)

/-- What an attempt decides: a test without an outcome is introduced, and one that failed is
preexisting at the first attempt and flaky later. -/
def Attribution.judge (acc : Attribution) (attempt : ℕ) (got : Dict Bool) (passing : List Row) :
    Attribution where
  introduced := acc.introduced ++ heads (rowsWith got none passing)
  preexisting := if attempt = 1 then acc.preexisting ++ heads (rowsWith got (some false) passing)
    else acc.preexisting
  flaky := if attempt = 1 then acc.flaky
    else acc.flaky ++ heads (rowsWith got (some false) passing)

namespace ScopedInput

variable (inp : ScopedInput)

def runAttempts : List ℕ → List Row → Attribution → Except Reason Attribution
  | [], passing, acc => .ok { acc with introduced := acc.introduced ++ heads passing }
  | attempt :: attempts, passing, acc =>
    if passing = [] then .ok acc
    else do
      let got ← inp.baseOutcomes attempt (passing.map (·.1))
      runAttempts attempts (rowsWith got (some true) passing) (acc.judge attempt got passing)

/-- `BASE_ATTEMPTS` attempts. -/
def attempts : List ℕ := [1, 2, 3, 4]

/-- The dictionary of the tests that can be run at the base. -/
def present (baseFile : String → Bool) (failing : List String) :
    Table (Prod.fst : Row → String) :=
  Table.ofRows Prod.fst ((failing.filter (inp.placeable baseFile)).map fun n => (inp.toBase n, n))

def needsCollect (rows : List Row) : List String :=
  sortedSet ((rows.filter fun r => restOf r.1 ≠ "").map fun r => fileOf r.1)

def uncollected (collected : List String) (r : Row) : Bool :=
  restOf r.1 ≠ "" && decide (r.1 ∉ collected)

/-- The rows that a collection leaves, in the order of their base ids. -/
def toRun (baseFile : String → Bool) (failing collected : List String) : List Row :=
  sortedBy Prod.fst ((inp.present baseFile failing).rows.filter fun r => !uncollected collected r)

def attribution (baseFile : String → Bool) (failing : List String) : Except Reason Attribution := do
  let collected ← inp.collectIds (needsCollect (inp.present baseFile failing).rows)
  inp.runAttempts attempts (inp.toRun baseFile failing collected)
    { introduced := failing.filter (fun n => !inp.placeable baseFile n) ++
        heads ((inp.present baseFile failing).rows.filter (uncollected collected)) }

def reportOf (failing : List String) (a : Attribution) : ScopedTestReport where
  state := .measured
  introduced := sortedBy id a.introduced
  preexisting := sortedBy id a.preexisting
  preexistingFlaky := sortedBy id a.flaky
  headFailed := failing.length
  fail_closed := fun h => absurd rfl h

def reportFailing (baseFile : String → Bool) (failing : List String) : ScopedTestReport :=
  if inp.provisionBase.getD "" ≠ "" then
    testNc (.of "base environment provisioning failed: " (inp.provisionBase.getD ""))
  else match inp.attribution baseFile failing with
    | .error reason => testNc reason
    | .ok a => reportOf failing a

def scopedTests : ScopedTestReport :=
  match inp.baseFiles with
  | none => testNc (.of "base not materialized: " (if inp.baseReason = "" then "no reason given"
      else inp.baseReason))
  | some baseFile =>
    match inp.headOutcomes with
    | .error reason => testNc reason
    | .ok outcomes =>
      if failed outcomes = [] then { state := .measured }
      else inp.reportFailing baseFile (failed outcomes)

/-! ## 5.  What a report should say -/

def failing : List String :=
  match inp.headOutcomes with
  | .ok outcomes => failed outcomes
  | .error _ => []

/-- The tests that pass the first `k` attempts. -/
def passing (rows : List Row) : ℕ → List Row
  | 0 => rows
  | k + 1 => match inp.baseOutcomes (k + 1) ((passing rows k).map (·.1)) with
    | .ok got => rowsWith got (some true) (passing rows k)
    | .error _ => []

def baseRows : List Row :=
  let baseFile := inp.baseFiles.getD fun _ => false
  match inp.collectIds (needsCollect (inp.present baseFile inp.failing).rows) with
  | .ok collected => inp.toRun baseFile inp.failing collected
  | .error _ => []

def outcomeAt (rows : List Row) (attempt : ℕ) (baseId : String) : Option Bool :=
  match inp.baseOutcomes attempt ((inp.passing rows (attempt - 1)).map (·.1)) with
  | .ok got => got[baseId]?
  | .error _ => none

/-- A report accounts for every failing test once, and each verdict has its evidence at the base. -/
structure Attributed (report : ScopedTestReport) : Prop where
  introduced_nodup : report.introduced.Nodup
  preexisting_nodup : report.preexisting.Nodup
  flaky_nodup : report.preexistingFlaky.Nodup
  introduced_preexisting : report.introduced.Disjoint report.preexisting
  introduced_flaky : report.introduced.Disjoint report.preexistingFlaky
  preexisting_flaky : report.preexisting.Disjoint report.preexistingFlaky
  all_failing : ∀ n, n ∈ inp.failing ↔
    n ∈ report.introduced ∨ n ∈ report.preexisting ∨ n ∈ report.preexistingFlaky
  head_failed : report.introduced.length + report.preexisting.length +
    report.preexistingFlaky.length = report.headFailed
  fails_first : ∀ n ∈ report.preexisting, inp.outcomeAt inp.baseRows 1 (inp.toBase n) = some false
  fails_later : ∀ n ∈ report.preexistingFlaky,
    inp.outcomeAt inp.baseRows 1 (inp.toBase n) = some true ∧
      ∃ k, 1 < k ∧ k ≤ 4 ∧ inp.outcomeAt inp.baseRows k (inp.toBase n) = some false

/-- No two failing tests that can be run at the base share a base id. -/
def Apart : Prop :=
  let baseFile := inp.baseFiles.getD fun _ => false
  ∀ m ∈ inp.failing, ∀ n ∈ inp.failing, inp.placeable baseFile m = true →
    inp.placeable baseFile n = true → inp.toBase m = inp.toBase n → m = n

end ScopedInput

/-! ## 6.  An attempt moves tests -/

def Attribution.all (a : Attribution) : List String := a.introduced ++ a.preexisting ++ a.flaky

theorem count_heads (got : Dict Bool) (rows : List Row) (n : String) :
    (heads (rowsWith got none rows)).count n + (heads (rowsWith got (some false) rows)).count n +
      (heads (rowsWith got (some true) rows)).count n = (heads rows).count n := by
  induction rows with
  | nil => rfl
  | cons r rows ih =>
    have hcons : ∀ verdict, (heads (rowsWith got verdict (r :: rows))).count n =
        (heads (rowsWith got verdict rows)).count n +
          if got[r.1]? = verdict ∧ r.2 = n then 1 else 0 := by
      intro verdict
      by_cases hv : got[r.1]? = verdict
      · simp [heads, rowsWith, hv, List.count_cons]
      · simp [heads, rowsWith, hv]
    have hall : (heads (r :: rows)).count n = (heads rows).count n + if r.2 = n then 1 else 0 := by
      simp [heads, List.count_cons]
    rw [hcons, hcons, hcons, hall, ← ih]
    by_cases hn : r.2 = n
    · rcases got[r.1]? with _ | _ | _ <;> simp [hn] <;> omega
    · simp [hn]

/-- **An attempt moves the tests it decides, and keeps the others.** -/
theorem judge_perm (acc : Attribution) (attempt : ℕ) (got : Dict Bool) (passing : List Row) :
    ((acc.judge attempt got passing).all ++ heads (rowsWith got (some true) passing)).Perm
      (acc.all ++ heads passing) := by
  refine List.perm_iff_count.mpr fun n => ?_
  have hsplit := count_heads got passing n
  by_cases hfirst : attempt = 1
  · simp only [Attribution.all, Attribution.judge, if_pos hfirst, List.count_append]
    omega
  · simp only [Attribution.all, Attribution.judge, if_neg hfirst, List.count_append]
    omega

namespace ScopedInput

variable (inp : ScopedInput)

variable {a : Attribution}

/-- **The attempts lose no test and add none.** -/
theorem runAttempts_perm {attempts : List ℕ} {passing : List Row} {acc : Attribution}
    (h : inp.runAttempts attempts passing acc = .ok a) : a.all.Perm (acc.all ++ heads passing) := by
  induction attempts generalizing passing acc with
  | nil =>
    obtain rfl := Except.ok.inj h
    refine List.perm_iff_count.mpr fun n => ?_
    simp only [Attribution.all, List.count_append]
    omega
  | cons attempt attempts ih =>
    rw [runAttempts] at h
    split at h
    case isTrue hnone =>
      obtain rfl := Except.ok.inj h
      rw [hnone, heads, List.map_nil, List.append_nil]
    case isFalse =>
      obtain ⟨got, -, hrest⟩ := bind_eq_ok.mp h
      exact (ih hrest).trans (judge_perm acc attempt got passing)

/-! ## 7.  The evidence of a verdict -/

variable {rows : List Row}

theorem passing_succ {k : ℕ} {got : Dict Bool}
    (h : inp.baseOutcomes (k + 1) ((inp.passing rows k).map (·.1)) = .ok got) :
    inp.passing rows (k + 1) = rowsWith got (some true) (inp.passing rows k) := by
  rw [passing, h]

theorem outcomeAt_succ {k : ℕ} {got : Dict Bool}
    (h : inp.baseOutcomes (k + 1) ((inp.passing rows k).map (·.1)) = .ok got) (b : String) :
    inp.outcomeAt rows (k + 1) b = got[b]? := by
  rw [outcomeAt, Nat.add_sub_cancel, h]

theorem outcomeAt_of_mem_passing {k : ℕ} {r : Row} (h : r ∈ inp.passing rows (k + 1)) :
    r ∈ inp.passing rows k ∧ inp.outcomeAt rows (k + 1) r.1 = some true := by
  cases hrun : inp.baseOutcomes (k + 1) ((inp.passing rows k).map (·.1)) with
  | error reason =>
    rw [passing, hrun] at h
    exact nomatch h
  | ok got =>
    rw [inp.passing_succ hrun, rowsWith, List.mem_filter, decide_eq_true_eq] at h
    rw [inp.outcomeAt_succ hrun]
    exact h

theorem mem_rows_of_mem_passing {k : ℕ} {r : Row} (h : r ∈ inp.passing rows k) : r ∈ rows := by
  induction k with
  | zero => exact h
  | succ k ih => exact ih (inp.outcomeAt_of_mem_passing h).1

theorem outcomeAt_one {k : ℕ} {r : Row} (h : r ∈ inp.passing rows (k + 1)) :
    inp.outcomeAt rows 1 r.1 = some true := by
  induction k with
  | zero => exact (inp.outcomeAt_of_mem_passing h).2
  | succ k ih => exact ih (inp.outcomeAt_of_mem_passing h).1

def FailsAt (rows : List Row) (attempt : ℕ) (n : String) : Prop :=
  ∃ r ∈ inp.passing rows (attempt - 1), r.2 = n ∧ inp.outcomeAt rows attempt r.1 = some false

theorem failsAt_of_mem {k : ℕ} {got : Dict Bool} {n : String}
    (hgot : inp.baseOutcomes (k + 1) ((inp.passing rows k).map (·.1)) = .ok got)
    (h : n ∈ heads (rowsWith got (some false) (inp.passing rows k))) :
    inp.FailsAt rows (k + 1) n := by
  obtain ⟨r, hr, rfl⟩ := List.mem_map.mp h
  rw [rowsWith, List.mem_filter, decide_eq_true_eq] at hr
  exact ⟨r, hr.1, rfl, (inp.outcomeAt_succ hgot r.1).trans hr.2⟩

/-- **The loop calls preexisting what fails the first attempt, and flaky what fails a later
one.** -/
theorem runAttempts_evidence {j len : ℕ} {acc : Attribution}
    (h : inp.runAttempts (List.range' (j + 1) len) (inp.passing rows j) acc = .ok a) :
    (∀ n ∈ a.preexisting, n ∈ acc.preexisting ∨ inp.FailsAt rows 1 n) ∧
      ∀ n ∈ a.flaky, n ∈ acc.flaky ∨ ∃ k, 1 < k ∧ k ≤ j + len ∧ inp.FailsAt rows k n := by
  induction len generalizing j acc with
  | zero =>
    obtain rfl := Except.ok.inj h
    exact ⟨fun n hn => .inl hn, fun n hn => .inl hn⟩
  | succ len ih =>
    rw [List.range'_succ, runAttempts] at h
    split at h
    · obtain rfl := Except.ok.inj h
      exact ⟨fun n hn => .inl hn, fun n hn => .inl hn⟩
    · obtain ⟨got, hgot, hrest⟩ := bind_eq_ok.mp h
      rw [← inp.passing_succ hgot] at hrest
      obtain ⟨hpre, hflaky⟩ := ih hrest
      refine ⟨fun n hn => ?_, fun n hn => ?_⟩
      · rcases hpre n hn with hn | hn
        · rw [Attribution.judge] at hn
          split at hn
          case isTrue hfirst =>
            obtain rfl : j = 0 := by omega
            rcases List.mem_append.mp hn with hn | hn
            · exact .inl hn
            · exact .inr (inp.failsAt_of_mem hgot hn)
          case isFalse => exact .inl hn
        · exact .inr hn
      · rcases hflaky n hn with hn | ⟨k, hone, hk, hfails⟩
        · rw [Attribution.judge] at hn
          split at hn
          case isTrue => exact .inl hn
          case isFalse hlater =>
            rcases List.mem_append.mp hn with hn | hn
            · exact .inl hn
            · exact .inr ⟨j + 1, by omega, by omega, inp.failsAt_of_mem hgot hn⟩
        · exact .inr ⟨k, hone, by omega, hfails⟩

/-! ## 8.  The tests that reach the dictionary -/

variable {baseFile : String → Bool} {tests : List String}

theorem mem_present {r : Row} (h : r ∈ (inp.present baseFile tests).rows) :
    r.2 ∈ tests ∧ inp.placeable baseFile r.2 = true ∧ r.1 = inp.toBase r.2 := by
  obtain ⟨n, hn, rfl⟩ := List.mem_map.mp (Table.mem_of_mem_rows_ofRows h)
  obtain ⟨hmem, hplace⟩ := List.mem_filter.mp hn
  exact ⟨hmem, hplace, rfl⟩

theorem heads_present (hnodup : tests.Nodup)
    (hapart : ∀ m ∈ tests, ∀ n ∈ tests, inp.placeable baseFile m = true →
      inp.placeable baseFile n = true → inp.toBase m = inp.toBase n → m = n) :
    heads (inp.present baseFile tests).rows = tests.filter (inp.placeable baseFile) := by
  have hkeys : (((tests.filter (inp.placeable baseFile)).map fun n => (inp.toBase n, n)).map
      Prod.fst).Nodup := by
    rw [List.map_map]
    refine List.Nodup.map_on (fun m hm n hn hsame => ?_) (hnodup.filter _)
    rw [List.mem_filter] at hm hn
    exact hapart m hm.1 n hn.1 hm.2 hn.2 hsame
  rw [present, Table.rows_ofRows hkeys, heads, List.map_map]
  exact List.map_id _

theorem mem_toRun {collected : List String} {r : Row}
    (h : r ∈ inp.toRun baseFile tests collected) : r ∈ (inp.present baseFile tests).rows := by
  rw [toRun, mem_sortedBy] at h
  exact List.mem_of_mem_filter h

/-- **An attribution is of the tests that cannot be run at the base and of the entries of the
dictionary.** -/
theorem attribution_perm (h : inp.attribution baseFile tests = .ok a) :
    a.all.Perm (tests.filter (fun n => !inp.placeable baseFile n) ++
      heads (inp.present baseFile tests).rows) := by
  obtain ⟨collected, -, hrun⟩ := bind_eq_ok.mp h
  have hsplit : (heads ((inp.present baseFile tests).rows.filter (uncollected collected)) ++
      heads (inp.toRun baseFile tests collected)).Perm
      (heads (inp.present baseFile tests).rows) := by
    have hsorted := ((sortedBy_perm Prod.fst ((inp.present baseFile tests).rows.filter
      fun r => !uncollected collected r)).map Prod.snd)
    refine (hsorted.append_left _).trans ?_
    rw [heads, ← List.map_append]
    exact (List.filter_append_perm _ _).map Prod.snd
  refine (inp.runAttempts_perm hrun).trans ?_
  rw [Attribution.all, List.append_nil, List.append_nil, List.append_assoc]
  exact hsplit.append_left _

/-- **A verdict of an attribution has its evidence in the runs.** -/
theorem attribution_evidence (h : inp.attribution baseFile tests = .ok a) :
    ∃ rows, (∃ collected, inp.collectIds (needsCollect (inp.present baseFile tests).rows) =
        .ok collected ∧ rows = inp.toRun baseFile tests collected) ∧
      (∀ n ∈ a.preexisting, inp.outcomeAt rows 1 (inp.toBase n) = some false) ∧
      ∀ n ∈ a.flaky, inp.outcomeAt rows 1 (inp.toBase n) = some true ∧
        ∃ k, 1 < k ∧ k ≤ 4 ∧ inp.outcomeAt rows k (inp.toBase n) = some false := by
  obtain ⟨collected, hcollected, hrun⟩ := bind_eq_ok.mp h
  have hbase : ∀ r ∈ inp.toRun baseFile tests collected, r.1 = inp.toBase r.2 := fun r hr =>
    (inp.mem_present (inp.mem_toRun hr)).2.2
  have hfrom : inp.runAttempts (List.range' (0 + 1) 4)
      (inp.passing (inp.toRun baseFile tests collected) 0) _ = .ok a := hrun
  obtain ⟨hpre, hflaky⟩ := inp.runAttempts_evidence hfrom
  refine ⟨_, ⟨collected, hcollected, rfl⟩, fun n hn => ?_, fun n hn => ?_⟩
  · rcases hpre n hn with hn | ⟨r, hr, rfl, hfails⟩
    · exact nomatch hn
    · rwa [← hbase r (inp.mem_rows_of_mem_passing hr)]
  · rcases hflaky n hn with hn | ⟨k, hone, hk, r, hr, rfl, hfails⟩
    · exact nomatch hn
    · obtain ⟨i, rfl⟩ : ∃ i, k = i + 2 := ⟨k - 2, by omega⟩
      rw [← hbase r (inp.mem_rows_of_mem_passing hr)]
      exact ⟨inp.outcomeAt_one hr, i + 2, hone, by omega, hfails⟩

/-! ## 9.  A measured report -/

theorem measured_cases (h : inp.scopedTests.state = .measured) :
    (inp.failing = [] ∧ inp.scopedTests = { state := .measured }) ∨
      ∃ a, inp.attribution (inp.baseFiles.getD fun _ => false) inp.failing = .ok a ∧
        inp.scopedTests = reportOf inp.failing a := by
  unfold scopedTests at h ⊢
  split at h
  case h_1 => exact nomatch h
  case h_2 baseFile hbase =>
    split at h
    case h_1 => exact nomatch h
    case h_2 outcomes houtcomes =>
      have hfailing : inp.failing = failed outcomes := by rw [failing, houtcomes]
      rw [hfailing, hbase, Option.getD_some]
      split at h
      case isTrue hnone => exact .inl ⟨hnone, if_pos hnone⟩
      case isFalse hsome =>
        refine .inr ?_
        simp only [if_neg hsome]
        unfold reportFailing at h ⊢
        split at h
        case isTrue => exact nomatch h
        case isFalse hprovision =>
          split at h
          case h_1 => exact nomatch h
          case h_2 a ha =>
            exact ⟨a, ha, if_neg hprovision⟩

theorem nodup_failing : inp.failing.Nodup := by
  unfold failing
  split
  · exact (nodup_of_strict (lists_keys _).1).filter _
  · exact List.nodup_nil

theorem baseRows_eq {collected : List String}
    (h : inp.collectIds (needsCollect (inp.present (inp.baseFiles.getD fun _ => false)
      inp.failing).rows) = .ok collected) :
    inp.baseRows = inp.toRun (inp.baseFiles.getD fun _ => false) inp.failing collected := by
  simp only [baseRows, h]

/-- The report of an attribution that has each failing test once accounts for them. -/
theorem attributed_reportOf (hperm : a.all.Perm inp.failing)
    (hpre : ∀ n ∈ a.preexisting, inp.outcomeAt inp.baseRows 1 (inp.toBase n) = some false)
    (hflaky : ∀ n ∈ a.flaky, inp.outcomeAt inp.baseRows 1 (inp.toBase n) = some true ∧
      ∃ k, 1 < k ∧ k ≤ 4 ∧ inp.outcomeAt inp.baseRows k (inp.toBase n) = some false) :
    inp.Attributed (reportOf inp.failing a) := by
  have hnodup := hperm.nodup_iff.mpr inp.nodup_failing
  have hlength := hperm.length_eq
  rw [Attribution.all, List.length_append, List.length_append] at hlength
  rw [Attribution.all, List.nodup_append'] at hnodup
  obtain ⟨hleft, hflakyNodup, hdisjoint⟩ := hnodup
  obtain ⟨hintroduced, hpreexisting, hpair⟩ := List.nodup_append'.mp hleft
  rw [List.disjoint_append_left] at hdisjoint
  have hsame : ∀ {l : List String} {n : String}, n ∈ sortedBy id l ↔ n ∈ l := mem_sortedBy
  have hapart : ∀ {l m : List String}, l.Disjoint m → (sortedBy id l).Disjoint (sortedBy id m) :=
    fun h n hl hm => h (hsame.mp hl) (hsame.mp hm)
  refine
    { introduced_nodup := (sortedBy_perm id _).nodup_iff.mpr hintroduced
      preexisting_nodup := (sortedBy_perm id _).nodup_iff.mpr hpreexisting
      flaky_nodup := (sortedBy_perm id _).nodup_iff.mpr hflakyNodup
      introduced_preexisting := hapart hpair
      introduced_flaky := hapart hdisjoint.1
      preexisting_flaky := hapart hdisjoint.2
      all_failing := fun n => ?_
      head_failed := ?_
      fails_first := fun n hn => hpre n (hsame.mp hn)
      fails_later := fun n hn => hflaky n (hsame.mp hn) }
  · rw [← hperm.mem_iff, Attribution.all, List.mem_append, List.mem_append, or_assoc]
    exact or_congr hsame.symm (or_congr hsame.symm hsame.symm)
  · simp only [reportOf, (sortedBy_perm id _).length_eq]
    exact hlength

/-- **A measured report accounts for every failing test once, with the evidence of its verdicts,
exactly where no two failing tests that can be run at the base share a base id.** -/
theorem attributed_iff (h : inp.scopedTests.state = .measured) :
    inp.Attributed inp.scopedTests ↔ inp.Apart := by
  rcases inp.measured_cases h with ⟨hnone, hreport⟩ | ⟨a, ha, hreport⟩
  · rw [hreport, Apart, hnone]
    refine iff_of_true ?_ fun m hm => nomatch hm
    constructor <;> simp [hnone]
  · rw [hreport]
    have hperm := inp.attribution_perm ha
    obtain ⟨rows, ⟨collected, hcollected, hrows⟩, hpre, hflaky⟩ := inp.attribution_evidence ha
    rw [← inp.baseRows_eq hcollected] at hrows
    subst hrows
    constructor
    · intro hattributed
      -- a test that can be run at the base is in a list, so it has kept its entry
      have hentry : ∀ n ∈ inp.failing,
          inp.placeable (inp.baseFiles.getD fun _ => false) n = true →
          (inp.toBase n, n) ∈
            (inp.present (inp.baseFiles.getD fun _ => false) inp.failing).rows := by
        intro n hn hplace
        have hall : n ∈ a.all := by
          have hlisted := (hattributed.all_failing n).mp hn
          rw [Attribution.all, List.mem_append, List.mem_append, or_assoc]
          exact hlisted.imp mem_sortedBy.mp (.imp mem_sortedBy.mp mem_sortedBy.mp)
        rcases List.mem_append.mp (hperm.mem_iff.mp hall) with hfalse | hhead
        · rw [List.mem_filter, hplace] at hfalse
          exact absurd hfalse.2 Bool.false_ne_true
        · obtain ⟨r, hr, rfl⟩ := List.mem_map.mp hhead
          rw [← (inp.mem_present hr).2.2]
          exact hr
      intro m hm n hn hplacem hplacen hsame
      have hrow := List.inj_on_of_nodup_map (Table.keys_nodup _) (hentry m hm hplacem)
        (hentry n hn hplacen) hsame
      exact congrArg Prod.snd hrow
    · intro hapart
      rw [inp.heads_present inp.nodup_failing hapart] at hperm
      refine inp.attributed_reportOf (hperm.trans ?_) hpre hflaky
      refine List.perm_append_comm.trans ?_
      exact List.filter_append_perm _ _

end ScopedInput

instance (inp : ScopedInput) : Decidable inp.Apart :=
  inferInstanceAs (Decidable (∀ m ∈ inp.failing, ∀ n ∈ inp.failing,
    inp.placeable (inp.baseFiles.getD fun _ => false) m = true →
    inp.placeable (inp.baseFiles.getD fun _ => false) n = true →
    inp.toBase m = inp.toBase n → m = n))

/-! ## 10.  A file renamed over another's name -/

/-- Two tests fail at the head.  One fails at the base, and the other once out of four times. -/
def twoFailing : ScopedInput where
  baseFiles := some fun file => file = "test_a.py" ∨ file = "test_b.py"
  classifyTestExit := fun code => if code = 0 ∨ code = 1 then .ran else .failedToRun
  headRun := fun _ => (1, "", some (Dict.ofItems
    [("test_a.py::t", false), ("test_b.py::t", false), ("test_b.py::u", true)]))
  collect := fun _ => (0, ["test_a.py::t", "test_b.py::t"])
  baseRun := fun attempt _ => some (Dict.ofItems
    [("test_a.py::t", false), ("test_b.py::t", attempt ≠ 3)])

theorem attributed_iff_sample : twoFailing.Attributed twoFailing.scopedTests ∧
    twoFailing.scopedTests.preexisting = ["test_a.py::t"] ∧
    twoFailing.scopedTests.preexistingFlaky = ["test_b.py::t"] :=
  ⟨(twoFailing.attributed_iff (by decide +kernel)).mpr (by decide +kernel), by decide +kernel,
    by decide +kernel⟩

/-- A file whose name begins with a blank is renamed, and the file that has the name without the
blank stays. -/
def renamedAside : ScopedInput where
  baseFiles := some fun file => file = "test_a.py" ∨ file = " test_a.py"
  renames := [(" test_a.py", "test_b.py")]
  classifyTestExit := twoFailing.classifyTestExit
  headRun := twoFailing.headRun
  collect := fun _ => (0, ["test_a.py::t"])
  baseRun := fun _ _ => some (Dict.ofItems [("test_a.py::t", false)])

/-- **A failing test is in no list of a measured report.** -/
theorem failing_test_lost : renamedAside.scopedTests.state = .measured ∧
    renamedAside.failing = ["test_a.py::t", "test_b.py::t"] ∧
    renamedAside.scopedTests.introduced = [] ∧
    renamedAside.scopedTests.preexisting = ["test_b.py::t"] ∧
    renamedAside.scopedTests.preexistingFlaky = [] ∧
    renamedAside.scopedTests.headFailed = 2 ∧
    ¬ renamedAside.Attributed renamedAside.scopedTests := by
  have hlists : renamedAside.scopedTests.introduced = [] ∧
      renamedAside.scopedTests.preexisting = ["test_b.py::t"] ∧
      renamedAside.scopedTests.preexistingFlaky = [] := by decide +kernel
  have hfailing : renamedAside.failing = ["test_a.py::t", "test_b.py::t"] := by decide +kernel
  refine ⟨by decide +kernel, hfailing, hlists.1, hlists.2.1, hlists.2.2, by decide +kernel, ?_⟩
  intro hattributed
  have hlisted := (hattributed.all_failing "test_a.py::t").mp (hfailing ▸ List.mem_cons_self)
  rw [hlists.1, hlists.2.1, hlists.2.2] at hlisted
  revert hlisted
  decide

end Kroker.Scoping
