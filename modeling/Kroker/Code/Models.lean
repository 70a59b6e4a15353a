import Kroker.Core.Config
import Kroker.Harness.Containment

/-!
# What the code stage judges an attempt by

The artifacts of `stages/qa/models.py`, `stages/review/models.py`, `harness/models.py` and
`vcs/git.py` that the fix loop reads, the tombstones of `stages/review/lenses.py`, the freeze rules
of `stages/code/freeze.py`, and the list of issues of `stages/qa/step.py`.

`classify_lens` refuses a report from a lens that was not reached.  Here a call of a lens is a
`LensCall`, in which such a report has no place.
-/

namespace Kroker.Code

/-! ## 1. Artifacts -/

inductive Severity where
  | critical
  | high
  | medium
  | low
  deriving DecidableEq

def Severity.value : Severity → String
  | .critical => "critical"
  | .high => "high"
  | .medium => "medium"
  | .low => "low"

structure ReviewFinding where
  assertion : String
  severity : Severity
  detail : String
  deriving DecidableEq

structure ReviewReport where
  approve : Bool
  findings : List ReviewFinding := []
  deriving DecidableEq

def ReviewReport.blockingFindings (r : ReviewReport) : List ReviewFinding :=
  r.findings.filter fun f => f.severity = .critical ∨ f.severity = .high

structure QAReport where
  testsPassed : Bool
  failingTests : List String := []
  issues : List String := []
  stoppedEarly : Bool := false

/-- The test-freeze backstop's result. -/
structure DriftReport where
  available : Bool := true
  unavailableReason : String := ""
  fencePaths : List String := []
  reportPaths : List String := []
  indexBitPaths : List String := []
  patch : String := ""

def DriftReport.found (r : DriftReport) : Bool :=
  r.fencePaths ≠ [] || r.reportPaths ≠ [] || r.indexBitPaths ≠ []

/-- A tool call at which the harness is suspended. -/
structure DeferredToolUse where
  toolUseId : String
  tool : String
  inputDigest : String
  ruleId : String

structure ContainmentReport where
  freezeVacuous : Bool := false

structure HarnessRunResult where
  harness : HarnessKind
  exitCode : ℤ
  summary : String
  commitSha : Option String := none
  deferred : Option DeferredToolUse := none
  containment : Option ContainmentReport := none

/-- `run.containment.freeze_vacuous`, where there is a report. -/
def HarnessRunResult.freezeVacuous (run : HarnessRunResult) : Bool :=
  run.containment.any (·.freezeVacuous)

/-- The failed round that stands for a crew that died. -/
def deadCrew : HarnessRunResult where
  harness := .crew
  exitCode := 124
  summary := "crew child workflow failed before producing a round result (wall-clock timeout or " ++
    "crash); treated as a failed attempt for the fix loop"

inductive TaskStatus where
  | done
  | failed
  | quarantined
  deriving DecidableEq

/-! ## 2. Lenses -/

inductive LensPresence where
  | present
  | declaredAbsent
  | notReached
  | undeclaredAbsent
  deriving DecidableEq

/-- What one lens did on one attempt (`_facts_match_presence`). -/
structure LensOutcome where
  lens : String
  presence : LensPresence
  approved : Option Bool := none
  hasBlockingFindings : Bool := false
  reason : String := ""
  facts_match_presence : if presence = .present then approved ≠ none
    else approved = none ∧ reason ≠ ""

/-- Whether the run site of a lens was reached, and the report it produced there. -/
inductive LensCall where
  | notReached
  | reached (report : Option ReviewReport)

def LensCall.report : LensCall → Option ReviewReport
  | .notReached => none
  | .reached report => report

theorem append_ne_empty (s : String) {t : String} (h : t ≠ "") : s ++ t ≠ "" := by
  intro happend
  rw [← String.toList_inj, String.toList_append] at happend
  exact h (String.toList_inj.mp (List.append_eq_nil_iff.mp happend).2)

/-- The tombstone of a lens without a report. -/
def LensOutcome.absent (lens : String) (presence : LensPresence) (reason : String)
    (habsent : presence ≠ .present := by decide) (hreason : reason ≠ "" := by decide) :
    LensOutcome where
  lens := lens
  presence := presence
  reason := lens ++ reason
  facts_match_presence := by
    rw [if_neg habsent]
    exact ⟨rfl, append_ne_empty lens hreason⟩

def classifyLens (lens : String) (enabled agentPresent : Bool) (call : LensCall) : LensOutcome :=
  if !enabled then .absent lens .declaredAbsent " disabled by configuration"
  else if !agentPresent then .absent lens .undeclaredAbsent " enabled but no agent is configured"
  else match call with
    | .notReached => .absent lens .notReached " run site was never reached on this task"
    | .reached none =>
      .absent lens .undeclaredAbsent " ran but produced no report (raised, or returned nothing)"
    | .reached (some report) =>
      { lens := lens
        presence := .present
        approved := some report.approve
        hasBlockingFindings := report.blockingFindings ≠ []
        facts_match_presence := by simp }

def primaryAdmits (outcome : LensOutcome) : Bool :=
  outcome.presence ≠ .present || outcome.approved.getD false

def backstopAdmits (outcome : LensOutcome) : Bool :=
  outcome.presence ≠ .present || outcome.approved.getD false || !outcome.hasBlockingFindings

section Classify

variable {lens : String} {enabled agentPresent : Bool} {call : LensCall}

/-- **A lens is recorded present exactly when it is on and produced a report.** -/
theorem classifyLens_present_iff :
    (classifyLens lens enabled agentPresent call).presence = .present ↔
      (enabled && agentPresent) = true ∧ call.report.isSome := by
  unfold classifyLens LensOutcome.absent
  cases enabled with
  | false => simp
  | true =>
    cases agentPresent with
    | false => simp
    | true =>
      match call with
      | .notReached => simp [LensCall.report]
      | .reached none => simp [LensCall.report]
      | .reached (some report) => simp [LensCall.report]

variable (hon : call.report.isSome → (enabled && agentPresent) = true)

include hon

theorem admits_classify {admits : LensOutcome → Bool} {bar : ReviewReport → Prop}
    (habsent : ∀ outcome, outcome.presence ≠ .present → admits outcome = true)
    (hbar : ∀ r, admits (classifyLens lens true true (.reached (some r))) = true ↔ bar r) :
    admits (classifyLens lens enabled agentPresent call) = true ↔
      ∀ r, call.report = some r → bar r := by
  by_cases hreport : call.report.isSome
  · obtain ⟨henabled, hagent⟩ := Bool.and_eq_true_iff.mp (hon hreport)
    obtain ⟨r, hr⟩ := Option.isSome_iff_exists.mp hreport
    subst henabled hagent
    cases call with
    | notReached => exact nomatch hr
    | reached report =>
      obtain rfl : report = some r := hr
      simp [hbar, LensCall.report]
  · have hnone : call.report = none := by simpa using hreport
    simp [habsent _ fun h => hreport (classifyLens_present_iff.mp h).2, hnone]

/-- **The primary's bar**: a report that does not approve fails it, blocking findings or not. -/
theorem primaryAdmits_classify :
    primaryAdmits (classifyLens lens enabled agentPresent call) = true ↔
      ∀ r, call.report = some r → r.approve = true :=
  admits_classify hon (fun _ h => by simp [primaryAdmits, h])
    fun r => by simp [primaryAdmits, classifyLens]

/-- **The backstop's bar**: a report fails it that does not approve and has a blocking finding. -/
theorem backstopAdmits_classify :
    backstopAdmits (classifyLens lens enabled agentPresent call) = true ↔
      ∀ r, call.report = some r → r.approve = true ∨ r.blockingFindings = [] :=
  admits_classify hon (fun _ h => by simp [backstopAdmits, h])
    fun r => by simp [backstopAdmits, classifyLens]

end Classify

/-! ## 3. The freeze rules -/

def isRepairAttempt (attempt : ℕ) (thawed : Bool) : Bool := decide (1 < attempt) && !thawed

/-- `_next_anchor`: only a freely writable attempt moves the anchor, and only by a checkpoint. -/
def nextAnchor (current commitSha : Option String) (freelyWritable : Bool) : Option String :=
  match commitSha with
  | some sha => if sha ≠ "" ∧ freelyWritable then some sha else current
  | none => current

def unavailable : DriftReport where
  available := false
  unavailableReason := "no anchor captured (attempt 1 produced no checkpoint)"

/-- Joins the texts that are not empty. -/
def joinNonempty (sep : String) (parts : List String) : String :=
  joinWith sep (parts.filter (· ≠ ""))

def driftLines (report : DriftReport) : List String :=
  (if report.indexBitPaths = [] then [] else
    ["EVASION: the session set skip-worktree/assume-unchanged on protected paths, hiding edits " ++
      "from the diff: " ++ joinWith ", " report.indexBitPaths]) ++
  (if report.fencePaths = [] then [] else
    ["FROZEN TESTS CHANGED during a repair attempt: " ++ joinWith ", " report.fencePaths]) ++
  (if report.reportPaths = [] then [] else
    ["TEST CONFIGURATION CHANGED during a repair attempt: " ++ joinWith ", " report.reportPaths]) ++
  (if report.patch = "" then [] else ["\nDrift patch:\n" ++ report.patch])

def driftNote (report : DriftReport) : String :=
  if !report.available then
    "TEST-FREEZE BACKSTOP UNAVAILABLE: " ++ report.unavailableReason ++
      ". Test drift was NOT checked for this attempt."
  else if !report.found then ""
  else joinWith "\n" (driftLines report)

/-! ## 4. Issues -/

/-- `s[-n:]`. -/
def lastChars (n : ℕ) (s : String) : String := String.ofList (s.toList.drop (s.length - n))

def deterministicIssues (qaRaw : QAReport) : List String :=
  if qaRaw.testsPassed then [] else
    (if qaRaw.issues = [] then [] else
      ["test command failed:\n" ++ lastChars 1500 (joinWith "\n" qaRaw.issues)]) ++
    (if qaRaw.failingTests = [] then [] else
      ["failing tests: " ++ joinWith ", " (qaRaw.failingTests.take 25)]) ++
    (if qaRaw.stoppedEarly then
      ["NOTE: the test run STOPPED EARLY (-x / --maxfail), so tests ordered after the failure " ++
        "above did not run. This is a partial result, not a verdict on your work: the failure " ++
        "shown may be unrelated to your task, and your own tests may not have executed. Check " ++
        "whether it is yours before changing it."]
    else [])

def reviewIssues (report : Option ReviewReport) : List String :=
  report.toList.flatMap fun r => r.blockingFindings.map fun f =>
    f.severity.value ++ ": " ++ f.assertion ++ " — " ++ f.detail

def fixLoopIssues (qa qaRaw : QAReport) (review adversary : Option ReviewReport) : String :=
  joinWith "\n- " ((if qa.issues = [] then qa.failingTests else qa.issues) ++
    deterministicIssues qaRaw ++ reviewIssues review ++ reviewIssues adversary)

end Kroker.Code
