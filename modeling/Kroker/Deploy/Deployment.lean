import Kroker.Core.Text
import Kroker.Library.Except
import Kroker.Library.Flow

/-!
# One deployment: apply, smoke, roll back

`DeploymentWorkflow` of `workflows/deployment.py` runs four activities: it reads the version that
runs, applies the plan, runs the smoke checks, and rolls back to the version it read where the apply
failed or a check did not pass.  Every activity may complete or fail, whatever the reason: its body
raises, it times out, its worker is lost.

## 1.  What is accounted for

A deployment that has been started should end in a report, of a deployment all of whose checks
passed or of one that was rolled back where it could be.

* `run_started` --- what a run that reads a version and starts the apply comes to, case by case.

## 2.  What smoke checks are worth

A result that did not pass must carry a detail, and the detail of a command that exits with 124 is
its output: where there is none, `smoke_check` raises.
-/

namespace Kroker.Deploy

/-! ## Checks and their results -/

/-- `SmokeCheck.kind`. -/
inductive CheckKind where
  | http
  | command
  deriving DecidableEq

theorem one_le_ten : 1 ≤ 10 := by decide

/-- A `SmokeCheck`.  It carries what its kind needs. -/
structure SmokeCheck where
  name : String
  kind : CheckKind
  path : String := ""
  expectStatus : ℕ := 200
  command : String := ""
  timeoutS : ℕ := 10
  timeoutS_pos : 1 ≤ timeoutS := by first | exact Kroker.Deploy.one_le_ten | decide
  path_ne : kind = .http → strip path ≠ "" := by decide +kernel
  command_ne : kind = .command → strip command ≠ "" := by decide +kernel

inductive SmokeState where
  | passed
  | failed
  | errored
  deriving DecidableEq

/-- The value of a `SmokeState`. -/
def SmokeState.value : SmokeState → String
  | .passed => "passed"
  | .failed => "failed"
  | .errored => "errored"

/-- A `SmokeCheckResult`.  One that did not pass says why. -/
structure SmokeCheckResult where
  name : String
  state : SmokeState
  detail : String := ""
  explained : state ≠ .passed → strip detail ≠ "" := by decide +kernel

def SmokeCheckResult.passed (r : SmokeCheckResult) : Bool := r.state = .passed

/-- The validated `SmokeCheckResult`. -/
def SmokeCheckResult.make (name : String) (state : SmokeState) (detail : String) :
    Except String SmokeCheckResult :=
  if h : state ≠ .passed → strip detail ≠ "" then
    .ok { name, state, detail, explained := h }
  else .error (state.value ++ " requires a detail")

/-! ## The smoke checks -/

/-- What a check meets when it is run: the status of an http response, if there was one, or the exit
code and the output of a command, where `_run` gives 124 to a command that timed out. -/
structure Observation where
  status : Option ℕ := none
  code : ℤ := 0
  out : String := ""

/-- `s[-n:]`. -/
def lastChars (n : ℕ) (s : String) : String :=
  String.ofList (s.toList.drop (s.toList.length - n))

/-- `endpoint.rstrip("/") + "/" + path.lstrip("/")`. -/
def urlOf (endpoint path : String) : String :=
  String.ofList (endpoint.toList.rdropWhile (· = '/')) ++ "/" ++
    String.ofList (path.toList.dropWhile (· = '/'))

/-- A round of the loop of `smoke_check`: the result of one check, `none` if it is skipped. -/
def SmokeCheck.evaluate (endpoint : String) (check : SmokeCheck) (seen : Observation) :
    Except String (Option SmokeCheckResult) :=
  match check.kind with
  | .http =>
    if endpoint = "" then .ok none
    else match seen.status with
      | none => (SmokeCheckResult.make check.name .errored ("no response from " ++
          urlOf endpoint check.path ++ " within " ++ toString check.timeoutS ++ "s")).map some
      | some status =>
        if status = check.expectStatus then (SmokeCheckResult.make check.name .passed "").map some
        else (SmokeCheckResult.make check.name .failed ("expected " ++
          toString check.expectStatus ++ ", got " ++ toString status)).map some
  | .command =>
    if seen.code = 124 then (SmokeCheckResult.make check.name .errored seen.out).map some
    else if seen.code ≠ 0 then (SmokeCheckResult.make check.name .failed ("exit " ++
      toString seen.code ++ ": " ++ lastChars 500 seen.out)).map some
    else (SmokeCheckResult.make check.name .passed "").map some

/-- The body of `smoke_check`, where each check is run once, with what it meets. -/
def smokeCheck (endpoint : String) (checks : List (SmokeCheck × Observation)) :
    Except String (List SmokeCheckResult) := do
  let results ← checks.mapM fun c => c.1.evaluate endpoint c.2
  return results.reduceOption

/-! ## Plans, outcomes and reports -/

/-- A version a deployment can be rolled back to: what `out.strip()` can be where it is not
empty. -/
structure Version where
  text : String
  stripped : strip text = text := by decide +kernel
  text_ne : text ≠ "" := by decide +kernel
  deriving DecidableEq

/-- The configuration of deployments, as far as the workflow and its callers read it. -/
structure DeployConfig where
  enabled : Bool := false
  adapter : String := "compose"
  baseUrl : Option String := none

structure RollbackPolicy where
  auto : Bool := true

structure DeployPlan where
  environment : String
  version : String
  smokeChecks : List SmokeCheck := []
  rollback : RollbackPolicy := {}

structure CurrentVersionResult where
  version : Option Version := none

structure ApplyResult where
  endpoint : String := ""
  detail : String := ""

structure SmokeCheckOutput where
  results : List SmokeCheckResult := []

/-- Why an activity did not complete. -/
inductive FailureCause where
  | raised
  | timedOut
  | workerLost
  deriving DecidableEq

/-- The `ActivityError` the workflow gets, with its text. -/
structure ActivityError where
  cause : FailureCause
  text : String
  deriving DecidableEq

/-- What each activity comes to, if it is started. -/
structure Outcomes where
  currentVersion : Except ActivityError CurrentVersionResult
  apply : Except ActivityError ApplyResult
  smokeCheck : Except ActivityError SmokeCheckOutput
  rollback : Except ActivityError Unit

structure ReportFields where
  deployed : Bool := false
  environment : String
  version : String
  adapter : String
  endpoint : String := ""
  applyDetail : String := ""
  checks : List SmokeCheckResult := []
  rolledBack : Bool := false
  rollbackReason : String := ""
  rolledBackTo : Option String := none

/-- A `DeployReport`.  It says where it was rolled back to, or why it was not. -/
structure DeployReport extends ReportFields where
  restored : rolledBack = true → orElseText rolledBackTo "" ≠ ""
  explained : deployed = false → rolledBack = false → strip rollbackReason ≠ ""

/-- What ends a run without a report. -/
inductive Raised where
  | activity (e : ActivityError)
  | value (text : String)
  deriving DecidableEq

def ReportFields.modelValidate (f : ReportFields) : Except Raised DeployReport :=
  if hrestored : f.rolledBack = true → orElseText f.rolledBackTo "" ≠ "" then
    if hexplained : f.deployed = false → f.rolledBack = false → strip f.rollbackReason ≠ "" then
      .ok { f with restored := hrestored, explained := hexplained }
    else .error (.value "a failed deploy must say why it was not rolled back")
  else .error (.value "rolled_back requires rolled_back_to")

/-! ## The run -/

/-- An activity the workflow has started. -/
inductive Activity where
  | currentVersion
  | apply
  | smokeCheck (endpoint : String)
  | rollback (toVersion : Version)

/-- `await workflow.execute_activity(...)`. -/
def executeActivity {α : Type} (a : Activity) (outcome : Except ActivityError α) :
    Flow Activity Raised α :=
  Flow.perform a (outcome.mapError .activity)

/-- `needs_rollback`: a check that could not be evaluated has not passed. -/
def needsRollback (results : List SmokeCheckResult) : Bool := results.any fun r => !r.passed

structure DeploymentInput where
  plan : DeployPlan
  cfg : DeployConfig

namespace DeploymentInput

variable (inp : DeploymentInput)

/-- `_report`, with the fields that every report of the run has. -/
def base (applyDetail : String) : ReportFields :=
  { environment := inp.plan.environment
    version := inp.plan.version
    adapter := inp.cfg.adapter
    applyDetail }

def rollback (o : Outcomes) (previous : Option Version) (applyDetail : String)
    (checks : List SmokeCheckResult) (reason : String) : Flow Activity Raised DeployReport := do
  let base := inp.base applyDetail
  match previous with
  | none =>
    liftM ({ base with
      rollbackReason := "no previous version to restore; " ++ reason
      checks } : ReportFields).modelValidate
  | some previous =>
    if inp.plan.rollback.auto = false then
      liftM ({ base with
        rollbackReason := "auto-rollback disabled; " ++ reason
        checks } : ReportFields).modelValidate
    else
      match ← Flow.attempt (.rollback previous) o.rollback with
      | .error e =>
        liftM ({ base with
          rollbackReason := "rollback exhausted: " ++ e.text ++ "; " ++ reason
          checks } : ReportFields).modelValidate
      | .ok _ =>
        liftM ({ base with
          rolledBack := true
          rolledBackTo := some previous.text
          rollbackReason := reason
          checks } : ReportFields).modelValidate

/-- What failed, for the reason of a rollback. -/
def notPassed (checks : List SmokeCheckResult) : String :=
  joinWith ", " ((checks.filter fun r => !r.passed).map fun r => r.name ++ "=" ++ r.state.value)

def run (o : Outcomes) : Flow Activity Raised DeployReport := do
  let previous := (← executeActivity .currentVersion o.currentVersion).version
  match ← Flow.attempt .apply o.apply with
  | .error e => inp.rollback o previous "" [] ("apply failed: " ++ e.text)
  | .ok applied =>
    let checks := (← executeActivity (.smokeCheck applied.endpoint) o.smokeCheck).results
    if needsRollback checks then
      inp.rollback o previous applied.detail checks ("smoke checks not passed: " ++ notPassed checks)
    else
      liftM ({ inp.base applied.detail with
        deployed := true
        endpoint := applied.endpoint
        checks } : ReportFields).modelValidate

end DeploymentInput

/-! ## Reports -/

namespace ReportFields

variable {f : ReportFields}

theorem modelValidate_deployed (hdeployed : f.deployed = true) (hkept : f.rolledBack = false) :
    ∃ report, f.modelValidate = .ok report ∧ report.toReportFields = f := by
  have hrestored : f.rolledBack = true → orElseText f.rolledBackTo "" ≠ "" := by
    simp [hkept]
  have hexplained : f.deployed = false → f.rolledBack = false → strip f.rollbackReason ≠ "" := by
    simp [hdeployed]
  exact ⟨{ f with restored := hrestored, explained := hexplained },
    by rw [modelValidate, dif_pos hrestored, dif_pos hexplained], rfl⟩

theorem modelValidate_kept (hkept : f.rolledBack = false) (hreason : strip f.rollbackReason ≠ "") :
    ∃ report, f.modelValidate = .ok report ∧ report.toReportFields = f := by
  have hrestored : f.rolledBack = true → orElseText f.rolledBackTo "" ≠ "" := by
    simp [hkept]
  exact ⟨{ f with restored := hrestored, explained := fun _ _ => hreason },
    by rw [modelValidate, dif_pos hrestored, dif_pos fun _ _ => hreason], rfl⟩

theorem modelValidate_rolledBack (hrolledBack : f.rolledBack = true) {v : Version}
    (hto : f.rolledBackTo = some v.text) :
    ∃ report, f.modelValidate = .ok report ∧ report.toReportFields = f := by
  have hrestored : f.rolledBack = true → orElseText f.rolledBackTo "" ≠ "" := by
    intro _
    rw [hto, orElseText, if_neg v.text_ne]
    exact v.text_ne
  have hexplained : f.deployed = false → f.rolledBack = false → strip f.rollbackReason ≠ "" := by
    simp [hrolledBack]
  exact ⟨{ f with restored := hrestored, explained := hexplained },
    by rw [modelValidate, dif_pos hrestored, dif_pos hexplained], rfl⟩

end ReportFields

/-! ## What a run comes to -/

/-- Whether something is left to be rolled back: the apply failed, or a completed check did not
pass. -/
def Outcomes.fails (o : Outcomes) : Bool :=
  match o.apply, o.smokeCheck with
  | .error _, _ => true
  | .ok _, .ok out => needsRollback out.results
  | .ok _, .error _ => false

def Outcomes.completes (o : Outcomes) : Bool :=
  o.currentVersion.isOk && (!o.apply.isOk || o.smokeCheck.isOk)

namespace DeploymentInput

variable (inp : DeploymentInput) (o : Outcomes)

def rollbackActivities (previous : Option Version) : List Activity :=
  match previous with
  | none => []
  | some v => if inp.plan.rollback.auto = false then [] else [.rollback v]

def restores (previous : Option Version) : Bool :=
  previous.isSome && inp.plan.rollback.auto && o.rollback.isOk

def ran : Except Raised DeployReport × List Activity := (inp.run o).ended []

theorem validate_kept (detail : String) (checks : List SmokeCheckResult) (reason : String)
    (hreason : strip reason ≠ "") :
    ∃ report, ({ inp.base detail with
        rollbackReason := reason
        checks } : ReportFields).modelValidate = .ok report ∧
      report.deployed = false ∧ report.rolledBack = false := by
  obtain ⟨report, hreport, hfields⟩ := ReportFields.modelValidate_kept
    (f := { inp.base detail with
      rollbackReason := reason
      checks }) rfl hreason
  refine ⟨report, hreport, ?_, ?_⟩
  · rw [hfields]
    rfl
  · rw [hfields]
    rfl

/-- **Rolling back always ends in a report.** -/
theorem ended_rollback (previous : Option Version) (detail : String)
    (checks : List SmokeCheckResult) (reason : String) (log : List Activity) :
    ∃ report, (inp.rollback o previous detail checks reason).ended log =
        (.ok report, log ++ inp.rollbackActivities previous) ∧
      report.deployed = false ∧ report.rolledBack = inp.restores o previous := by
  cases previous with
  | none =>
    obtain ⟨report, hreport, hdeployed, hkept⟩ := inp.validate_kept detail checks
      ("no previous version to restore; " ++ reason)
      (strip_append_ne (by decide +kernel))
    refine ⟨report, ?_, hdeployed, hkept⟩
    simp only [rollback, hreport, Flow.ended_liftM, rollbackActivities, List.append_nil]
  | some v =>
    cases hauto : inp.plan.rollback.auto with
    | false =>
      obtain ⟨report, hreport, hdeployed, hkept⟩ := inp.validate_kept detail checks
        ("auto-rollback disabled; " ++ reason) (strip_append_ne (by decide +kernel))
      refine ⟨report, ?_, hdeployed, ?_⟩
      · simp only [rollback, hauto, if_true, hreport, Flow.ended_liftM, rollbackActivities,
          List.append_nil]
      · rw [hkept, restores, hauto]
        rfl
    | true =>
      have hactivities : inp.rollbackActivities (some v) = [.rollback v] := by
        simp [rollbackActivities, hauto]
      rw [hactivities]
      cases hrollback : o.rollback with
      | error e =>
        obtain ⟨report, hreport, hdeployed, hkept⟩ := inp.validate_kept detail checks
          ("rollback exhausted: " ++ e.text ++ "; " ++ reason)
          (by
            rw [String.append_assoc, String.append_assoc]
            exact strip_append_ne (by decide +kernel))
        refine ⟨report, ?_, hdeployed, ?_⟩
        · simp only [rollback, hauto, hrollback, Bool.true_eq_false, if_false, Flow.ended_bind,
            Flow.ended_attempt, hreport, Flow.ended_liftM]
        · rw [hkept, restores, hauto, hrollback]
          rfl
      | ok r =>
        obtain ⟨report, hreport, hfields⟩ := ReportFields.modelValidate_rolledBack
          (f := { inp.base detail with
            rolledBack := true
            rolledBackTo := some v.text
            rollbackReason := reason
            checks }) rfl rfl
        refine ⟨report, ?_, ?_, ?_⟩
        · simp only [rollback, hauto, hrollback, Bool.true_eq_false, if_false, Flow.ended_bind,
            Flow.ended_attempt, hreport, Flow.ended_liftM]
        · rw [hfields]
          rfl
        · rw [hfields, restores, hauto, hrollback]
          rfl

/-- The activities that are started before anything is rolled back. -/
def deployActivities : List Activity :=
  match o.currentVersion, o.apply with
  | .error _, _ => [.currentVersion]
  | .ok _, .error _ => [.currentVersion, .apply]
  | .ok _, .ok applied => [.currentVersion, .apply, .smokeCheck applied.endpoint]

variable {o}

theorem ran_raised (h : o.completes = false) :
    ∃ e, inp.ran o = (.error (.activity e), deployActivities o) := by
  unfold Outcomes.completes at h
  unfold ran run executeActivity deployActivities
  simp only [Flow.ended_bind, Flow.ended_perform, Flow.ended_attempt]
  cases hversion : o.currentVersion with
  | error e => exact ⟨e, rfl⟩
  | ok current =>
    cases happly : o.apply with
    | error e => simp [hversion, happly, Except.isOk, Except.toBool] at h
    | ok applied =>
      cases hsmoke : o.smokeCheck with
      | error e => exact ⟨e, rfl⟩
      | ok out => simp [hversion, happly, hsmoke, Except.isOk, Except.toBool] at h

/-- **A deployment that fails is rolled back where it can be.** -/
theorem ran_failed {current : CurrentVersionResult} (hversion : o.currentVersion = .ok current)
    (h : o.fails = true) :
    ∃ report, inp.ran o = (.ok report,
        deployActivities o ++ inp.rollbackActivities current.version) ∧
      report.deployed = false ∧ report.rolledBack = inp.restores o current.version := by
  unfold Outcomes.fails at h
  unfold ran run executeActivity deployActivities
  simp only [Flow.ended_bind, Flow.ended_perform, Flow.ended_attempt, hversion]
  cases happly : o.apply with
  | error e =>
    exact inp.ended_rollback o current.version "" [] _ _
  | ok applied =>
    cases hsmoke : o.smokeCheck with
    | error e => simp [happly, hsmoke] at h
    | ok out =>
      rw [happly, hsmoke] at h
      simp only [Except.mapError, Flow.ended_bind, Flow.ended_perform, h, if_true]
      exact inp.ended_rollback o current.version applied.detail out.results _ _

/-- **A deployment that does not fail is reported with the checks it passed.** -/
theorem ran_deployed (hcompletes : o.completes = true) (h : o.fails = false) :
    ∃ report, inp.ran o = (.ok report, deployActivities o) ∧
      report.deployed = true ∧ ∀ r ∈ report.checks, r.passed = true := by
  unfold Outcomes.completes at hcompletes
  unfold Outcomes.fails at h
  unfold ran run executeActivity deployActivities
  simp only [Flow.ended_bind, Flow.ended_perform, Flow.ended_attempt]
  cases hversion : o.currentVersion with
  | error e => simp [hversion, Except.isOk, Except.toBool] at hcompletes
  | ok current =>
    cases happly : o.apply with
    | error e => simp [happly] at h
    | ok applied =>
      cases hsmoke : o.smokeCheck with
      | error e => simp [happly, hsmoke, Except.isOk, Except.toBool] at hcompletes
      | ok out =>
        rw [happly, hsmoke] at h
        obtain ⟨report, hreport, hfields⟩ := ReportFields.modelValidate_deployed
          (f := { inp.base applied.detail with
            deployed := true
            endpoint := applied.endpoint
            checks := out.results }) rfl rfl
        refine ⟨report, ?_, ?_, ?_⟩
        · have hpassed : needsRollback out.results = false := h
          simp only [Except.mapError, Flow.ended_bind, Flow.ended_perform, hpassed,
            Bool.false_eq_true, if_false, hreport, Flow.ended_liftM]
          rfl
        · rw [hfields]
        · rw [hfields]
          intro r hr
          have hnone := List.any_eq_false.mp h r hr
          simpa using hnone

/-! ## What is accounted for -/

variable (o)

/-- What is owed to a deployment whose apply has been started: a report, of a deployment with all
its checks passed, or after a rollback to the version that was read, where there is one and the plan
allows it. -/
def Accounted : Prop :=
  .apply ∈ (inp.ran o).2 → ∃ report, (inp.ran o).1 = .ok report ∧
    ((report.deployed = true ∧ ∀ r ∈ report.checks, r.passed = true) ∨
      ∀ current v, o.currentVersion = .ok current → current.version = some v →
        inp.plan.rollback.auto = true → .rollback v ∈ (inp.ran o).2)

/-- **A started deployment is accounted for exactly when its apply failed or its smoke checks were
completed.** -/
theorem accounted_iff : inp.Accounted o ↔
    (o.currentVersion.isOk = true → o.apply.isOk = true → o.smokeCheck.isOk = true) := by
  constructor
  · intro h hversion happly
    by_contra hsmoke
    rw [Bool.not_eq_true] at hsmoke
    have hcompletes : o.completes = false := by
      simp [Outcomes.completes, happly, hsmoke]
    obtain ⟨e, he⟩ := ran_raised inp hcompletes
    have hstarted : Activity.apply ∈ deployActivities o := by
      unfold deployActivities
      cases hc : o.currentVersion with
      | error e => simp [hc, Except.isOk, Except.toBool] at hversion
      | ok current => cases o.apply <;> simp
    rw [Accounted, he] at h
    obtain ⟨report, hreport, -⟩ := h hstarted
    cases hreport
  · intro h hstarted
    cases hversion : o.currentVersion with
    | error e =>
      -- The apply is not started where no version was read.
      have hcompletes : o.completes = false := by
        simp [Outcomes.completes, hversion, Except.isOk, Except.toBool]
      obtain ⟨e', he⟩ := ran_raised inp hcompletes
      rw [he] at hstarted
      simp [deployActivities, hversion] at hstarted
    | ok current =>
      cases hfails : o.fails with
      | true =>
        obtain ⟨report, hran, -, -⟩ := ran_failed inp hversion hfails
        refine ⟨report, by rw [hran], Or.inr fun current' v hcurrent hv hauto => ?_⟩
        obtain rfl := Except.ok.inj hcurrent
        rw [hran, List.mem_append]
        refine Or.inr ?_
        simp [rollbackActivities, hv, hauto]
      | false =>
        have hcompletes : o.completes = true := by
          rw [hversion] at h
          have hsmoke := h rfl
          unfold Outcomes.completes
          rw [hversion]
          cases happly : o.apply with
          | error e => rfl
          | ok applied =>
            rw [happly] at hsmoke
            rw [hsmoke rfl]
            rfl
        obtain ⟨report, hran, hdeployed, hpassed⟩ := ran_deployed inp hcompletes hfails
        exact ⟨report, by rw [hran], Or.inl ⟨hdeployed, hpassed⟩⟩

end DeploymentInput

/-! ## What the smoke checks come to -/

/-! ## A check that times out silently -/

def curlCheck : SmokeCheck :=
  { name := "api"
    kind := .command
    command := "timeout 5 curl -sf http://localhost:8000/api" }

theorem strip_v1 : strip "v1" = "v1" := by decide +kernel

theorem v1_ne : "v1" ≠ "" := by decide +kernel

/-- What the activities come to where the check's own `timeout` expires, with a version to go back
to. -/
def silentTimeout : Outcomes where
  currentVersion := .ok { version := some { text := "v1", stripped := strip_v1, text_ne := v1_ne } }
  apply := .ok { endpoint := "http://localhost:8000" }
  smokeCheck := ((smokeCheck "http://localhost:8000" [(curlCheck, { code := 124 })]).map fun
    results => { results }).mapError fun text => { cause := .raised, text }
  rollback := .ok ()

/-- **The run of a deployment that came up broken raises, and nothing is rolled back.** -/
theorem not_accounted_silent_timeout :
    let inp : DeploymentInput := { plan := { environment := "staging", version := "v2" }, cfg := {} }
    ¬inp.Accounted silentTimeout ∧ ∀ v, .rollback v ∉ (inp.ran silentTimeout).2 := by
  intro inp
  have hcompletes : silentTimeout.completes = false := by decide +kernel
  obtain ⟨e, he⟩ := DeploymentInput.ran_raised inp hcompletes
  have hactivities : DeploymentInput.deployActivities silentTimeout =
      [.currentVersion, .apply, .smokeCheck "http://localhost:8000"] := rfl
  rw [hactivities] at he
  refine ⟨fun h => ?_, fun v hv => ?_⟩
  · rw [DeploymentInput.Accounted, he] at h
    obtain ⟨report, hreport, -⟩ := h (by simp)
    cases hreport
  · rw [he] at hv
    simp at hv

end Kroker.Deploy
