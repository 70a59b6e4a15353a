import Kroker.Core.Config
import Kroker.Deploy.Deployment

/-!
# The deploy step: attempts, and what the environment runs

`stages/deploy/step.py` runs `DeploymentWorkflow` again as long as it fails and a human asks for a
revision, and ends in a terminal string.  The environment is the version that runs in it:
`deploy_current_version` reads it, an apply sets it to the version of the plan, also possibly where
the apply fails, and a rollback that succeeds sets it to the version the rollback is to.

## 1.  What one attempt leaves

An attempt that fails either restores the version it found, or leaves the plan's version up if its
apply took effect (`after_failed`).  Which of the two is a question about its outcomes and about the
version it found (`Attempt.restores`).

## 2.  What the terminal string says

The next attempt reads what the last one left.  So the version an attempt restores is the initial
version only as long as no attempt has left the plan's version up (`Trail`).
-/

namespace Kroker.Deploy

/-! ## Plans -/

def sanitizeTag (raw : String) : String :=
  let allowed (c : Char) : Bool := c.isAlphanum || c = '_' || c = '.' || c = '-'
  let tag := (raw.toList.map fun c => if allowed c then c else '-').take 128
  let tag := tag.dropWhile fun c => c = '.' || c = '-'
  if tag = [] then "run" else String.ofList tag

def deployPlan (cfg : DeployConfig) (workflowId : String) : DeployPlan where
  environment := "staging"
  version := if workflowId = "" then "run" else sanitizeTag workflowId
  smokeChecks :=
    if orElseText cfg.baseUrl "" = "" then []
    else [{ name := "liveness", kind := .http, path := "/health" }]

/-! ## The environment -/

/-- `out.strip() or None`. -/
def Version.ofOutput (out : String) : Option Version :=
  if h : strip out = "" then none
  else some { text := strip out, stripped := strip_strip out, text_ne := h }

/-- `deploy_current_version`, of what the command of the adapter exits with and prints. -/
def deployCurrentVersion (code : ℤ) (out : String) : CurrentVersionResult :=
  if code ≠ 0 then {} else { version := Version.ofOutput out }

/-- The version that runs, if any does. -/
abbrev Environment := Option Version

/-- What the version command prints. -/
def Environment.printed (env : Environment) : String := (env.map (·.text)).getD ""

/-- What the activities of one attempt come to, and the decision at the gate after it. -/
structure Attempt where
  /-- The exit code of the version command. -/
  probe : Except ActivityError ℤ := .ok 0
  apply : Except ActivityError ApplyResult := .ok {}
  /-- Whether an apply that fails has set the version all the same. -/
  applied : Bool := false
  smokeCheck : Except ActivityError SmokeCheckOutput := .ok {}
  rollback : Except ActivityError Unit := .ok ()
  /-- The decision of the `deploy_failed` gate. -/
  decision : GateDecision

namespace Attempt

variable (a : Attempt)

/-- What the activities come to in an environment. -/
def outcomes (env : Environment) : Outcomes where
  currentVersion := a.probe.map fun code => deployCurrentVersion code (Environment.printed env)
  apply := a.apply
  smokeCheck := a.smokeCheck
  rollback := a.rollback

/-- Whether the apply sets the version. -/
def takesEffect : Bool := a.apply.isOk || a.applied

def effect (plan : DeployPlan) (env : Environment) : Activity → Environment
  | .currentVersion => env
  | .apply => if a.takesEffect then Version.ofOutput plan.version else env
  | .smokeCheck _ => env
  | .rollback v => if a.rollback.isOk then some v else env

/-- What is run after the activities of the attempt. -/
def after (inp : DeploymentInput) (env : Environment) : Environment :=
  (inp.ran (a.outcomes env)).2.foldl (a.effect inp.plan) env

end Attempt

/-! ## The step -/

def deployResult (report : DeployReport) (decision : Option GateDecision) (prUrl : String) :
    String :=
  if report.deployed then "deployed:" ++ prUrl
  else if report.rolledBack = false then "deploy-broken:" ++ prUrl
  else match decision with
    | some d => if d.outcome = .reject then "deploy-rejected:" ++ prUrl else "rolled-back:" ++ prUrl
    | none => "rolled-back:" ++ prUrl

/-- What the step is given, with the decision of the `deploy` gate. -/
structure DeployStep where
  cfg : DeployConfig
  maxGateRounds : ℕ
  deployPlan : Option DeployPlan := none
  workflowId : String := "deploy"
  prUrl : String
  gate : GateDecision

namespace DeployStep

variable (d : DeployStep) (attempts : ℕ → Attempt)

def plan : DeployPlan := d.deployPlan.getD (Deploy.deployPlan d.cfg d.workflowId)

/-- The input of the child workflow. -/
def input : DeploymentInput where
  plan := d.plan
  cfg := d.cfg

/-- The attempts, from one of them on: the terminal string, or what the child workflow raised, and
what the environment runs in the end. -/
def loop (attempt : ℕ) (env : Environment) : Except Raised String × Environment :=
  let a := attempts attempt
  let after := a.after d.input env
  match (d.input.ran (a.outcomes env)).1 with
  | .error e => (.error e, after)
  | .ok report =>
    if report.deployed then (.ok (deployResult report none d.prUrl), after)
    else if a.decision.outcome = .revise ∧ attempt < d.maxGateRounds then
      loop (attempt + 1) after
    else (.ok (deployResult report (some a.decision) d.prUrl), after)
termination_by d.maxGateRounds - attempt

/-- `step`. -/
def run (env : Environment) : Except Raised String × Environment :=
  if d.gate.approved = false ∨ d.cfg.enabled = false then
    (.ok ("merged-not-deployed:" ++ d.prUrl), env)
  else d.loop attempts 1 env

end DeployStep

/-! ## What an attempt leaves -/

theorem Version.ofOutput_printed (env : Environment) :
    Version.ofOutput (Environment.printed env) = env := by
  cases env with
  | none => decide +kernel
  | some v =>
    have hne : strip v.text ≠ "" := by
      rw [v.stripped]
      exact v.text_ne
    rw [Environment.printed, Option.map_some, Option.getD_some, Version.ofOutput, dif_neg hne]
    congr 1
    cases v with
    | mk text stripped text_ne => simp only [stripped]

theorem deployCurrentVersion_zero (env : Environment) :
    (deployCurrentVersion 0 (Environment.printed env)).version = env := by
  rw [deployCurrentVersion, if_neg (by simp), Version.ofOutput_printed]

theorem deployCurrentVersion_of_ne {code : ℤ} (h : code ≠ 0) (out : String) :
    (deployCurrentVersion code out).version = none := by
  rw [deployCurrentVersion, if_pos h]

namespace Attempt

variable (a : Attempt)

/-- Whether the version is read, and the smoke checks are completed once the plan is applied. -/
def completes : Bool := a.probe.isOk && (!a.apply.isOk || a.smokeCheck.isOk)

def fails : Bool :=
  match a.apply, a.smokeCheck with
  | .error _, _ => true
  | .ok _, .ok out => needsRollback out.results
  | .ok _, .error _ => false

/-- Whether the attempt, if it fails, restores the version it found: there is one, it was read, and
it may be and is restored. -/
def restores (plan : DeployPlan) (env : Environment) : Bool :=
  env.isSome && a.probe = .ok 0 && plan.rollback.auto && a.rollback.isOk

variable {a}

theorem completes_outcomes (env : Environment) : (a.outcomes env).completes = a.completes := by
  unfold Outcomes.completes Attempt.completes outcomes
  rw [isOk_map]

theorem fails_outcomes (env : Environment) : (a.outcomes env).fails = a.fails := rfl

theorem restores_outcomes {inp : DeploymentInput} {env : Environment} {code : ℤ}
    (hprobe : a.probe = .ok code) :
    inp.restores (a.outcomes env)
        (deployCurrentVersion code (Environment.printed env)).version =
      a.restores inp.plan env := by
  unfold DeploymentInput.restores Attempt.restores
  rw [hprobe]
  by_cases hcode : code = 0
  · rw [hcode, deployCurrentVersion_zero]
    simp [outcomes]
  · rw [deployCurrentVersion_of_ne hcode]
    simp [hcode]

/-- **An attempt that raises.** -/
theorem ran_raised (inp : DeploymentInput) (env : Environment) (h : a.completes = false) :
    ∃ e, (inp.ran (a.outcomes env)).1 = .error e := by
  obtain ⟨e, he⟩ := inp.ran_raised (o := a.outcomes env) ((completes_outcomes env).trans h)
  exact ⟨_, congrArg Prod.fst he⟩

/-- **An attempt that deploys.** -/
theorem ran_deployed (inp : DeploymentInput) (env : Environment) (hcompletes : a.completes = true)
    (hfails : a.fails = false) :
    ∃ report, (inp.ran (a.outcomes env)).1 = .ok report ∧ report.deployed = true := by
  obtain ⟨report, hran, hdeployed, -⟩ := inp.ran_deployed
    ((completes_outcomes env).trans hcompletes) ((fails_outcomes env).trans hfails)
  exact ⟨report, congrArg Prod.fst hran, hdeployed⟩

theorem foldl_deployActivities (inp : DeploymentInput) (env : Environment)
    (h : a.probe.isOk = true) :
    (DeploymentInput.deployActivities (a.outcomes env)).foldl (a.effect inp.plan) env =
      if a.takesEffect then Version.ofOutput inp.plan.version else env := by
  unfold DeploymentInput.deployActivities outcomes
  cases hprobe : a.probe with
  | error e => simp [hprobe, Except.isOk, Except.toBool] at h
  | ok code =>
    cases a.apply with
    | error e => rfl
    | ok applied => rfl

/-- **An attempt that fails** reports whether it restored the version it found; if it did not, the
plan's version is left up where the apply took effect. -/
theorem after_failed (inp : DeploymentInput) (env : Environment) (hcompletes : a.completes = true)
    (hfails : a.fails = true) :
    ∃ report, (inp.ran (a.outcomes env)).1 = .ok report ∧ report.deployed = false ∧
      report.rolledBack = a.restores inp.plan env ∧
      a.after inp env = if a.restores inp.plan env then env
        else if a.takesEffect then Version.ofOutput inp.plan.version else env := by
  have hprobe : a.probe.isOk = true := (Bool.and_eq_true _ _ ▸ hcompletes).1
  obtain ⟨code, hcode⟩ : ∃ code, a.probe = .ok code := by
    cases hp : a.probe with
    | error e => simp [hp, Except.isOk, Except.toBool] at hprobe
    | ok code => exact ⟨code, rfl⟩
  have hversion : (a.outcomes env).currentVersion =
      .ok (deployCurrentVersion code (Environment.printed env)) := by
    rw [outcomes, hcode]
    rfl
  obtain ⟨report, hran, hdeployed, hrolledBack⟩ := inp.ran_failed hversion
    ((fails_outcomes env).trans hfails)
  rw [restores_outcomes hcode] at hrolledBack
  refine ⟨report, congrArg Prod.fst hran, hdeployed, hrolledBack, ?_⟩
  rw [after, hran]
  simp only [List.foldl_append, foldl_deployActivities inp env hprobe]
  unfold DeploymentInput.rollbackActivities restores
  by_cases hzero : code = 0
  · rw [hcode, hzero, deployCurrentVersion_zero]
    cases env with
    | none => rfl
    | some v =>
      cases hauto : inp.plan.rollback.auto with
      | false => simp
      | true =>
        cases hrollback : a.rollback with
        | error e => simp [effect, hrollback, Except.isOk, Except.toBool]
        | ok r => simp [effect, hrollback, Except.isOk, Except.toBool]
  · rw [hcode, deployCurrentVersion_of_ne hzero]
    simp [hzero]

end Attempt

/-! ## The loop, case by case -/

namespace DeployStep

variable (d : DeployStep) (attempts : ℕ → Attempt)

/-- Whether the step goes on after an attempt: it failed, and a human asks for a revision that is
still allowed. -/
def GoesOn (n : ℕ) : Prop :=
  ((attempts n).completes = true ∧ (attempts n).fails = true) ∧
    (attempts n).decision.outcome = .revise ∧ n < d.maxGateRounds

/-- Whether an attempt is made: the step went on after each before it. -/
def Reached (n : ℕ) : Prop := 1 ≤ n ∧ ∀ i, 1 ≤ i → i < n → d.GoesOn attempts i

def failedResult (n : ℕ) (restored : Bool) : String :=
  if restored = false then "deploy-broken:" ++ d.prUrl
  else if (attempts n).decision.outcome = .reject then "deploy-rejected:" ++ d.prUrl
  else "rolled-back:" ++ d.prUrl

variable {d attempts} {n : ℕ} {env : Environment}

theorem loop_of_raised (h : (attempts n).completes = false) :
    ∃ e, (d.loop attempts n env).1 = .error e := by
  obtain ⟨e, he⟩ := Attempt.ran_raised d.input env h
  refine ⟨e, ?_⟩
  unfold loop
  simp only [he]

theorem loop_of_deployed (hcompletes : (attempts n).completes = true)
    (hfails : (attempts n).fails = false) :
    (d.loop attempts n env).1 = .ok ("deployed:" ++ d.prUrl) := by
  obtain ⟨report, hran, hdeployed⟩ := Attempt.ran_deployed d.input env hcompletes hfails
  unfold loop
  simp only [hran, hdeployed, if_true, deployResult]

/-- What an attempt leaves that fails. -/
def left (d : DeployStep) (a : Attempt) (env : Environment) : Environment :=
  if a.restores d.plan env then env
  else if a.takesEffect then Version.ofOutput d.plan.version else env

theorem loop_of_failed (hcompletes : (attempts n).completes = true)
    (hfails : (attempts n).fails = true) :
    d.loop attempts n env =
      if (attempts n).decision.outcome = .revise ∧ n < d.maxGateRounds then
        d.loop attempts (n + 1) (d.left (attempts n) env)
      else (.ok (d.failedResult attempts n ((attempts n).restores d.plan env)),
        d.left (attempts n) env) := by
  obtain ⟨report, hran, hdeployed, hrolledBack, hafter⟩ :=
    Attempt.after_failed d.input env hcompletes hfails
  conv_lhs => unfold loop
  simp only [hran, hdeployed, hafter, Bool.false_eq_true, if_false]
  have hresult : deployResult report (some (attempts n).decision) d.prUrl =
      d.failedResult attempts n ((attempts n).restores d.plan env) := by
    simp only [deployResult, failedResult, hdeployed, hrolledBack, Bool.false_eq_true, if_false]
    rfl
  rw [hresult]
  rfl

/-! ## What the terminal string says -/

variable (d attempts)

/-- Whether the step gets to its attempts. -/
def Deploys : Prop := d.gate.approved = true ∧ d.cfg.enabled = true

/-- The terminal string tells the truth: what is said to be rolled back or rejected runs what was
run in the beginning, and what is neither that nor deployed is said to be broken. -/
structure TellsTruth (initial : Environment) (ended : Except Raised String × Environment) :
    Prop where
  restored : ended.1 = .ok ("rolled-back:" ++ d.prUrl) ∨
    ended.1 = .ok ("deploy-rejected:" ++ d.prUrl) → ended.2 = initial
  broken : d.Deploys → ended.1 ≠ .ok ("deployed:" ++ d.prUrl) →
    ended.1 ≠ .ok ("rolled-back:" ++ d.prUrl) → ended.1 ≠ .ok ("deploy-rejected:" ++ d.prUrl) →
    ended.1 = .ok ("deploy-broken:" ++ d.prUrl)

def LeavesNothing (initial : Environment) (n : ℕ) : Prop :=
  (attempts n).takesEffect = true → (attempts n).restores d.plan initial = true

/-- Every attempt completes, and where the last one fails and can restore the plan's version, that
is the initial version, or the attempts before it have left nothing. -/
def Restorable (initial : Environment) : Prop :=
  (∀ n, d.Reached attempts n → (attempts n).completes = true) ∧
    ∀ n, d.Reached attempts n → ¬d.GoesOn attempts n → (attempts n).fails = true →
      (attempts n).restores d.plan (Version.ofOutput d.plan.version) = true →
      Version.ofOutput d.plan.version = initial ∨
        ∀ i, 1 ≤ i → i < n → d.LeavesNothing attempts initial i

/-- What the environment runs before an attempt: the initial version while nothing has been left,
and the plan's from then on. -/
def Trail (initial : Environment) (n : ℕ) (env : Environment) : Prop :=
  (env = initial ∧ ∀ i, 1 ≤ i → i < n → d.LeavesNothing attempts initial i) ∨
    (env = Version.ofOutput d.plan.version ∧
      ∃ i, 1 ≤ i ∧ i < n ∧ ¬d.LeavesNothing attempts initial i)

variable {d attempts} {initial : Environment}

/-- **An attempt that fails goes on along the trail.** -/
theorem Trail.left (hn : 1 ≤ n) (h : d.Trail attempts initial n env) :
    d.Trail attempts initial (n + 1) (d.left (attempts n) env) := by
  unfold DeployStep.left
  rcases h with ⟨rfl, hnothing⟩ | ⟨rfl, i, hi, hin, hleft⟩
  · by_cases hlast : d.LeavesNothing attempts env n
    · refine Or.inl ⟨?_, fun i hi hin => ?_⟩
      · cases htakes : (attempts n).takesEffect with
        | true => rw [hlast htakes, if_pos rfl]
        | false => simp
      · rcases Nat.lt_succ_iff_lt_or_eq.mp hin with hlt | rfl
        · exact hnothing i hi hlt
        · exact hlast
    · have htaken := hlast
      unfold LeavesNothing at htaken
      rw [Classical.not_imp] at htaken
      exact Or.inr ⟨by rw [if_neg htaken.2, if_pos htaken.1], n, hn, Nat.lt_succ_self n, hlast⟩
  · refine Or.inr ⟨?_, i, hi, by omega, hleft⟩
    simp

theorem restorable_iff_of_stops (hn : d.Reached attempts n) (hstops : ¬d.GoesOn attempts n) :
    d.Restorable attempts initial ↔ (attempts n).completes = true ∧ ((attempts n).fails = true →
      (attempts n).restores d.plan (Version.ofOutput d.plan.version) = true →
      Version.ofOutput d.plan.version = initial ∨
        ∀ i, 1 ≤ i → i < n → d.LeavesNothing attempts initial i) := by
  constructor
  · rintro ⟨hcompletes, hlast⟩
    exact ⟨hcompletes n hn, hlast n hn hstops⟩
  · rintro ⟨hcompletes, hlast⟩
    have hle : ∀ m, d.Reached attempts m → m ≤ n := by
      intro m hm
      by_contra hlt
      exact hstops (hm.2 n hn.1 (by omega))
    refine ⟨fun m hm => ?_, fun m hm hmstops => ?_⟩
    · rcases Nat.lt_or_eq_of_le (hle m hm) with hlt | rfl
      · exact (hn.2 m hm.1 hlt).1.1
      · exact hcompletes
    · rcases Nat.lt_or_eq_of_le (hle m hm) with hlt | rfl
      · exact absurd (hn.2 m hm.1 hlt) hmstops
      · exact hlast

theorem ok_append_inj {p q : String} :
    (.ok (p ++ d.prUrl) : Except Raised String) = .ok (q ++ d.prUrl) ↔ p = q := by
  rw [Except.ok.injEq, String.append_left_inj]

theorem not_tellsTruth_error (hdeploys : d.Deploys) {e : Raised} :
    ¬d.TellsTruth initial (.error e, env) := by
  intro h
  have hbroken := h.broken hdeploys (by simp) (by simp) (by simp)
  cases hbroken

theorem tellsTruth_ok {p : String} (hp : p = "deployed:" ∨ p = "deploy-broken:") :
    d.TellsTruth initial (.ok (p ++ d.prUrl), env) := by
  refine ⟨fun h => ?_, fun _ hdeployed _ _ => ?_⟩
  · simp only [ok_append_inj] at h
    rcases hp with rfl | rfl <;> simp at h
  · rcases hp with rfl | rfl
    · exact absurd rfl hdeployed
    · rfl

theorem tellsTruth_restored {p : String} (hp : p = "rolled-back:" ∨ p = "deploy-rejected:") :
    d.TellsTruth initial (.ok (p ++ d.prUrl), env) ↔ env = initial := by
  refine ⟨fun h => h.restored ?_, fun h => ⟨fun _ => h, fun _ _ hrolled hrejected => ?_⟩⟩
  · simpa only [ok_append_inj] using hp
  · rcases hp with rfl | rfl
    · exact absurd rfl hrolled
    · exact absurd rfl hrejected

theorem failed_tellsTruth_iff (htrail : d.Trail attempts initial n env) :
    d.TellsTruth initial (.ok (d.failedResult attempts n ((attempts n).restores d.plan env)),
        d.left (attempts n) env) ↔
      ((attempts n).restores d.plan (Version.ofOutput d.plan.version) = true →
        Version.ofOutput d.plan.version = initial ∨
          ∀ i, 1 ≤ i → i < n → d.LeavesNothing attempts initial i) := by
  unfold failedResult DeployStep.left
  cases hrestores : (attempts n).restores d.plan env with
  | false =>
    refine iff_of_true (tellsTruth_ok (Or.inr rfl)) fun hplan => ?_
    rcases htrail with ⟨-, hnothing⟩ | ⟨rfl, -⟩
    · exact Or.inr hnothing
    · rw [hrestores] at hplan
      cases hplan
  | true =>
    have htruth : d.TellsTruth initial (.ok (if (attempts n).decision.outcome = .reject then
        "deploy-rejected:" ++ d.prUrl else "rolled-back:" ++ d.prUrl), env) ↔ env = initial := by
      split
      · exact tellsTruth_restored (Or.inr rfl)
      · exact tellsTruth_restored (Or.inl rfl)
    simp only [Bool.true_eq_false, if_false, if_true, htruth]
    rcases htrail with ⟨rfl, hnothing⟩ | ⟨rfl, i, hi, hin, hleft⟩
    · exact iff_of_true rfl fun _ => Or.inr hnothing
    · constructor
      · exact fun h _ => Or.inl h
      · intro h
        rcases h hrestores with h | h
        · exact h
        · exact absurd (h i hi hin) hleft

/-- **From every attempt on**, the terminal string tells the truth exactly where the condition
holds: the induction is on the revisions still allowed, along the trail. -/
theorem loop_tellsTruth_iff (hdeploys : d.Deploys) (hn : d.Reached attempts n)
    (htrail : d.Trail attempts initial n env) :
    d.TellsTruth initial (d.loop attempts n env) ↔ d.Restorable attempts initial := by
  induction hrounds : d.maxGateRounds - n using Nat.strongRecOn generalizing n env with
  | ind k ih =>
    cases hcompletes : (attempts n).completes with
    | false =>
      obtain ⟨e, he⟩ : ∃ e, (d.loop attempts n env).1 = .error e := loop_of_raised hcompletes
      have hraised : d.loop attempts n env = (.error e, (d.loop attempts n env).2) :=
        Prod.ext he rfl
      rw [hraised]
      refine iff_of_false (not_tellsTruth_error hdeploys) fun h => ?_
      rw [h.1 n hn] at hcompletes
      cases hcompletes
    | true =>
      cases hfails : (attempts n).fails with
      | false =>
        have hstops : ¬d.GoesOn attempts n := fun h => by
          rw [h.1.2] at hfails
          cases hfails
        have hdeployed : d.loop attempts n env =
            (.ok ("deployed:" ++ d.prUrl), (d.loop attempts n env).2) :=
          Prod.ext (loop_of_deployed hcompletes hfails) rfl
        rw [hdeployed, restorable_iff_of_stops hn hstops]
        refine iff_of_true (tellsTruth_ok (Or.inl rfl)) ⟨hcompletes, fun h => ?_⟩
        rw [h] at hfails
        cases hfails
      | true =>
        rw [loop_of_failed hcompletes hfails]
        split
        · rename_i hrevise
          have hnext : d.Reached attempts (n + 1) := by
            refine ⟨by omega, fun i hi hin => ?_⟩
            rcases Nat.lt_succ_iff_lt_or_eq.mp hin with hlt | rfl
            · exact hn.2 i hi hlt
            · exact ⟨⟨hcompletes, hfails⟩, hrevise⟩
          exact ih (d.maxGateRounds - (n + 1)) (by omega) hnext (htrail.left hn.1) rfl
        · rename_i hstop
          have hstops : ¬d.GoesOn attempts n := fun h => hstop h.2
          rw [restorable_iff_of_stops hn hstops, failed_tellsTruth_iff htrail]
          simp only [hcompletes, hfails, true_and, forall_const]

/-- **The terminal string of the deploy step tells the truth exactly when** every attempt completes,
and a last attempt that fails and can be rolled back comes after attempts that left nothing, unless
the plan's version was run in the beginning. -/
theorem tellsTruth_iff (d : DeployStep) (attempts : ℕ → Attempt) (initial : Environment) :
    d.TellsTruth initial (d.run attempts initial) ↔
      (d.Deploys → d.Restorable attempts initial) := by
  by_cases hdeploys : d.Deploys
  · have hrun : d.run attempts initial = d.loop attempts 1 initial := by
      rw [run, if_neg]
      rw [hdeploys.1, hdeploys.2]
      simp
    have hfirst : d.Reached attempts 1 := ⟨le_refl 1, fun i hi hlt => by omega⟩
    have htrail : d.Trail attempts initial 1 initial :=
      Or.inl ⟨rfl, fun i hi hlt => by omega⟩
    rw [hrun, loop_tellsTruth_iff hdeploys hfirst htrail]
    exact ⟨fun h _ => h, fun h => h hdeploys⟩
  · have hrun : d.run attempts initial = (.ok ("merged-not-deployed:" ++ d.prUrl), initial) := by
      rw [run, if_pos]
      rw [Deploys, not_and_or, Bool.not_eq_true, Bool.not_eq_true] at hdeploys
      exact hdeploys
    rw [hrun]
    refine iff_of_true ⟨fun h => rfl, fun h => absurd h hdeploys⟩ fun h => absurd h hdeploys

end DeployStep

/-! ## Rolled back to the version being deployed -/

/-- A deployment of `v2`, with two rounds. -/
def twoRounds : DeployStep where
  cfg := { enabled := true }
  maxGateRounds := 2
  deployPlan := some { environment := "staging", version := "v2" }
  prUrl := "https://git/pull/7"
  gate := { gate := "deploy", outcome := .approve, decidedBy := .human }

/-- A check that could not be evaluated. -/
def unreachable : SmokeCheckResult where
  name := "liveness"
  state := .errored
  detail := "no response from http://localhost:8000/health within 10s"

/-- A first attempt whose apply fails when `v2` is up, and whose rollback fails as well; then, after
a revision, one whose check does not get an answer. -/
def secondRollback (n : ℕ) : Attempt :=
  if n = 1 then
    { apply := .error { cause := .raised, text := "deploy failed (1): unhealthy" }
      applied := true
      rollback := .error { cause := .raised, text := "rollback failed (1): registry unreachable" }
      decision := { gate := "deploy_failed", outcome := .revise, decidedBy := .human } }
  else
    { smokeCheck := .ok { results := [unreachable] }
      decision := { gate := "deploy_failed", round := 2, outcome := .approve, decidedBy := .human } }

/-- **The step says `rolled-back:` and `v2` is run**, where `v1` was run before it. -/
theorem rolled_back_to_the_plan :
    twoRounds.run secondRollback (some { text := "v1" }) =
        (.ok "rolled-back:https://git/pull/7", some { text := "v2" }) ∧
      ¬twoRounds.TellsTruth (some { text := "v1" })
        (twoRounds.run secondRollback (some { text := "v1" })) := by
  have hrun : twoRounds.run secondRollback (some { text := "v1" }) =
      (.ok "rolled-back:https://git/pull/7", some { text := "v2" }) := by
    rw [DeployStep.run, if_neg (by decide +kernel),
      DeployStep.loop_of_failed (by decide +kernel) (by decide +kernel), if_pos (by decide +kernel),
      DeployStep.loop_of_failed (by decide +kernel) (by decide +kernel), if_neg (by decide +kernel)]
    decide +kernel
  refine ⟨hrun, fun h => ?_⟩
  rw [hrun] at h
  have hversion := h.restored (Or.inl rfl)
  revert hversion
  decide

end Kroker.Deploy
