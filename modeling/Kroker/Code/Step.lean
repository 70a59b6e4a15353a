import Kroker.Code.Models
import Kroker.Library.Run

/-!
# The fix loop of the code stage

`step` of `stages/code/step.py`: an attempt runs the harness (again after each tool approval),
checks test drift, runs the tests, and asks QA, the reviewer and the adversary; then the step
returns, makes another attempt with the issues, or asks a human at the task gate.

A state is the step between two of its awaits, and an event is the answer to what is awaited.  An
await may also raise, which ends the step without a result, except in two places: a crew child that
dies is a failed round (`crewDied`), and what the adversary raises is taken for agreement
(`runAdversary`).  The two activities of the drift check are one await, and so are the test run and
the diff.

The prompts, the sessions, the benchmark records and the trace events do not decide anything and are
left out, and so are the deep review, the handoff and the plan drift, which are computed for the
result when the verdict stands.
-/

namespace Kroker.Code

/-! ## 1. The state -/

/-- The limits and switches of `PipelineConfig` that the loop reads. -/
structure PipelineConfig where
  maxFixAttempts : ℤ := 2
  maxToolEscalations : ℤ := 3
  maxGateRounds : ℤ := 2
  containmentEnabled : Bool := false
  reviewEnabled : Bool := true
  adversarialReviewEnabled : Bool := false

/-- What a call of the step is given: an agent is only asked whether it is there. -/
structure StepInput where
  cfg : PipelineConfig := {}
  taskId : String
  branch : String := ""
  harness : HarnessKind := .claudeCode
  reviewerAgent : Bool := true
  adversaryAgent : Bool := true

/-- The reviewer's report is asked for. -/
def StepInput.reviewerOn (inp : StepInput) : Bool := inp.cfg.reviewEnabled && inp.reviewerAgent

/-- The adversary's report is asked for. -/
def StepInput.adversaryOn (inp : StepInput) : Bool :=
  inp.cfg.adversarialReviewEnabled && inp.adversaryAgent

structure TaskResult where
  taskId : String
  status : TaskStatus
  attempts : ℕ
  branch : String
  run : Option HarnessRunResult := none
  qa : Option QAReport := none
  review : Option ReviewReport := none
  lensOutcomes : List LensOutcome := []
  notes : String := ""

/-! What an attempt has shown so far. -/

structure Checked where
  run : HarnessRunResult
  drift : DriftReport

structure Tested extends Checked where
  qaRaw : QAReport

structure Assessed extends Tested where
  qa : QAReport

structure Reviewed extends Assessed where
  review : Option ReviewReport

/-- What the verdict of an attempt rests on. -/
structure Evidence extends Reviewed where
  adversary : LensCall

/-- The await points. -/
inductive Phase where
  /-- The harness runs; `asked` approvals so far, whether the cap is reached, and the grants it
  has. -/
  | harness (asked : ℕ) (capped : Bool) (grants : List ToolGrant)
  | toolApproval (asked : ℕ) (call : DeferredToolUse)
  | driftCheck (run : HarnessRunResult) (anchor : String)
  | testing (checked : Checked)
  | assessing (tested : Tested)
  | reviewing (assessed : Assessed)
  | opposing (reviewed : Reviewed)
  | taskGate (evidence : Evidence) (analysis : String)
  | returned (result : TaskResult)
  | raised

structure StepState where
  phase : Phase := .harness 0 false []
  attempt : ℕ := 1
  escalationRound : ℕ := 0
  budget : ℤ
  gateRound : ℕ := 0
  anchor : Option String := none
  thawed : Bool := false

/-- What becomes of the adversary's call: the agent's report may be lost where it is recorded or, if
it rejects, retained. -/
inductive AdversaryCall where
  | failed
  | reported (report : ReviewReport) (recorded retained : Bool)
  deriving DecidableEq

/-- `run_adversary` from the agent on: any failure returns nothing. -/
def runAdversary : AdversaryCall → Option ReviewReport
  | .failed => none
  | .reported report recorded retained =>
    if recorded && (report.approve || retained) then some report else none

inductive Event where
  | harnessed (run : HarnessRunResult)
  /-- The crew's child workflow fails. -/
  | crewDied
  | toolDecided (d : GateDecision)
  | drifted (report : DriftReport)
  | tested (report : QAReport)
  | assessed (report : QAReport)
  | reviewed (report : Option ReviewReport)
  | opposed (call : AdversaryCall)
  | taskDecided (d : GateDecision)
  /-- What is awaited raises. -/
  | raises

/-! ## 2. The verdict -/

def Assessed.taskPassed (a : Assessed) : Bool :=
  a.qaRaw.testsPassed && a.qa.issues = [] && !a.drift.found

def StepInput.reviewOutcome (inp : StepInput) (r : Reviewed) : LensOutcome :=
  classifyLens "reviewer" inp.cfg.reviewEnabled inp.reviewerAgent (.reached r.review)

def StepInput.adversaryOutcome (inp : StepInput) (e : Evidence) : LensOutcome :=
  classifyLens "adversary" inp.cfg.adversarialReviewEnabled inp.adversaryAgent e.adversary

/-- The condition of the adversary's run site. -/
def StepInput.approves (inp : StepInput) (r : Reviewed) : Bool :=
  r.taskPassed && primaryAdmits (inp.reviewOutcome r)

/-- `task_passed`, and both lenses admit the attempt. -/
def StepInput.passes (inp : StepInput) (e : Evidence) : Bool :=
  inp.approves e.toReviewed && backstopAdmits (inp.adversaryOutcome e)

/-- The result on either exit. -/
def StepInput.result (inp : StepInput) (s : StepState) (e : Evidence) (status : TaskStatus) :
    TaskResult where
  taskId := inp.taskId
  status := status
  attempts := s.attempt
  branch := inp.branch
  qa := some e.qaRaw
  review := e.review
  lensOutcomes := [inp.reviewOutcome e.toReviewed, inp.adversaryOutcome e]

/-- What the human at the task gate is told. -/
def Evidence.analysis (e : Evidence) : String :=
  joinNonempty "\n" [fixLoopIssues e.qa e.qaRaw e.review none, driftNote e.drift] ++
    if e.run.freezeVacuous then
      "\nNOTE: the test-freeze globs matched 0 files in this repo, so the freeze fenced nothing " ++
        "this attempt (likely an unfamiliar test layout)."
    else ""

/-! ## 3. The loop -/

namespace StepState

variable (inp : StepInput)

/-- The head of the loop. -/
def nextAttempt (s : StepState) : StepState :=
  { s with
    phase := .harness 0 false []
    attempt := s.attempt + 1 }

/-- The attempt's drift is known, and with it the thaw is spent. -/
def check (s : StepState) (c : Checked) : StepState :=
  { s with
    phase := .testing c
    thawed := false }

/-- The harness loop is left with `run`. -/
def settle (s : StepState) (run : HarnessRunResult) : StepState :=
  let repair := isRepairAttempt s.attempt s.thawed
  let anchor := nextAnchor s.anchor run.commitSha !repair
  let s := { s with anchor := anchor }
  if inp.cfg.containmentEnabled && repair then
    match anchor with
    | some a => { s with phase := .driftCheck run a }
    | none => s.check { run, drift := unavailable }
  else s.check { run, drift := {} }

/-- The grant that a capped run is given. -/
def capGrant (call : DeferredToolUse) : ToolGrant where
  toolUseId := call.toolUseId
  tool := call.tool
  inputDigest := call.inputDigest
  ruleId := call.ruleId
  approved := false
  reason := "escalation cap reached"

def grantOf (call : DeferredToolUse) (d : GateDecision) : ToolGrant where
  toolUseId := call.toolUseId
  tool := call.tool
  inputDigest := call.inputDigest
  ruleId := call.ruleId
  approved := d.approved
  reason := d.comments.getD ""

def ran (s : StepState) (run : HarnessRunResult) (asked : ℕ) (capped : Bool) : StepState :=
  match run.deferred with
  | none => s.settle inp run
  | some call =>
    if capped then s.settle inp run
    else if inp.cfg.maxToolEscalations ≤ asked then
      { s with phase := .harness asked true [capGrant call] }
    else
      { s with
        phase := .toolApproval (asked + 1) call
        escalationRound := s.escalationRound + 1 }

/-- `budget`, when the attempt has failed: no further attempt where drift was found, or where there
is nothing to say. -/
def budgetAfter (s : StepState) (e : Evidence) : ℤ :=
  if e.drift.found then s.attempt
  else if s.attempt < s.budget ∧ fixLoopIssues e.qa e.qaRaw e.review e.adversary.report = "" then
    s.attempt
  else s.budget

def fail (s : StepState) (e : Evidence) : StepState :=
  let s := { s with budget := s.budgetAfter e }
  if s.budget ≤ s.attempt then
    { s with
      phase := .taskGate e e.analysis
      gateRound := s.gateRound + 1 }
  else s.nextAttempt

/-- The adversary's site is behind. -/
def conclude (s : StepState) (e : Evidence) : StepState :=
  if inp.passes e then
    { s with phase := .returned { inp.result s e .done with run := some e.run } }
  else s.fail e

/-- The reviewer's site is behind. -/
def review (s : StepState) (r : Reviewed) : StepState :=
  if inp.approves r then
    if inp.adversaryOn then { s with phase := .opposing r }
    else s.conclude inp { r with adversary := .reached none }
  else s.conclude inp { r with adversary := .notReached }

/-- After the task gate. -/
def decided (s : StepState) (e : Evidence) (d : GateDecision) : StepState :=
  if d.outcome = .revise ∧ (s.gateRound : ℤ) ≤ inp.cfg.maxGateRounds then
    { s with
      budget := s.attempt + 1
      thawed := d.thawTests }.nextAttempt
  else
    { s with
      phase := .returned
        { inp.result s e (if d.approved then .done else .quarantined) with
          notes := d.comments.getD "" } }

end StepState

namespace StepInput

open StepState

variable (inp : StepInput)

def init : StepState := { budget := inp.cfg.maxFixAttempts + 1 }

/-- One event; `none` where it cannot occur. -/
def next (s : StepState) (e : Event) : Option StepState :=
  match s.phase, e with
  | .returned _, _ => none
  | .raised, _ => none
  | _, .raises => some { s with phase := .raised }
  | .harness asked capped _, .harnessed run => some (s.ran inp run asked capped)
  | .harness asked capped _, .crewDied =>
    if inp.harness = .crew then some (s.ran inp deadCrew asked capped) else none
  | .toolApproval asked call, .toolDecided d =>
    some { s with phase := .harness asked false [grantOf call d] }
  | .driftCheck run _, .drifted report => some (s.check { run, drift := report })
  | .testing c, .tested report => some { s with phase := .assessing { c with qaRaw := report } }
  | .assessing t, .assessed report =>
    if inp.reviewerOn then some { s with phase := .reviewing { t with qa := report } }
    else some (s.review inp { t with qa := report, review := none })
  | .reviewing a, .reviewed report => some (s.review inp { a with review := report })
  | .opposing r, .opposed call =>
    some (s.conclude inp { r with adversary := .reached (runAdversary call) })
  | .taskGate e _, .taskDecided d => some (s.decided inp e d)
  | _, _ => none

end StepInput

/-! ## 4. What an event does -/

abbrev StepLog := List (Transition StepState Event)

/-- The step is over. -/
def Phase.ended : Phase → Bool
  | .returned _ => true
  | .raised => true
  | _ => false

section Moves

variable (inp : StepInput) (s : StepState)

inductive Settles : Event → HarnessRunResult → Prop
  | ran {run : HarnessRunResult} {asked : ℕ} {capped : Bool} {grants : List ToolGrant}
      (hphase : s.phase = .harness asked capped grants)
      (hlast : run.deferred = none ∨ capped = true) : Settles (.harnessed run) run
  | died {asked : ℕ} {capped : Bool} {grants : List ToolGrant}
      (hphase : s.phase = .harness asked capped grants) (hcrew : inp.harness = .crew) :
      Settles .crewDied deadCrew

/-- The reviewer's site is left. -/
inductive Reviews : Event → Reviewed → Prop
  | off {t : Tested} {report : QAReport} (hphase : s.phase = .assessing t)
      (hoff : inp.reviewerOn = false) :
      Reviews (.assessed report) { t with qa := report, review := none }
  | on {a : Assessed} {report : Option ReviewReport} (hphase : s.phase = .reviewing a) :
      Reviews (.reviewed report) { a with review := report }

/-- The adversary's site is left. -/
inductive Concludes : Event → Evidence → Prop
  | unreached {e : Event} {r : Reviewed} (hreviews : Reviews inp s e r)
      (happroves : inp.approves r = false) : Concludes e { r with adversary := .notReached }
  | off {e : Event} {r : Reviewed} (hreviews : Reviews inp s e r)
      (happroves : inp.approves r = true) (hoff : inp.adversaryOn = false) :
      Concludes e { r with adversary := .reached none }
  | on {r : Reviewed} {call : AdversaryCall} (hphase : s.phase = .opposing r) :
      Concludes (.opposed call) { r with adversary := .reached (runAdversary call) }

/-- **What one event does**, with everything that is known when it does. -/
inductive Move : Event → StepState → Prop
  | caps {run : HarnessRunResult} {asked : ℕ} {grants : List ToolGrant} {call : DeferredToolUse}
      (hphase : s.phase = .harness asked false grants) (hcall : run.deferred = some call)
      (hcap : inp.cfg.maxToolEscalations ≤ asked) :
      Move (.harnessed run) { s with phase := .harness asked true [StepState.capGrant call] }
  | asks {run : HarnessRunResult} {asked : ℕ} {grants : List ToolGrant} {call : DeferredToolUse}
      (hphase : s.phase = .harness asked false grants) (hcall : run.deferred = some call)
      (hcap : (asked : ℤ) < inp.cfg.maxToolEscalations) :
      Move (.harnessed run)
        { s with
          phase := .toolApproval (asked + 1) call
          escalationRound := s.escalationRound + 1 }
  | grants {asked : ℕ} {call : DeferredToolUse} {d : GateDecision}
      (hphase : s.phase = .toolApproval asked call) :
      Move (.toolDecided d) { s with phase := .harness asked false [StepState.grantOf call d] }
  | writes {e : Event} {run : HarnessRunResult} (hsettles : Settles inp s e run)
      (hfree : isRepairAttempt s.attempt s.thawed = false) :
      Move e ({ s with anchor := nextAnchor s.anchor run.commitSha true }.check
        { run, drift := {} })
  | uncontained {e : Event} {run : HarnessRunResult} (hsettles : Settles inp s e run)
      (hrepair : isRepairAttempt s.attempt s.thawed = true)
      (hoff : inp.cfg.containmentEnabled = false) : Move e (s.check { run, drift := {} })
  | unanchored {e : Event} {run : HarnessRunResult} (hsettles : Settles inp s e run)
      (hrepair : isRepairAttempt s.attempt s.thawed = true) (hanchor : s.anchor = none) :
      Move e (s.check { run, drift := unavailable })
  | drifts {e : Event} {run : HarnessRunResult} {a : String} (hsettles : Settles inp s e run)
      (hrepair : isRepairAttempt s.attempt s.thawed = true) (hanchor : s.anchor = some a) :
      Move e { s with phase := .driftCheck run a }
  | drifted {run : HarnessRunResult} {a : String} {report : DriftReport}
      (hphase : s.phase = .driftCheck run a) :
      Move (.drifted report) (s.check { run, drift := report })
  | tested {c : Checked} {report : QAReport} (hphase : s.phase = .testing c) :
      Move (.tested report) { s with phase := .assessing { c with qaRaw := report } }
  | assessed {t : Tested} {report : QAReport} (hphase : s.phase = .assessing t)
      (hon : inp.reviewerOn = true) :
      Move (.assessed report) { s with phase := .reviewing { t with qa := report } }
  | opposes {e : Event} {r : Reviewed} (hreviews : Reviews inp s e r)
      (happroves : inp.approves r = true) (hon : inp.adversaryOn = true) :
      Move e { s with phase := .opposing r }
  | passes {e : Event} {ev : Evidence} (hconcludes : Concludes inp s e ev)
      (hpasses : inp.passes ev = true) :
      Move e { s with phase := .returned { inp.result s ev .done with run := some ev.run } }
  | gates {e : Event} {ev : Evidence} (hconcludes : Concludes inp s e ev)
      (hpasses : inp.passes ev = false) (hbudget : s.budgetAfter ev ≤ s.attempt) :
      Move e
        { s with
          phase := .taskGate ev ev.analysis
          budget := s.budgetAfter ev
          gateRound := s.gateRound + 1 }
  | retries {e : Event} {ev : Evidence} (hconcludes : Concludes inp s e ev)
      (hpasses : inp.passes ev = false) (hdrift : ev.drift.found = false)
      (hbudget : (s.attempt : ℤ) < s.budget) : Move e s.nextAttempt
  | revises {ev : Evidence} {analysis : String} {d : GateDecision}
      (hphase : s.phase = .taskGate ev analysis) (hrevise : d.outcome = .revise)
      (hround : (s.gateRound : ℤ) ≤ inp.cfg.maxGateRounds) :
      Move (.taskDecided d)
        { s with
          budget := s.attempt + 1
          thawed := d.thawTests }.nextAttempt
  | decides {ev : Evidence} {analysis : String} {d : GateDecision}
      (hphase : s.phase = .taskGate ev analysis)
      (hfinal : ¬ (d.outcome = .revise ∧ (s.gateRound : ℤ) ≤ inp.cfg.maxGateRounds)) :
      Move (.taskDecided d)
        { s with
          phase := .returned
            { inp.result s ev (if d.approved then .done else .quarantined) with
              notes := d.comments.getD "" } }
  | raises (hlive : s.phase.ended = false) : Move .raises { s with phase := .raised }

end Moves

section

variable {inp : StepInput} {s s' : StepState} {e : Event}

theorem nextAnchor_false (current commitSha : Option String) :
    nextAnchor current commitSha false = current := by
  cases commitSha with
  | none => rfl
  | some sha => simp [nextAnchor]

theorem lt_budgetAfter {ev : Evidence} (h : (s.attempt : ℤ) < s.budgetAfter ev) :
    s.budgetAfter ev = s.budget ∧ ev.drift.found = false := by
  rw [StepState.budgetAfter] at h ⊢
  split at h
  · exact absurd h (lt_irrefl _)
  · rename_i hdrift
    split at h
    · exact absurd h (lt_irrefl _)
    · rename_i hissues
      rw [if_neg hdrift, if_neg hissues]
      exact ⟨rfl, Bool.not_eq_true _ ▸ hdrift⟩

theorem move_settle {run : HarnessRunResult} (hsettles : Settles inp s e run) :
    Move inp s e (s.settle inp run) := by
  rw [StepState.settle]
  cases hrepair : isRepairAttempt s.attempt s.thawed with
  | false =>
    rw [Bool.and_false, if_neg Bool.false_ne_true]
    exact .writes hsettles hrepair
  | true =>
    simp only [Bool.not_true, nextAnchor_false]
    cases hon : inp.cfg.containmentEnabled with
    | false => exact .uncontained hsettles hrepair hon
    | true =>
      obtain ⟨phase, attempt, escalationRound, budget, gateRound, anchor, thawed⟩ := s
      cases anchor with
      | none => exact .unanchored hsettles hrepair rfl
      | some a => exact .drifts hsettles hrepair rfl

theorem move_ran {run : HarnessRunResult} {asked : ℕ} {capped : Bool} {grants : List ToolGrant}
    (hphase : s.phase = .harness asked capped grants) :
    Move inp s (.harnessed run) (s.ran inp run asked capped) := by
  rw [StepState.ran]
  cases hcall : run.deferred with
  | none => exact move_settle (.ran hphase (Or.inl hcall))
  | some call =>
    cases capped with
    | true => exact move_settle (.ran hphase (Or.inr rfl))
    | false =>
      dsimp only
      rw [if_neg Bool.false_ne_true]
      split
      · rename_i hcap
        exact .caps hphase hcall hcap
      · rename_i hcap
        exact .asks hphase hcall (not_le.mp hcap)

theorem move_conclude {ev : Evidence} (hconcludes : Concludes inp s e ev) :
    Move inp s e (s.conclude inp ev) := by
  rw [StepState.conclude]
  cases hpasses : inp.passes ev with
  | true => exact .passes hconcludes hpasses
  | false =>
    rw [if_neg Bool.false_ne_true, StepState.fail]
    dsimp only
    split
    · rename_i hbudget
      exact .gates hconcludes hpasses hbudget
    · rename_i hbudget
      obtain ⟨hsame, hdrift⟩ := lt_budgetAfter (not_le.mp hbudget)
      rw [hsame] at hbudget ⊢
      exact .retries hconcludes hpasses hdrift (not_le.mp hbudget)

theorem move_review {r : Reviewed} (hreviews : Reviews inp s e r) :
    Move inp s e (s.review inp r) := by
  rw [StepState.review]
  cases happroves : inp.approves r with
  | false => exact move_conclude (.unreached hreviews happroves)
  | true =>
    rw [if_pos rfl]
    cases hon : inp.adversaryOn with
    | false => exact move_conclude (.off hreviews happroves hon)
    | true => exact .opposes hreviews happroves hon

/-- **Every accepted event is one of the moves.** -/
theorem move_of_next (h : inp.next s e = some s') : Move inp s e s' := by
  unfold StepInput.next at h
  split at h
  case h_1 => exact nomatch h
  case h_2 => exact nomatch h
  case h_3 hreturned hraised =>
    cases h
    refine .raises ?_
    cases hphase : s.phase with
    | returned result => exact absurd hphase (hreturned result)
    | raised => exact absurd hphase hraised
    | _ => rfl
  case h_4 hphase => exact Option.some.inj h ▸ move_ran hphase
  case h_5 hphase =>
    split at h
    · rename_i hcrew
      exact Option.some.inj h ▸ move_settle (.died hphase hcrew)
    · exact nomatch h
  case h_6 hphase => exact Option.some.inj h ▸ .grants hphase
  case h_7 hphase => exact Option.some.inj h ▸ .drifted hphase
  case h_8 hphase => exact Option.some.inj h ▸ .tested hphase
  case h_9 hphase =>
    split at h
    · rename_i hon
      exact Option.some.inj h ▸ .assessed hphase hon
    · rename_i hoff
      exact Option.some.inj h ▸ move_review (.off hphase (Bool.not_eq_true _ ▸ hoff))
  case h_10 hphase => exact Option.some.inj h ▸ move_review (.on hphase)
  case h_11 hphase => exact Option.some.inj h ▸ move_conclude (.on hphase)
  case h_12 hphase =>
    have hs := Option.some.inj h
    rw [StepState.decided] at hs
    split at hs
    · rename_i hrevise
      exact hs ▸ .revises hphase hrevise.1 hrevise.2
    · rename_i hfinal
      exact hs ▸ .decides hphase hfinal
  case h_13 => exact nomatch h

end

end Kroker.Code
