import Kroker.Code.Freeze

/-!
# A task is done only on evidence

The verdict of an attempt combines the test run, QA, the drift report and two lenses, on two exits
of the loop.  What was answered to the awaits of an attempt is read off the run (`Heard`), and
`Answers` says that a piece of evidence is what was answered in one attempt, and nothing else.

* `Asked` --- while an attempt is under way, the loop holds what was answered in this attempt.

## What is not a report

The adversary fails open: its report counts only when it has been recorded, and, if it rejects,
retained.  A rejection that is lost on the way is no report (`rejection_lost`).  The other calls
fail closed, by raising out of the step.
-/

namespace Kroker.Code

/-! ## 1. What an attempt is answered -/

/-- In attempt `n` the step was answered `e`. -/
def Heard (log : StepLog) (n : ℕ) (e : Event) : Prop :=
  ∃ x ∈ log, x.before.attempt = n ∧ x.event = e

def lastDecision (log : StepLog) : Option GateDecision :=
  log.findSome? fun x => match x.event with
    | .taskDecided d => some d
    | _ => none

/-- **The evidence is what was answered in attempt `n`.**  Drift that was found was reported by the
backstop; a lens has a report exactly when its call returned one. -/
structure Answers (log : StepLog) (n : ℕ) (ev : Evidence) : Prop where
  drifted : ∀ r, Heard log n (.drifted r) → r = ev.drift
  found : ev.drift.found = true → Heard log n (.drifted ev.drift)
  tested : ∀ r, Heard log n (.tested r) ↔ r = ev.qaRaw
  assessed : ∀ r, Heard log n (.assessed r) ↔ r = ev.qa
  reviewed : ∀ r, Heard log n (.reviewed (some r)) ↔ ev.review = some r
  opposed : ∀ r, (∃ call, Heard log n (.opposed call) ∧ runAdversary call = some r) ↔
    ev.adversary.report = some r

/-- **The evidence passes**: the tests passed, QA listed no issue, no drift was found, the
reviewer's report approves, and the adversary's approves or blocks nothing. -/
structure Evidence.Passes (ev : Evidence) : Prop where
  tests : ev.qaRaw.testsPassed = true
  qa : ev.qa.issues = []
  drift : ev.drift.found = false
  reviewer : ∀ r, ev.review = some r → r.approve = true
  adversary : ∀ r, ev.adversary.report = some r → r.approve = true ∨ r.blockingFindings = []

structure Evidence.LensesOn (inp : StepInput) (ev : Evidence) : Prop where
  reviewer : ev.review.isSome → inp.reviewerOn = true
  adversary : ev.adversary.report.isSome → inp.adversaryOn = true

theorem passes_iff {inp : StepInput} {ev : Evidence} (h : ev.LensesOn inp) :
    inp.passes ev = true ↔ ev.Passes := by
  have hreviewer : primaryAdmits (inp.reviewOutcome ev.toReviewed) = true ↔
      ∀ r, ev.review = some r → r.approve = true := primaryAdmits_classify h.reviewer
  have hadversary : backstopAdmits (inp.adversaryOutcome ev) = true ↔
      ∀ r, ev.adversary.report = some r → r.approve = true ∨ r.blockingFindings = [] :=
    backstopAdmits_classify h.adversary
  rw [StepInput.passes, Bool.and_eq_true_iff, StepInput.approves, Bool.and_eq_true_iff, hreviewer,
    hadversary, Assessed.taskPassed]
  constructor
  · rintro ⟨⟨htask, hreviewer⟩, hadversary⟩
    simp only [Bool.and_eq_true_iff, decide_eq_true_eq, Bool.not_eq_true'] at htask
    exact ⟨htask.1.1, htask.1.2, htask.2, hreviewer, hadversary⟩
  · rintro ⟨htests, hqa, hdrift, hreviewer, hadversary⟩
    refine ⟨⟨?_, hreviewer⟩, hadversary⟩
    rw [htests, hdrift]
    simp [hqa]

/-! ## 2. While the attempt is under way -/

/-- What has been answered, by phase. -/
def Phase.qaRaw? : Phase → Option QAReport
  | .assessing t => some t.qaRaw
  | .reviewing a => some a.qaRaw
  | .opposing r => some r.qaRaw
  | _ => none

def Phase.qa? : Phase → Option QAReport
  | .reviewing a => some a.qa
  | .opposing r => some r.qa
  | _ => none

def StepInput.review? (inp : StepInput) : Phase → Option (Option ReviewReport)
  | .opposing r => if inp.reviewerOn then some r.review else none
  | _ => none

/-- **The loop holds what was answered in this attempt**: these answers, and none from the
adversary. -/
structure Asked (log : StepLog) (n : ℕ) (drift : Option DriftReport) (qaRaw qa : Option QAReport)
    (review : Option (Option ReviewReport)) : Prop where
  drifted : ∀ r, Heard log n (.drifted r) → drift = some r
  found : ∀ d, drift = some d → d.found = true → Heard log n (.drifted d)
  tested : ∀ r, Heard log n (.tested r) ↔ qaRaw = some r
  assessed : ∀ r, Heard log n (.assessed r) ↔ qa = some r
  reviewed : ∀ r, Heard log n (.reviewed r) ↔ review = some r
  opposed : ∀ call, ¬ Heard log n (.opposed call)

/-- What is known of the run, by phase. -/
def Sound (inp : StepInput) (log : StepLog) (s : StepState) : Prop :=
  match s.phase with
  | .raised => True
  | .returned result => result.attempts = s.attempt ∧ ∃ ev, Answers log s.attempt ev ∧
      ev.LensesOn inp ∧ result.qa = some ev.qaRaw ∧ result.review = ev.review ∧
      result.lensOutcomes = [inp.reviewOutcome ev.toReviewed, inp.adversaryOutcome ev] ∧
      ((result.status = .done ∧ inp.passes ev = true) ∨ inp.passes ev = false ∧
        ∃ d, lastDecision log = some d ∧
          result.status = if d.approved then .done else .quarantined)
  | .taskGate ev _ => Answers log s.attempt ev ∧ ev.LensesOn inp ∧ inp.passes ev = false
  | .reviewing a => inp.reviewerOn = true ∧
      Asked log s.attempt (some a.drift) (some a.qaRaw) (some a.qa) none
  | .opposing r => inp.adversaryOn = true ∧ (r.review.isSome → inp.reviewerOn = true) ∧
      Asked log s.attempt (some r.drift) (some r.qaRaw) (some r.qa) (inp.review? (.opposing r))
  | p => Asked log s.attempt p.drift? p.qaRaw? p.qa? none

section

variable {inp : StepInput} {s s' : StepState} {e : Event} {log : StepLog} {n : ℕ}

theorem heard_cons_iff {e' : Event} :
    Heard (⟨s, e, s'⟩ :: log) s.attempt e' ↔ Heard log s.attempt e' ∨ e = e' := by
  constructor
  · rintro ⟨x, hx, hattempt, hevent⟩
    rcases List.mem_cons.mp hx with rfl | hx
    · exact Or.inr hevent
    · exact Or.inl ⟨x, hx, hattempt, hevent⟩
  · rintro (⟨x, hx, hheard⟩ | hevent)
    · exact ⟨x, List.mem_cons_of_mem _ hx, hheard⟩
    · exact ⟨_, List.mem_cons_self, rfl, hevent⟩

/-- The answer says nothing about the attempt's verdict. -/
def Event.silent : Event → Bool
  | .drifted _ => false
  | .tested _ => false
  | .assessed _ => false
  | .reviewed _ => false
  | .opposed _ => false
  | _ => true

theorem heard_of_silent {e' : Event} (hsilent : e.silent = true) (he' : e'.silent = false) :
    Heard (⟨s, e, s'⟩ :: log) s.attempt e' ↔ Heard log s.attempt e' := by
  rw [heard_cons_iff]
  refine or_iff_left fun h => ?_
  rw [h, he'] at hsilent
  exact nomatch hsilent

section Asked

variable {drift : Option DriftReport} {qaRaw qa : Option QAReport}
  {review : Option (Option ReviewReport)}

theorem Asked.silent (h : Asked log s.attempt drift qaRaw qa review) (hsilent : e.silent = true) :
    Asked (⟨s, e, s'⟩ :: log) s.attempt drift qaRaw qa review where
  drifted := fun r => by
    rw [heard_of_silent hsilent rfl]
    exact h.drifted r
  found := fun d => by
    rw [heard_of_silent hsilent rfl]
    exact h.found d
  tested := fun r => by
    rw [heard_of_silent hsilent rfl]
    exact h.tested r
  assessed := fun r => by
    rw [heard_of_silent hsilent rfl]
    exact h.assessed r
  reviewed := fun r => by
    rw [heard_of_silent hsilent rfl]
    exact h.reviewed r
  opposed := fun call => by
    rw [heard_of_silent hsilent rfl]
    exact h.opposed call

theorem Asked.unchecked {d : DriftReport} (h : Asked log n none qaRaw qa review)
    (hfound : d.found = false) : Asked log n (some d) qaRaw qa review where
  drifted := fun r hheard => nomatch h.drifted r hheard
  found := by
    intro d' heq hd
    rw [← Option.some.inj heq] at hd
    exact nomatch hfound.symm.trans hd
  tested := h.tested
  assessed := h.assessed
  reviewed := h.reviewed
  opposed := h.opposed

theorem Asked.check {d : DriftReport} (h : Asked log s.attempt none qaRaw qa review) :
    Asked (⟨s, .drifted d, s'⟩ :: log) s.attempt (some d) qaRaw qa review where
  drifted := by
    intro r hheard
    rcases heard_cons_iff.mp hheard with hheard | hevent
    · exact nomatch h.drifted r hheard
    · rw [Event.drifted.inj hevent]
  found := by
    intro d' heq _
    exact heard_cons_iff.mpr (Or.inr (congrArg Event.drifted (Option.some.inj heq)))
  tested := by simp [heard_cons_iff, h.tested]
  assessed := by simp [heard_cons_iff, h.assessed]
  reviewed := by simp [heard_cons_iff, h.reviewed]
  opposed := by simp [heard_cons_iff, h.opposed]

theorem Asked.test {report : QAReport} (h : Asked log s.attempt drift none qa review) :
    Asked (⟨s, .tested report, s'⟩ :: log) s.attempt drift (some report) qa review where
  drifted := by simpa [heard_cons_iff] using h.drifted
  found := by simpa [heard_cons_iff] using h.found
  tested := by simp [heard_cons_iff, h.tested]
  assessed := by simp [heard_cons_iff, h.assessed]
  reviewed := by simp [heard_cons_iff, h.reviewed]
  opposed := by simp [heard_cons_iff, h.opposed]

theorem Asked.assess {report : QAReport} (h : Asked log s.attempt drift qaRaw none review) :
    Asked (⟨s, .assessed report, s'⟩ :: log) s.attempt drift qaRaw (some report) review where
  drifted := by simpa [heard_cons_iff] using h.drifted
  found := by simpa [heard_cons_iff] using h.found
  tested := by simp [heard_cons_iff, h.tested]
  assessed := by simp [heard_cons_iff, h.assessed]
  reviewed := by simp [heard_cons_iff, h.reviewed]
  opposed := by simp [heard_cons_iff, h.opposed]

theorem Asked.hear {report : Option ReviewReport} (h : Asked log s.attempt drift qaRaw qa none) :
    Asked (⟨s, .reviewed report, s'⟩ :: log) s.attempt drift qaRaw qa (some report) where
  drifted := by simpa [heard_cons_iff] using h.drifted
  found := by simpa [heard_cons_iff] using h.found
  tested := by simp [heard_cons_iff, h.tested]
  assessed := by simp [heard_cons_iff, h.assessed]
  reviewed := by simp [heard_cons_iff, h.reviewed]
  opposed := by simp [heard_cons_iff, h.opposed]

end Asked

theorem asked_next (hpast : ∀ x ∈ log, x.before.attempt ≤ n) :
    Asked log (n + 1) none none none none := by
  have hnone : ∀ e, ¬ Heard log (n + 1) e := by
    rintro e ⟨x, hx, hattempt, -⟩
    have hle := hpast x hx
    omega
  exact ⟨fun r h => absurd h (hnone _), (fun d h => nomatch h), by simp [hnone], by simp [hnone],
    by simp [hnone], fun call => hnone _⟩

/-! ## 3. The verdict -/

theorem Answers.silent {ev : Evidence} (h : Answers log s.attempt ev) (hsilent : e.silent = true) :
    Answers (⟨s, e, s'⟩ :: log) s.attempt ev where
  drifted := fun r => by
    rw [heard_of_silent hsilent rfl]
    exact h.drifted r
  found := fun hfound => by
    rw [heard_of_silent hsilent rfl]
    exact h.found hfound
  tested := fun r => by
    rw [heard_of_silent hsilent rfl]
    exact h.tested r
  assessed := fun r => by
    rw [heard_of_silent hsilent rfl]
    exact h.assessed r
  reviewed := fun r => by
    rw [heard_of_silent hsilent rfl]
    exact h.reviewed r
  opposed := fun r => by
    rw [← h.opposed r]
    exact exists_congr fun call => and_congr_left fun _ => heard_of_silent hsilent rfl

theorem Sound.asked (h : Sound inp log s) (hunsettled : s.phase.unsettled = true) :
    Asked log s.attempt none none none none := by
  rw [Sound] at h
  split at h
  case h_6 =>
    cases hphase : s.phase with
    | harness asked capped grants =>
      rw [hphase] at h
      exact h
    | toolApproval asked call =>
      rw [hphase] at h
      exact h
    | driftCheck run anchor =>
      rw [hphase] at h
      exact h
    | _ =>
      rw [hphase] at hunsettled
      exact nomatch hunsettled
  all_goals
    rename_i hphase
    rw [hphase] at hunsettled
    exact nomatch hunsettled

theorem Sound.reviews {r : Reviewed} (h : Sound inp log s) (hreviews : Reviews inp s e r) :
    (r.review.isSome → inp.reviewerOn = true) ∧
      Asked (⟨s, e, s'⟩ :: log) s.attempt (some r.drift) (some r.qaRaw) (some r.qa)
        (inp.review? (.opposing r)) := by
  cases hreviews with
  | off hphase hoff =>
    rw [Sound, hphase] at h
    rw [StepInput.review?, hoff]
    exact ⟨(fun hsome => nomatch hsome), Asked.assess h⟩
  | on hphase =>
    rw [Sound, hphase] at h
    rw [StepInput.review?, h.1]
    exact ⟨fun _ => rfl, h.2.hear⟩

theorem Asked.answers {r : Reviewed} {call : LensCall} (hon : r.review.isSome → inp.reviewerOn = true)
    (h : Asked log n (some r.drift) (some r.qaRaw) (some r.qa) (inp.review? (.opposing r)))
    (hcall : call.report = none) : Answers log n { r with adversary := call } where
  drifted := fun d hd => (Option.some.inj (h.drifted d hd)).symm
  found := fun hfound => h.found r.drift rfl hfound
  tested := fun d => (h.tested d).trans ⟨fun hd => (Option.some.inj hd).symm, fun hd => by rw [hd]⟩
  assessed := fun d => (h.assessed d).trans ⟨fun hd => (Option.some.inj hd).symm, fun hd => by rw [hd]⟩
  reviewed := fun d => by
    rw [h.reviewed, StepInput.review?]
    cases hreviewer : inp.reviewerOn with
    | true => simp
    | false =>
      have hnone : r.review = none := by
        rw [hreviewer] at hon
        simpa using hon
      simp [hnone]
  opposed := fun d => by
    rw [hcall]
    exact iff_of_false (fun ⟨call, hheard, _⟩ => h.opposed call hheard) nofun

/-- **Where the adversary's site is left, the evidence is what was answered in the attempt.** -/
theorem Sound.concludes {ev : Evidence} (h : Sound inp log s) (hconcludes : Concludes inp s e ev) :
    Answers (⟨s, e, s'⟩ :: log) s.attempt ev ∧ ev.LensesOn inp := by
  cases hconcludes with
  | unreached hreviews _ =>
    obtain ⟨hon, hasked⟩ := h.reviews hreviews
    exact ⟨hasked.answers hon rfl, hon, (fun hsome => nomatch hsome)⟩
  | off hreviews _ _ =>
    obtain ⟨hon, hasked⟩ := h.reviews hreviews
    exact ⟨hasked.answers hon rfl, hon, (fun hsome => nomatch hsome)⟩
  | @on r call hphase =>
    rw [Sound, hphase] at h
    obtain ⟨hadversary, hon, hasked⟩ := h
    have hanswers : Answers log s.attempt { r with adversary := .notReached } :=
      hasked.answers hon rfl
    refine ⟨⟨?_, ?_, ?_, ?_, ?_, ?_⟩, hon, fun _ => hadversary⟩
    · simpa [heard_cons_iff] using hanswers.drifted
    · simpa [heard_cons_iff] using hanswers.found
    · simpa [heard_cons_iff] using hanswers.tested
    · simpa [heard_cons_iff] using hanswers.assessed
    · simpa [heard_cons_iff] using hanswers.reviewed
    · intro d
      constructor
      · rintro ⟨call', hheard, hrun⟩
        rcases heard_cons_iff.mp hheard with hheard | hevent
        · exact absurd hheard (hasked.opposed call')
        · rw [← hrun, ← Event.opposed.inj hevent]
          rfl
      · intro hreport
        exact ⟨call, heard_cons_iff.mpr (Or.inr rfl), hreport⟩

/-- **Every event keeps what is known.** -/
theorem Sound.step (h : Sound inp log s) (hpast : ∀ x ∈ log, x.before.attempt ≤ s.attempt)
    (hmove : Move inp s e s') : Sound inp (⟨s, e, s'⟩ :: log) s' := by
  have hpast' : ∀ x ∈ (⟨s, e, s'⟩ :: log : StepLog), x.before.attempt ≤ s.attempt := by
    intro x hx
    rcases List.mem_cons.mp hx with rfl | hx
    · exact Nat.le_refl _
    · exact hpast x hx
  cases hmove with
  | caps hphase _ _ => exact (h.asked (by rw [hphase]; rfl)).silent rfl
  | asks hphase _ _ => exact (h.asked (by rw [hphase]; rfl)).silent rfl
  | grants hphase => exact (h.asked (by rw [hphase]; rfl)).silent rfl
  | writes hsettles _ =>
    exact ((h.asked hsettles.unsettled).silent (by cases hsettles <;> rfl)).unchecked rfl
  | uncontained hsettles _ _ =>
    exact ((h.asked hsettles.unsettled).silent (by cases hsettles <;> rfl)).unchecked rfl
  | unanchored hsettles _ _ =>
    exact ((h.asked hsettles.unsettled).silent (by cases hsettles <;> rfl)).unchecked rfl
  | drifts hsettles _ _ => exact (h.asked hsettles.unsettled).silent (by cases hsettles <;> rfl)
  | drifted hphase => exact (h.asked (by rw [hphase]; rfl)).check
  | tested hphase =>
    rw [Sound, hphase] at h
    exact Asked.test h
  | assessed hphase hon =>
    rw [Sound, hphase] at h
    exact ⟨hon, Asked.assess h⟩
  | opposes hreviews _ hon => exact ⟨hon, h.reviews hreviews⟩
  | @passes _ ev hconcludes hpasses =>
    obtain ⟨hanswers, hon⟩ := h.concludes hconcludes
    exact ⟨rfl, ev, hanswers, hon, rfl, rfl, rfl, Or.inl ⟨rfl, hpasses⟩⟩
  | gates hconcludes hpasses _ =>
    obtain ⟨hanswers, hon⟩ := h.concludes hconcludes
    exact ⟨hanswers, hon, hpasses⟩
  | retries hconcludes _ _ _ => exact asked_next hpast'
  | revises hphase _ _ => exact asked_next hpast'
  | @decides ev analysis d hphase hfinal =>
    rw [Sound, hphase] at h
    obtain ⟨hanswers, hon, hpasses⟩ := h
    exact ⟨rfl, ev, hanswers.silent rfl, hon, rfl, rfl, rfl, Or.inr ⟨hpasses, d, rfl, rfl⟩⟩
  | raises _ => trivial

theorem sound_of_run (run : Run inp.init inp.next log s) : Sound inp log s := by
  have hinit : Sound inp [] inp.init := asked_next fun x hx => absurd hx List.not_mem_nil
  refine run.induct hinit fun log s e s' run h accepted => ?_
  exact h.step (bounded_of_run run).past (move_of_next accepted)

/-- **A task is done only on evidence.**  A result is `done` exactly when the evidence of its last
attempt passes or the last decision at a task gate approves; the evidence is what was answered in
that attempt, and the result's reports and lens outcomes are taken from it. -/
theorem done_only_on_evidence (run : Run inp.init inp.next log s) {result : TaskResult}
    (hresult : s.phase = .returned result) :
    result.attempts = s.attempt ∧ (result.status = .done ∨ result.status = .quarantined) ∧
      ∃ ev, Answers log result.attempts ev ∧
        (result.status = .done ↔
          ev.Passes ∨ ∃ d, lastDecision log = some d ∧ d.approved = true) ∧
        result.qa = some ev.qaRaw ∧ result.review = ev.review ∧
        ∃ reviewer adversary, result.lensOutcomes = [reviewer, adversary] ∧
          reviewer = inp.reviewOutcome ev.toReviewed ∧ adversary = inp.adversaryOutcome ev ∧
          (reviewer.presence = .present ↔ ∃ r, Heard log result.attempts (.reviewed (some r))) ∧
          (adversary.presence = .present ↔
            ∃ call, Heard log result.attempts (.opposed call) ∧ (runAdversary call).isSome) := by
  have hsound := sound_of_run run
  rw [Sound, hresult] at hsound
  obtain ⟨hattempts, ev, hanswers, hon, hqa, hreview, hlenses, hstatus⟩ := hsound
  rw [hattempts]
  refine ⟨rfl, ?_, ev, hanswers, ?_, hqa, hreview, _, _, hlenses, rfl, rfl, ?_, ?_⟩
  · rcases hstatus with ⟨hdone, -⟩ | ⟨-, d, -, hd⟩
    · exact Or.inl hdone
    · rw [hd]
      cases d.approved <;> simp
  · rw [← passes_iff hon]
    rcases hstatus with ⟨hdone, hpasses⟩ | ⟨hpasses, d, hlast, hd⟩
    · exact iff_of_true hdone (Or.inl hpasses)
    · rw [hd, hpasses, hlast]
      cases happroved : d.approved <;> simp [happroved]
  · have hpresent : (inp.reviewOutcome ev.toReviewed).presence = .present ↔
        inp.reviewerOn = true ∧ ev.review.isSome := classifyLens_present_iff
    rw [hpresent, and_iff_right_of_imp hon.reviewer, Option.isSome_iff_exists]
    exact exists_congr fun r => (hanswers.reviewed r).symm
  · have hpresent : (inp.adversaryOutcome ev).presence = .present ↔
        inp.adversaryOn = true ∧ ev.adversary.report.isSome := classifyLens_present_iff
    rw [hpresent, and_iff_right_of_imp hon.adversary, Option.isSome_iff_exists]
    simp only [← hanswers.opposed, Option.isSome_iff_exists]
    exact ⟨fun ⟨r, call, hheard, hrun⟩ => ⟨call, hheard, r, hrun⟩,
      fun ⟨call, hheard, r, hrun⟩ => ⟨r, call, hheard, hrun⟩⟩

end

/-! ## 4. Sample runs -/

/-- Both lenses are on. -/
def lensInput : StepInput where
  cfg := { adversarialReviewEnabled := true }
  taskId := "t1"

/-- A rejection with a blocking finding. -/
def rejection : ReviewReport where
  approve := false
  findings :=
    [{ assertion := "the totals add up"
       severity := .critical
       detail := "they do not" }]

/-- An attempt that passes until the adversary is asked, whose rejection is not recorded. -/
def lensScript : List Event :=
  [.harnessed (checkpointRun "c1"), .tested { testsPassed := true },
    .assessed { testsPassed := true }, .reviewed (some { approve := true }),
    .opposed (.reported rejection false false)]

/-- The same attempt, until the reviewer raises. -/
def raisingScript : List Event := lensScript.take 3 ++ [.raises]

/-- The result is `done`, no human decided, and the rejection was heard. -/
def lensView (p : StepLog × StepState) : Bool × Bool × Bool :=
  (match p.2.phase with
    | .returned result => decide (result.status = .done)
    | _ => false,
  (lastDecision p.1).isNone,
  p.1.any fun x => decide (x.before.attempt = p.2.attempt) && match x.event with
    | .opposed call => decide (call = .reported rejection false false)
    | _ => false)

theorem lens_accepted :
    (runScript lensInput.next ([], lensInput.init) lensScript).map lensView =
      some (true, true, true) := by decide +kernel

theorem raising_accepted :
    (runScript lensInput.next ([], lensInput.init) raisingScript).map
      (fun p => match p.2.phase with
        | .raised => true
        | _ => false) = some true := by decide +kernel

theorem exists_lost : ∃ log s result, Run lensInput.init lensInput.next log s ∧
    s.phase = .returned result ∧ result.status = .done ∧ lastDecision log = none ∧
      Heard log s.attempt (.opposed (.reported rejection false false)) := by
  obtain ⟨p, hp, hview⟩ := Option.map_eq_some_iff.mp lens_accepted
  simp only [lensView, Prod.mk.injEq] at hview
  obtain ⟨hdone, hlast, hheard⟩ := hview
  split at hdone
  · rename_i result hphase
    obtain ⟨x, hx, hcall⟩ := List.any_eq_true.mp hheard
    obtain ⟨hattempt, hcall⟩ := Bool.and_eq_true_iff.mp hcall
    refine ⟨p.1, p.2, result, Run.of_runScript Run.start hp, hphase, of_decide_eq_true hdone,
      Option.isNone_iff_eq_none.mp hlast, x, hx, of_decide_eq_true hattempt, ?_⟩
    split at hcall
    · rename_i call hevent
      rw [hevent, of_decide_eq_true hcall]
    · exact nomatch hcall
  · exact nomatch hdone

theorem done_only_on_evidence_sample : ∃ log s result, Run lensInput.init lensInput.next log s ∧
    s.phase = .returned result ∧ (result.status = .done ∨ result.status = .quarantined) := by
  obtain ⟨log, s, result, run, hphase, -⟩ := exists_lost
  exact ⟨log, s, result, run, hphase, (done_only_on_evidence run hphase).2.1⟩

/-- **A rejection can be lost.**  The adversary's agent rejects an attempt with a critical finding,
the report is not recorded, and the step returns `done` without a human; and where the reviewer
raises, the step returns neither `done` nor `quarantined`. -/
theorem rejection_lost :
    (∃ log s result, Run lensInput.init lensInput.next log s ∧ s.phase = .returned result ∧
      result.status = .done ∧ lastDecision log = none ∧
      (∃ recorded retained, Heard log s.attempt (.opposed (.reported rejection recorded retained))) ∧
      rejection.approve = false ∧ rejection.blockingFindings ≠ []) ∧
    ∃ log s, Run lensInput.init lensInput.next log s ∧ s.phase = .raised := by
  refine ⟨?_, ?_⟩
  · obtain ⟨log, s, result, run, hphase, hdone, hlast, hheard⟩ := exists_lost
    exact ⟨log, s, result, run, hphase, hdone, hlast, ⟨false, false, hheard⟩, rfl, by decide⟩
  · obtain ⟨p, hp, hview⟩ := Option.map_eq_some_iff.mp raising_accepted
    refine ⟨p.1, p.2, Run.of_runScript Run.start hp, ?_⟩
    cases hphase : p.2.phase with
    | raised => rfl
    | _ => simp [hphase] at hview

end Kroker.Code
