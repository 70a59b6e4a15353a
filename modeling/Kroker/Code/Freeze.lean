import Kroker.Code.Bounds

/-!
# Test freeze across repairs

After its first attempt a task may not edit its tests, unless a human thaws them for one attempt.
The backstop compares the tests of a repair attempt with the anchor, the checkpoint of an attempt
that was free to write them.

Which attempts are thawed, and which checkpoints there are, is read off the run (`Thawed`,
`Checkpoint`), so that the flag and the anchor of the loop can be compared with what happened.

A repair attempt without an anchor is not held up: its drift report says `unavailable`, which is not
a finding.  Where such an attempt meets the task gate, the human reads it in the analysis.
-/

namespace Kroker.Code

/-! ## 1. What the run says -/

/-- A human grants another attempt and thaws its tests. -/
def Thaws (inp : StepInput) (x : Transition StepState Event) : Prop :=
  ∃ ev analysis d, x.before.phase = .taskGate ev analysis ∧ x.event = .taskDecided d ∧
    d.outcome = .revise ∧ (x.before.gateRound : ℤ) ≤ inp.cfg.maxGateRounds ∧ d.thawTests = true

/-- Attempt `n` is thawed: by the human who ended the attempt before it. -/
def Thawed (inp : StepInput) (log : StepLog) (n : ℕ) : Prop :=
  ∃ x ∈ log, Thaws inp x ∧ x.before.attempt + 1 = n

/-- The last run of the harness in attempt `n` left the checkpoint `sha`. -/
def Checkpoint (inp : StepInput) (log : StepLog) (n : ℕ) (sha : String) : Prop :=
  ∃ x ∈ log, x.before.attempt = n ∧
    ∃ run, Settles inp x.before x.event run ∧ run.commitSha = some sha

/-- Attempt `n` is a repair attempt. -/
def Repair (inp : StepInput) (log : StepLog) (n : ℕ) : Prop := 1 < n ∧ ¬ Thawed inp log n

/-- The drift of this attempt is what the backstop found against the anchor, or there is no anchor
and the report says so. -/
def Verified (log : StepLog) (s : StepState) (drift : DriftReport) : Prop :=
  (∃ a run, s.anchor = some a ∧ ∃ x ∈ log, x.before.attempt = s.attempt ∧
    x.before.phase = .driftCheck run a ∧ x.event = .drifted drift) ∨
  (s.anchor = none ∧ drift = unavailable)

/-- The attempt's drift is not known yet. -/
def Phase.unsettled : Phase → Bool
  | .harness _ _ _ => true
  | .toolApproval _ _ => true
  | .driftCheck _ _ => true
  | _ => false

/-- The attempt is being judged, or has been. -/
def Phase.judged : Phase → Bool
  | .harness _ _ _ => false
  | .toolApproval _ _ => false
  | .driftCheck _ _ => false
  | .raised => false
  | _ => true

def Phase.drift? : Phase → Option DriftReport
  | .testing c => some c.drift
  | .assessing t => some t.drift
  | .reviewing a => some a.drift
  | .opposing r => some r.drift
  | .taskGate ev _ => some ev.drift
  | _ => none

/-! ## 2. What the loop keeps -/

/-- **The freeze, as the loop keeps it.** -/
structure Frozen (inp : StepInput) (log : StepLog) (s : StepState) : Prop where
  attempt_pos : 1 ≤ s.attempt
  past : ∀ x ∈ log, Thaws inp x → x.before.attempt < s.attempt
  anchor : ∀ a, s.anchor = some a → ∃ n, (n = 1 ∨ Thawed inp log n) ∧ Checkpoint inp log n a
  thawed : s.phase.unsettled = true → (s.thawed = true ↔ Thawed inp log s.attempt)
  checking : ∀ run a, s.phase = .driftCheck run a → s.anchor = some a
  spent : s.phase.judged = true → s.thawed = false
  verified : s.phase.judged = true → Repair inp log s.attempt →
    ∃ drift, Verified log s drift ∧ ∀ d, s.phase.drift? = some d → d = drift

section

variable {inp : StepInput} {s s' : StepState} {e : Event} {log : StepLog}

theorem frozen_init (inp : StepInput) : Frozen inp [] inp.init where
  attempt_pos := Nat.le_refl 1
  past := fun _ hx => absurd hx List.not_mem_nil
  anchor := fun _ h => nomatch h
  thawed := fun _ => ⟨(fun h => nomatch h), fun ⟨_, hx, _⟩ => absurd hx List.not_mem_nil⟩
  checking := fun _ _ h => nomatch h
  spent := fun h => nomatch h
  verified := fun h => nomatch h

theorem Thawed.mono {n : ℕ} (h : Thawed inp log n) (x : Transition StepState Event) :
    Thawed inp (x :: log) n := by
  obtain ⟨y, hy, hthaws⟩ := h
  exact ⟨y, List.mem_cons_of_mem x hy, hthaws⟩

theorem Checkpoint.mono {n : ℕ} {a : String} (h : Checkpoint inp log n a)
    (x : Transition StepState Event) : Checkpoint inp (x :: log) n a := by
  obtain ⟨y, hy, hcheckpoint⟩ := h
  exact ⟨y, List.mem_cons_of_mem x hy, hcheckpoint⟩

theorem thawed_cons_iff {x : Transition StepState Event} {n : ℕ} (hn : n ≤ x.before.attempt) :
    Thawed inp (x :: log) n ↔ Thawed inp log n := by
  refine ⟨?_, fun h => h.mono x⟩
  rintro ⟨y, hy, hthaws, hattempt⟩
  rcases List.mem_cons.mp hy with rfl | hy
  · omega
  · exact ⟨y, hy, hthaws, hattempt⟩

theorem Frozen.thawed_next_iff (h : Frozen inp log s) :
    Thawed inp (⟨s, e, s'⟩ :: log) (s.attempt + 1) ↔ Thaws inp ⟨s, e, s'⟩ := by
  constructor
  · rintro ⟨y, hy, hthaws, hattempt⟩
    rcases List.mem_cons.mp hy with rfl | hy
    · exact hthaws
    · have hpast := h.past y hy hthaws
      omega
  · exact fun hthaws => ⟨_, List.mem_cons_self, hthaws, rfl⟩

theorem not_thaws_of_working (h : s.phase.working = true) : ¬ Thaws inp ⟨s, e, s'⟩ := by
  rintro ⟨ev, analysis, d, hphase, -⟩
  rw [show s.phase = .taskGate ev analysis from hphase] at h
  exact nomatch h

theorem working_of_unsettled {p : Phase} (h : p.unsettled = true) :
    p.working = true ∧ p.judged = false := by
  cases p with
  | harness asked capped grants => exact ⟨rfl, rfl⟩
  | toolApproval asked call => exact ⟨rfl, rfl⟩
  | driftCheck run anchor => exact ⟨rfl, rfl⟩
  | _ => exact nomatch h

theorem Settles.unsettled {run : HarnessRunResult} (h : Settles inp s e run) :
    s.phase.unsettled = true := by
  obtain ⟨asked, capped, grants, hphase⟩ := h.exists_harness
  rw [hphase]
  rfl

theorem Reviews.judged {r : Reviewed} (h : Reviews inp s e r) :
    s.phase.judged = true ∧ s.phase.drift? = some r.drift := by
  cases h with
  | off hphase _ =>
    rw [hphase]
    exact ⟨rfl, rfl⟩
  | on hphase =>
    rw [hphase]
    exact ⟨rfl, rfl⟩

theorem Concludes.judged {ev : Evidence} (h : Concludes inp s e ev) :
    s.phase.judged = true ∧ s.phase.drift? = some ev.drift := by
  cases h with
  | unreached h _ => exact h.judged
  | off h _ _ => exact h.judged
  | on hphase =>
    rw [hphase]
    exact ⟨rfl, rfl⟩

section

variable (h : Frozen inp log s)

include h

theorem Frozen.past_cons (hnot : ¬ Thaws inp ⟨s, e, s'⟩)
    (hattempt : s.attempt ≤ s'.attempt) :
    ∀ x ∈ (⟨s, e, s'⟩ :: log : StepLog), Thaws inp x → x.before.attempt < s'.attempt := by
  intro x hx hthaws
  rcases List.mem_cons.mp hx with rfl | hx
  · exact absurd hthaws hnot
  · exact Nat.lt_of_lt_of_le (h.past x hx hthaws) hattempt

theorem Frozen.anchor_cons (x : Transition StepState Event) :
    ∀ a, s.anchor = some a →
      ∃ n, (n = 1 ∨ Thawed inp (x :: log) n) ∧ Checkpoint inp (x :: log) n a := by
  intro a ha
  obtain ⟨n, hfree, hcheckpoint⟩ := h.anchor a ha
  exact ⟨n, hfree.imp_right (·.mono x), hcheckpoint.mono x⟩

theorem Frozen.unsettled (hunsettled : s.phase.unsettled = true)
    (hunsettled' : s'.phase.unsettled = true) (hattempt : s'.attempt = s.attempt)
    (hanchor : s'.anchor = s.anchor) (hthawed : s'.thawed = s.thawed)
    (hchecking : ∀ run a, s'.phase = .driftCheck run a → s'.anchor = some a) :
    Frozen inp (⟨s, e, s'⟩ :: log) s' := by
  have hnot : ¬ Thaws inp ⟨s, e, s'⟩ := not_thaws_of_working (working_of_unsettled hunsettled).1
  have hjudged : ¬ s'.phase.judged = true := by
    rw [(working_of_unsettled hunsettled').2]
    exact Bool.false_ne_true
  refine ⟨hattempt ▸ h.attempt_pos, h.past_cons hnot hattempt.ge, ?_, fun _ => ?_, hchecking,
    fun hj => absurd hj hjudged, fun hj => absurd hj hjudged⟩
  · rw [hanchor]
    exact h.anchor_cons _
  · rw [hthawed, hattempt, thawed_cons_iff (Nat.le_refl _)]
    exact h.thawed hunsettled

theorem Frozen.check {t : StepState} {c : Checked}
    (hattempt : t.attempt = s.attempt) (hnot : ¬ Thaws inp ⟨s, e, t.check c⟩)
    (hanchor : ∀ a, t.anchor = some a → ∃ n, (n = 1 ∨ Thawed inp (⟨s, e, t.check c⟩ :: log) n) ∧
      Checkpoint inp (⟨s, e, t.check c⟩ :: log) n a)
    (hverified : Repair inp log s.attempt →
      Verified (⟨s, e, t.check c⟩ :: log) (t.check c) c.drift) :
    Frozen inp (⟨s, e, t.check c⟩ :: log) (t.check c) where
  attempt_pos := hattempt ▸ h.attempt_pos
  past := h.past_cons hnot hattempt.ge
  anchor := hanchor
  thawed := fun hunsettled => nomatch hunsettled
  checking := fun _ _ hphase => nomatch hphase
  spent := fun _ => rfl
  verified := by
    rintro - ⟨hlt, hfrozen⟩
    have hrepair : Repair inp log s.attempt := by
      rw [show (t.check c).attempt = s.attempt from hattempt,
        thawed_cons_iff (Nat.le_refl _)] at hfrozen
      exact ⟨hattempt ▸ hlt, hfrozen⟩
    exact ⟨c.drift, hverified hrepair, fun d hd => (Option.some.inj hd).symm⟩

theorem Frozen.judge (hjudged : s.phase.judged = true)
    (hattempt : s'.attempt = s.attempt) (hanchor : s'.anchor = s.anchor)
    (hthawed : s'.thawed = s.thawed) (hunsettled' : s'.phase.unsettled = false)
    (hnot : ¬ Thaws inp ⟨s, e, s'⟩)
    (hdrift : ∀ d, s'.phase.drift? = some d → s.phase.drift? = some d) :
    Frozen inp (⟨s, e, s'⟩ :: log) s' where
  attempt_pos := hattempt ▸ h.attempt_pos
  past := h.past_cons hnot hattempt.ge
  anchor := by
    rw [hanchor]
    exact h.anchor_cons _
  thawed := fun hunsettled => nomatch hunsettled'.symm.trans hunsettled
  checking := by
    intro run a hphase
    rw [hphase] at hunsettled'
    exact nomatch hunsettled'
  spent := fun _ => hthawed.trans (h.spent hjudged)
  verified := by
    rintro - ⟨hlt, hfrozen⟩
    rw [hattempt, thawed_cons_iff (Nat.le_refl _)] at hfrozen
    obtain ⟨drift, hverified, hsame⟩ := h.verified hjudged ⟨hattempt ▸ hlt, hfrozen⟩
    refine ⟨drift, ?_, fun d hd => hsame d (hdrift d hd)⟩
    rw [Verified, hanchor, hattempt]
    refine hverified.imp_left ?_
    rintro ⟨a, run, ha, x, hx, hchecked⟩
    exact ⟨a, run, ha, x, List.mem_cons_of_mem _ hx, hchecked⟩

theorem Frozen.next {t : StepState} (hattempt : t.attempt = s.attempt)
    (hanchor : t.anchor = s.anchor)
    (hthawed : t.thawed = true ↔ Thaws inp ⟨s, e, t.nextAttempt⟩) :
    Frozen inp (⟨s, e, t.nextAttempt⟩ :: log) t.nextAttempt where
  attempt_pos := Nat.succ_pos _
  past := by
    intro x hx hthaws
    rw [StepState.nextAttempt, hattempt]
    rcases List.mem_cons.mp hx with rfl | hx
    · exact Nat.lt_succ_self _
    · exact Nat.lt_succ_of_lt (h.past x hx hthaws)
  anchor := by
    rw [show t.nextAttempt.anchor = s.anchor from hanchor]
    exact h.anchor_cons _
  thawed := by
    intro _
    rw [show t.nextAttempt.attempt = s.attempt + 1 from congrArg (· + 1) hattempt,
      h.thawed_next_iff]
    exact hthawed
  checking := fun _ _ hphase => nomatch hphase
  spent := fun hjudged => nomatch hjudged
  verified := fun hjudged => nomatch hjudged

theorem Frozen.free (hunsettled : s.phase.unsettled = true)
    (hfree : isRepairAttempt s.attempt s.thawed = false) :
    s.attempt = 1 ∨ Thawed inp log s.attempt := by
  have hpos := h.attempt_pos
  rw [isRepairAttempt, Bool.and_eq_false_iff] at hfree
  rcases hfree with hfirst | hthawed
  · have hle := of_decide_eq_false hfirst
    exact Or.inl (by omega)
  · exact Or.inr ((h.thawed hunsettled).mp (by simpa using hthawed))

theorem Frozen.repair_iff (hunsettled : s.phase.unsettled = true) :
    isRepairAttempt s.attempt s.thawed = true ↔ Repair inp log s.attempt := by
  rw [isRepairAttempt, Bool.and_eq_true_iff, decide_eq_true_iff, Repair, ← h.thawed hunsettled,
    Bool.not_eq_true', Bool.not_eq_true]

end

theorem nextAnchor_eq_some {current commitSha : Option String} {a : String}
    (h : nextAnchor current commitSha true = some a) : current = some a ∨ commitSha = some a := by
  cases commitSha with
  | none => exact Or.inl h
  | some sha =>
    rw [nextAnchor] at h
    split at h
    · exact Or.inr h
    · exact Or.inl h

/-- **Every event keeps the freeze.** -/
theorem Frozen.step (h : Frozen inp log s) (hon : inp.cfg.containmentEnabled = true)
    (hmove : Move inp s e s') : Frozen inp (⟨s, e, s'⟩ :: log) s' := by
  cases hmove with
  | caps hphase _ _ =>
    exact h.unsettled (by rw [hphase]; rfl) rfl rfl rfl rfl (fun _ _ hphase => nomatch hphase)
  | asks hphase _ _ =>
    exact h.unsettled (by rw [hphase]; rfl) rfl rfl rfl rfl (fun _ _ hphase => nomatch hphase)
  | grants hphase =>
    exact h.unsettled (by rw [hphase]; rfl) rfl rfl rfl rfl (fun _ _ hphase => nomatch hphase)
  | @writes _ run hsettles hfree =>
    have hunsettled := hsettles.unsettled
    refine h.check rfl (not_thaws_of_working (working_of_unsettled hunsettled).1) ?_ ?_
    · intro a ha
      rcases nextAnchor_eq_some ha with hcurrent | hcommit
      · exact h.anchor_cons _ a hcurrent
      · refine ⟨s.attempt, (h.free hunsettled hfree).imp_right (·.mono _), ?_⟩
        exact ⟨_, List.mem_cons_self, rfl, run, hsettles, hcommit⟩
    · intro hrepair
      exact nomatch hfree.symm.trans ((h.repair_iff hunsettled).mpr hrepair)
  | uncontained _ _ hoff => exact nomatch hoff.symm.trans hon
  | unanchored hsettles _ hanchor =>
    refine h.check rfl (not_thaws_of_working (working_of_unsettled hsettles.unsettled).1)
      (h.anchor_cons _) fun _ => ?_
    exact Or.inr ⟨hanchor, rfl⟩
  | drifts hsettles _ hanchor =>
    refine h.unsettled hsettles.unsettled rfl rfl rfl rfl fun run a hphase => ?_
    obtain ⟨-, rfl⟩ := Phase.driftCheck.inj hphase
    exact hanchor
  | @drifted run a report hphase =>
    refine h.check rfl (not_thaws_of_working (by rw [hphase]; rfl)) (h.anchor_cons _) fun _ => ?_
    exact Or.inl ⟨a, run, h.checking run a hphase, _, List.mem_cons_self, rfl, hphase, rfl⟩
  | tested hphase =>
    exact h.judge (by rw [hphase]; rfl) rfl rfl rfl rfl
      (not_thaws_of_working (by rw [hphase]; rfl)) (fun d hd => by rw [hphase]; exact hd)
  | assessed hphase _ =>
    exact h.judge (by rw [hphase]; rfl) rfl rfl rfl rfl
      (not_thaws_of_working (by rw [hphase]; rfl)) (fun d hd => by rw [hphase]; exact hd)
  | opposes hreviews _ _ =>
    exact h.judge hreviews.judged.1 rfl rfl rfl rfl (not_thaws_of_working (hreviews.site 0).1)
      (fun d hd => hreviews.judged.2.trans hd)
  | passes hconcludes _ =>
    exact h.judge hconcludes.judged.1 rfl rfl rfl rfl (not_thaws_of_working (hconcludes.site 0).1)
      (fun d hd => nomatch hd)
  | gates hconcludes _ _ =>
    exact h.judge hconcludes.judged.1 rfl rfl rfl rfl (not_thaws_of_working (hconcludes.site 0).1)
      (fun d hd => hconcludes.judged.2.trans hd)
  | retries hconcludes _ _ _ =>
    refine h.next rfl rfl (iff_of_false ?_ (not_thaws_of_working (hconcludes.site 0).1))
    rw [h.spent hconcludes.judged.1]
    exact Bool.false_ne_true
  | @revises ev analysis d hphase hrevise hround =>
    refine h.next rfl rfl ⟨fun hthaw => ?_, ?_⟩
    · exact ⟨ev, analysis, d, hphase, rfl, hrevise, hround, hthaw⟩
    · rintro ⟨_, _, d', _, hd, _, _, hthaw⟩
      obtain rfl : d = d' := Event.taskDecided.inj hd
      exact hthaw
  | @decides ev analysis d hphase hfinal =>
    refine h.judge (by rw [hphase]; rfl) rfl rfl rfl rfl ?_ (fun d hd => nomatch hd)
    rintro ⟨_, _, d', _, hd, hrevise, hround, _⟩
    obtain rfl : d = d' := Event.taskDecided.inj hd
    exact hfinal ⟨hrevise, hround⟩
  | raises hlive =>
    refine ⟨h.attempt_pos, h.past_cons ?_ (Nat.le_refl _), h.anchor_cons _, nofun, nofun, nofun, nofun⟩
    rintro ⟨_, _, _, _, hd, _⟩
    exact nomatch hd

/-- **What the loop keeps, it keeps in every run.** -/
theorem frozen_of_run (hon : inp.cfg.containmentEnabled = true)
    (run : Run inp.init inp.next log s) : Frozen inp log s :=
  run.induct (frozen_init inp) fun _ _ _ _ _ h accepted => h.step hon (move_of_next accepted)

/-! ## 3. What the human reads -/

theorem joinNonempty_pair (sep a b : String) :
    ∃ before, joinNonempty sep [a, b] = before ++ b := by
  by_cases hb : b = ""
  · subst hb
    exact ⟨_, (String.append_empty).symm⟩
  · by_cases ha : a = ""
    · refine ⟨"", ?_⟩
      rw [joinNonempty, ha, List.filter_cons_of_neg (by simp), List.filter_cons_of_pos (by simpa),
        List.filter_nil, joinWith, String.intercalate_singleton, String.empty_append]
    · refine ⟨a ++ sep, ?_⟩
      rw [joinNonempty, List.filter_cons_of_pos (by simpa), List.filter_cons_of_pos (by simpa),
        List.filter_nil, joinWith, String.intercalate_cons_cons, String.intercalate_singleton,
        String.append_assoc]

theorem driftNote_in_analysis (ev : Evidence) :
    ∃ before after, ev.analysis = before ++ driftNote ev.drift ++ after := by
  obtain ⟨before, hjoin⟩ := joinNonempty_pair "\n" (fixLoopIssues ev.qa ev.qaRaw ev.review none)
    (driftNote ev.drift)
  exact ⟨before, _, by rw [Evidence.analysis, hjoin]⟩

theorem analysis_of_run (run : Run inp.init inp.next log s) {ev : Evidence} {analysis : String}
    (hphase : s.phase = .taskGate ev analysis) : analysis = ev.analysis := by
  cases run with
  | start => exact nomatch hphase
  | step run accepted =>
    cases move_of_next accepted with
    | gates _ _ _ =>
      obtain ⟨rfl, rfl⟩ := Phase.taskGate.inj hphase
      rfl
    | _ => exact nomatch hphase

/-- **Tests stay frozen across repairs**, in every run with containment on: the anchor is the
checkpoint of attempt 1 or of a thawed attempt, the drift check compares with it, and the verdict
on a repair attempt, and the note at the task gate, rest on what that check found or on its being
unavailable. -/
theorem tests_stay_frozen (run : Run inp.init inp.next log s)
    (hon : inp.cfg.containmentEnabled = true) :
    (∀ a, s.anchor = some a →
      ∃ n, (n = 1 ∨ Thawed inp log n) ∧ Checkpoint inp log n a) ∧
    (s.phase.unsettled = true →
      (isRepairAttempt s.attempt s.thawed = true ↔ Repair inp log s.attempt)) ∧
    (∀ run a, s.phase = .driftCheck run a → s.anchor = some a) ∧
    (s.phase.judged = true → Repair inp log s.attempt →
      ∃ drift, Verified log s drift ∧ ∀ d, s.phase.drift? = some d → d = drift) ∧
    (∀ ev analysis, s.phase = .taskGate ev analysis →
      ∃ before after, analysis = before ++ driftNote ev.drift ++ after) := by
  have hfrozen := frozen_of_run hon run
  refine ⟨hfrozen.anchor, hfrozen.repair_iff, hfrozen.checking, hfrozen.verified, ?_⟩
  intro ev analysis hphase
  rw [analysis_of_run run hphase]
  exact driftNote_in_analysis ev

end

/-! ## 4. A sample run -/

/-- Containment is on, and the first failure goes to the human. -/
def frozenInput : StepInput where
  cfg :=
    { maxFixAttempts := 0
      containmentEnabled := true
      reviewEnabled := false }
  taskId := "t1"

/-- A round that leaves the checkpoint `sha`. -/
def checkpointRun (sha : String) : HarnessRunResult where
  harness := .claudeCode
  exitCode := 0
  summary := ""
  commitSha := some sha

/-- The first attempt fails its tests; the human grants a second without a thaw, and its tests have
not drifted. -/
def frozenScript : List Event :=
  [.harnessed (checkpointRun "c1"), .tested { testsPassed := false },
    .assessed { testsPassed := false },
    .taskDecided { gate := "task:t1", outcome := .revise, decidedBy := .human },
    .harnessed (checkpointRun "c2"), .drifted {}]

/-- **The second attempt is held against the first one's checkpoint**, not its own. -/
theorem frozen_accepted :
    (runScript frozenInput.next ([], frozenInput.init) frozenScript).map
      (fun p => (p.2.attempt, p.2.anchor)) = some (2, some "c1") := by decide +kernel

theorem tests_stay_frozen_sample : ∃ log s, Run frozenInput.init frozenInput.next log s ∧
    s.anchor = some "c1" ∧
      ∃ n, (n = 1 ∨ Thawed frozenInput log n) ∧ Checkpoint frozenInput log n "c1" := by
  obtain ⟨p, hp, hview⟩ := Option.map_eq_some_iff.mp frozen_accepted
  have run := Run.of_runScript Run.start hp
  have hanchor := (Prod.mk.inj hview).2
  exact ⟨p.1, p.2, run, hanchor, (tests_stay_frozen run rfl).1 "c1" hanchor⟩

end Kroker.Code
