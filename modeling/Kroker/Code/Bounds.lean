import Kroker.Code.Step

/-!
# The fix loop is bounded

Three counters bound the loop: `budget` the attempts without a human, `gate_round` the rounds with
one, and `asked` the approvals within an attempt.  A human's revision sets `budget` to one more
attempt, so neither counter alone bounds the attempts; what does is `left`, the attempts that are
still possible.
-/

namespace Kroker.Code

/-! ## 1. What is left to do -/

/-- The limits as counts: a negative limit is zero. -/
def StepInput.fixesMax (inp : StepInput) : ℕ := inp.cfg.maxFixAttempts.toNat

def StepInput.roundsMax (inp : StepInput) : ℕ := inp.cfg.maxGateRounds.toNat

def StepInput.approvalsMax (inp : StepInput) : ℕ := inp.cfg.maxToolEscalations.toNat

/-- An attempt is under way. -/
def Phase.working : Phase → Bool
  | .taskGate _ _ => false
  | .returned _ => false
  | .raised => false
  | _ => true

def Phase.atHarness : Phase → Bool
  | .harness _ _ _ => true
  | _ => false

def Phase.atTaskGate : Phase → Bool
  | .taskGate _ _ => true
  | _ => false

/-- The runs of the harness that are still possible in this attempt, the present one included. -/
def Phase.runsLeft (approvals : ℕ) : Phase → ℕ
  | .harness asked capped _ => 1 + if capped then 0 else approvals - asked + 1
  | .toolApproval asked _ => approvals - asked + 2
  | _ => 0

/-- The events that are still possible in this attempt. -/
def Phase.rank (approvals : ℕ) : Phase → ℕ
  | .harness asked capped grants => 6 + 2 * Phase.runsLeft approvals (.harness asked capped grants)
  | .toolApproval asked call => 7 + 2 * Phase.runsLeft approvals (.toolApproval asked call)
  | .driftCheck _ _ => 6
  | .testing _ => 5
  | .assessing _ => 4
  | .reviewing _ => 3
  | .opposing _ => 2
  | .taskGate _ _ => 1
  | .returned _ => 0
  | .raised => 0

/-- The attempts that are still possible. -/
def StepState.left (inp : StepInput) (s : StepState) : ℕ :=
  if s.phase.working then
    (s.budget - s.attempt).toNat + (inp.cfg.maxGateRounds - s.gateRound).toNat
  else if s.phase.atTaskGate ∧ (s.gateRound : ℤ) ≤ inp.cfg.maxGateRounds then
    1 + (inp.cfg.maxGateRounds - s.gateRound).toNat
  else 0

/-- What every event lowers. -/
def StepState.measure (inp : StepInput) (s : StepState) : ℕ :=
  s.left inp * (2 * inp.approvalsMax + 11) + s.phase.rank inp.approvalsMax

def Phase.run (p : Phase) : ℕ := if p.atHarness then 1 else 0

/-! ## 2. What an event does to the counters -/

/-- **What an event does to the counters.** -/
inductive Advance (inp : StepInput) (s s' : StepState) : Prop
  /-- The attempt goes on. -/
  | inside (hworking : s.phase.working = true) (hworking' : s'.phase.working = true)
      (hattempt : s'.attempt = s.attempt) (hbudget : s'.budget = s.budget)
      (hround : s'.gateRound = s.gateRound)
      (hrank : s'.phase.rank inp.approvalsMax < s.phase.rank inp.approvalsMax)
      (hruns : s'.phase.runsLeft inp.approvalsMax + s.phase.run ≤
        s.phase.runsLeft inp.approvalsMax)
  /-- The attempt ends at the task gate. -/
  | opens (hworking : s.phase.working = true) (hrun : s.phase.atHarness = false)
      (hrank : 2 ≤ s.phase.rank inp.approvalsMax) (hgate : s'.phase.atTaskGate = true)
      (hattempt : s'.attempt = s.attempt) (hround : s'.gateRound = s.gateRound + 1)
      (hbudget : s'.budget ≤ s.attempt)
  /-- The attempt ends, and the next begins on the budget. -/
  | retries (hworking : s.phase.working = true) (hrun : s.phase.atHarness = false)
      (hbudget : (s.attempt : ℤ) < s.budget) (hnext : s' = s.nextAttempt)
  /-- A human grants the next attempt. -/
  | revises (hgate : s.phase.atTaskGate = true) (hround : (s.gateRound : ℤ) ≤ inp.cfg.maxGateRounds)
      (hphase : s'.phase = .harness 0 false []) (hattempt : s'.attempt = s.attempt + 1)
      (hround' : s'.gateRound = s.gateRound) (hbudget : s'.budget = s.attempt + 1)
  /-- The step ends. -/
  | ends (hlive : s.phase.ended = false) (hended : s'.phase.ended = true)
      (hattempt : s'.attempt = s.attempt) (hround : s'.gateRound = s.gateRound)

section

variable {inp : StepInput} {s s' : StepState} {e : Event} {p : Phase} {k : ℕ}

theorem exists_of_atHarness (h : p.atHarness = true) :
    ∃ asked capped grants, p = .harness asked capped grants := by
  cases p with
  | harness asked capped grants => exact ⟨asked, capped, grants, rfl⟩
  | _ => exact nomatch h

theorem rank_harness (k asked : ℕ) (capped : Bool) (grants : List ToolGrant) :
    8 ≤ Phase.rank k (.harness asked capped grants) ∧
      1 ≤ Phase.runsLeft k (.harness asked capped grants) := by
  simp only [Phase.rank, Phase.runsLeft]
  omega

theorem rank_pos (h : p.ended = false) : 0 < p.rank k := by
  cases p with
  | harness asked capped grants => exact Nat.lt_of_lt_of_le (by decide) (rank_harness _ _ _ _).1
  | toolApproval asked call => exact Nat.lt_of_lt_of_le (by decide) (Nat.le_add_right 7 _)
  | returned result => exact nomatch h
  | raised => exact nomatch h
  | _ => simp [Phase.rank]

theorem rank_of_ended (h : p.ended = true) : p.rank k = 0 := by
  cases p with
  | returned result => rfl
  | raised => rfl
  | _ => exact nomatch h

theorem live_of_working (h : p.working = true) : p.ended = false := by
  cases p with
  | returned result => exact nomatch h
  | raised => exact nomatch h
  | _ => rfl

theorem live_of_atTaskGate (h : p.atTaskGate = true) : p.ended = false ∧ p.working = false := by
  cases p with
  | taskGate ev analysis => exact ⟨rfl, rfl⟩
  | _ => exact nomatch h

theorem Settles.exists_harness {run : HarnessRunResult} (h : Settles inp s e run) :
    ∃ asked capped grants, s.phase = .harness asked capped grants := by
  cases h with
  | ran hphase _ => exact ⟨_, _, _, hphase⟩
  | died hphase _ => exact ⟨_, _, _, hphase⟩

theorem Reviews.site {r : Reviewed} (h : Reviews inp s e r) (k : ℕ) :
    s.phase.working = true ∧ s.phase.atHarness = false ∧ 3 ≤ s.phase.rank k := by
  cases h with
  | off hphase _ => simp [hphase, Phase.working, Phase.atHarness, Phase.rank]
  | on hphase => simp [hphase, Phase.working, Phase.atHarness, Phase.rank]

theorem Concludes.site {ev : Evidence} (h : Concludes inp s e ev) (k : ℕ) :
    s.phase.working = true ∧ s.phase.atHarness = false ∧ 2 ≤ s.phase.rank k := by
  cases h with
  | unreached h _ =>
    obtain ⟨hworking, hrun, hrank⟩ := h.site k
    exact ⟨hworking, hrun, Nat.le_of_succ_le hrank⟩
  | off h _ _ =>
    obtain ⟨hworking, hrun, hrank⟩ := h.site k
    exact ⟨hworking, hrun, Nat.le_of_succ_le hrank⟩
  | on hphase => simp [hphase, Phase.working, Phase.atHarness, Phase.rank]

theorem Settles.advance {run : HarnessRunResult} (h : Settles inp s e run)
    (hworking : s'.phase.working = true) (hattempt : s'.attempt = s.attempt)
    (hbudget : s'.budget = s.budget) (hround : s'.gateRound = s.gateRound)
    (hrank : s'.phase.rank inp.approvalsMax ≤ 6)
    (hruns : s'.phase.runsLeft inp.approvalsMax = 0) : Advance inp s s' := by
  obtain ⟨asked, capped, grants, hphase⟩ := h.exists_harness
  obtain ⟨hle, hone⟩ := rank_harness inp.approvalsMax asked capped grants
  refine .inside ?_ hworking hattempt hbudget hround ?_ ?_
  · rw [hphase]
    rfl
  · rw [hphase]
    omega
  · rw [hruns, hphase, Nat.zero_add]
    exact hone

/-- **Every move advances the counters.** -/
theorem Move.advance (h : Move inp s e s') : Advance inp s s' := by
  cases h with
  | caps hphase _ hcap =>
    refine .inside ?_ rfl rfl rfl rfl ?_ ?_
    · rw [hphase]
      rfl
    · rw [hphase]
      simp only [Phase.rank, Phase.runsLeft, Bool.false_eq_true, if_false, if_true]
      omega
    · rw [hphase]
      simp only [Phase.run, Phase.runsLeft, Phase.atHarness, Bool.false_eq_true, if_false, if_true]
      omega
  | @asks run asked grants call hphase _ hcap =>
    have hlt : asked < inp.approvalsMax := by
      rw [StepInput.approvalsMax]
      omega
    refine .inside ?_ rfl rfl rfl rfl ?_ ?_
    · rw [hphase]
      rfl
    · rw [hphase]
      simp only [Phase.rank, Phase.runsLeft, Bool.false_eq_true, if_false]
      omega
    · rw [hphase]
      simp only [Phase.run, Phase.runsLeft, Phase.atHarness, Bool.false_eq_true, if_false, if_true]
      omega
  | grants hphase =>
    refine .inside ?_ rfl rfl rfl rfl ?_ ?_
    · rw [hphase]
      rfl
    · rw [hphase]
      simp only [Phase.rank, Phase.runsLeft, Bool.false_eq_true, if_false]
      omega
    · rw [hphase]
      simp only [Phase.run, Phase.runsLeft, Phase.atHarness, Bool.false_eq_true, if_false]
      omega
  | writes h _ => exact h.advance rfl rfl rfl rfl (Nat.le_succ 5) rfl
  | uncontained h _ _ => exact h.advance rfl rfl rfl rfl (Nat.le_succ 5) rfl
  | unanchored h _ _ => exact h.advance rfl rfl rfl rfl (Nat.le_succ 5) rfl
  | drifts h _ _ => exact h.advance rfl rfl rfl rfl (Nat.le_refl 6) rfl
  | drifted hphase =>
    refine .inside ?_ rfl rfl rfl rfl ?_ ?_
    · rw [hphase]
      rfl
    · rw [hphase]
      exact Nat.lt_succ_self 5
    · rw [hphase]
      exact Nat.le_refl 0
  | tested hphase =>
    refine .inside ?_ rfl rfl rfl rfl ?_ ?_
    · rw [hphase]
      rfl
    · rw [hphase]
      exact Nat.lt_succ_self 4
    · rw [hphase]
      exact Nat.le_refl 0
  | assessed hphase _ =>
    refine .inside ?_ rfl rfl rfl rfl ?_ ?_
    · rw [hphase]
      rfl
    · rw [hphase]
      exact Nat.lt_succ_self 3
    · rw [hphase]
      exact Nat.le_refl 0
  | opposes h _ _ =>
    obtain ⟨hworking, hrun, hrank⟩ := h.site inp.approvalsMax
    refine .inside hworking rfl rfl rfl rfl hrank ?_
    simp [Phase.runsLeft, Phase.run, hrun]
  | passes h _ => exact .ends (live_of_working (h.site 0).1) rfl rfl rfl
  | gates h _ hbudget =>
    obtain ⟨hworking, hrun, hrank⟩ := h.site inp.approvalsMax
    exact .opens hworking hrun hrank rfl rfl rfl hbudget
  | retries h _ _ hbudget => exact .retries (h.site 0).1 (h.site 0).2.1 hbudget rfl
  | revises hphase _ hround => exact .revises (by rw [hphase]; rfl) hround rfl rfl rfl rfl
  | decides hphase _ => exact .ends (by rw [hphase]; rfl) rfl rfl rfl
  | raises hlive => exact .ends hlive rfl rfl rfl

/-! ## 3. The measure -/

theorem left_of_working (h : s.phase.working = true) :
    s.left inp = (s.budget - s.attempt).toNat + (inp.cfg.maxGateRounds - s.gateRound).toNat :=
  if_pos h

theorem left_of_atTaskGate (h : s.phase.atTaskGate = true) :
    s.left inp = if (s.gateRound : ℤ) ≤ inp.cfg.maxGateRounds then
      1 + (inp.cfg.maxGateRounds - s.gateRound).toNat else 0 := by
  rw [StepState.left, (live_of_atTaskGate h).2, if_neg Bool.false_ne_true]
  simp only [h, true_and]

theorem left_of_ended (h : s.phase.ended = true) : s.left inp = 0 := by
  have hworking : s.phase.working = false := by
    cases hworking : s.phase.working with
    | false => rfl
    | true => exact nomatch h.symm.trans (live_of_working hworking)
  have hgate : s.phase.atTaskGate = false := by
    cases hgate : s.phase.atTaskGate with
    | false => rfl
    | true => exact nomatch h.symm.trans (live_of_atTaskGate hgate).1
  simp [StepState.left, hworking, hgate]

/-- **No event raises the number of attempts made and left.** -/
theorem Advance.attempt_add_left_le (h : Advance inp s s') :
    s'.attempt + s'.left inp ≤ s.attempt + s.left inp := by
  cases h with
  | inside hworking hworking' hattempt hbudget hround =>
    rw [left_of_working hworking, left_of_working hworking', hattempt, hbudget, hround]
  | opens hworking _ _ hgate hattempt hround =>
    rw [left_of_working hworking, left_of_atTaskGate hgate, hattempt, hround]
    push_cast
    split <;> omega
  | retries hworking _ hbudget hnext =>
    subst hnext
    rw [left_of_working hworking, left_of_working (by rfl)]
    simp only [StepState.nextAttempt]
    omega
  | revises hgate hround hphase hattempt hround' hbudget =>
    rw [left_of_atTaskGate hgate, if_pos hround, left_of_working (by rw [hphase]; rfl), hattempt,
      hround', hbudget]
    omega
  | ends _ hended hattempt =>
    rw [left_of_ended hended, hattempt]
    omega

theorem measure_lt_of_left_lt (h : s'.left inp < s.left inp)
    (hphase : s'.phase = .harness 0 false []) : s'.measure inp < s.measure inp := by
  have hpaid := Nat.mul_le_mul_right (2 * inp.approvalsMax + 11) (Nat.succ_le_of_lt h)
  rw [Nat.succ_mul] at hpaid
  rw [StepState.measure, StepState.measure, hphase]
  simp only [Phase.rank, Phase.runsLeft, Bool.false_eq_true, if_false]
  omega

/-- **Every event lowers the measure.** -/
theorem Advance.measure_lt (h : Advance inp s s') : s'.measure inp < s.measure inp := by
  -- An event that ends no attempt costs one of the events of this one.
  have hrest : s'.attempt = s.attempt →
      s'.phase.rank inp.approvalsMax < s.phase.rank inp.approvalsMax →
      s'.measure inp < s.measure inp := by
    intro hattempt hrank
    have hle := h.attempt_add_left_le
    have hleft : s'.left inp ≤ s.left inp := by omega
    have hpaid := Nat.mul_le_mul_right (2 * inp.approvalsMax + 11) hleft
    rw [StepState.measure, StepState.measure]
    omega
  cases h with
  | inside _ _ hattempt _ _ hrank => exact hrest hattempt hrank
  | opens _ _ hrank hgate hattempt =>
    refine hrest hattempt (Nat.lt_of_lt_of_le ?_ hrank)
    cases hphase : s'.phase with
    | taskGate ev analysis => exact Nat.lt_succ_self 1
    | _ =>
      rw [hphase] at hgate
      exact nomatch hgate
  | retries hworking _ hbudget hnext =>
    subst hnext
    refine measure_lt_of_left_lt ?_ rfl
    rw [left_of_working hworking, left_of_working (by rfl)]
    simp only [StepState.nextAttempt]
    omega
  | revises hgate hround hphase hattempt hround' hbudget =>
    refine measure_lt_of_left_lt ?_ hphase
    rw [left_of_atTaskGate hgate, if_pos hround, left_of_working (by rw [hphase]; rfl), hattempt,
      hround', hbudget]
    omega
  | ends hlive hended hattempt =>
    refine hrest hattempt ?_
    rw [rank_of_ended hended]
    exact rank_pos hlive

end

/-! ## 4. The runs of the step -/

def opensTaskGate (x : Transition StepState Event) : Bool :=
  x.before.phase.working && x.after.phase.atTaskGate

/-- The transition is a run of the harness in attempt `n`. -/
def runsHarness (n : ℕ) (x : Transition StepState Event) : Bool :=
  decide (x.before.attempt = n) && x.before.phase.atHarness

/-- The runs of the harness begun in attempt `n`. -/
def harnessRuns (log : StepLog) (s : StepState) (n : ℕ) : ℕ :=
  log.countP (runsHarness n) + if s.attempt = n then s.phase.run else 0

/-- **What bounds a run.** -/
structure Bounded (inp : StepInput) (log : StepLog) (s : StepState) : Prop where
  attempts : s.attempt + s.left inp ≤ 1 + inp.fixesMax + inp.roundsMax
  past : ∀ x ∈ log, x.before.attempt ≤ s.attempt
  gates : log.countP opensTaskGate = s.gateRound
  rounds : s.gateRound + (if s.phase.working then 1 else 0) ≤ inp.roundsMax + 1
  runs : ∀ n, log.countP (runsHarness n) +
    (if s.attempt = n then s.phase.runsLeft inp.approvalsMax else 0) ≤ inp.approvalsMax + 2

section

variable {inp : StepInput} {s s' : StepState} {e : Event} {log : StepLog} {n : ℕ}

theorem bounded_init (inp : StepInput) : Bounded inp [] inp.init where
  attempts := by
    rw [left_of_working (by rfl)]
    simp only [StepInput.init, StepInput.fixesMax, StepInput.roundsMax]
    omega
  past := fun x hx => absurd hx List.not_mem_nil
  gates := rfl
  rounds := by simp [StepInput.init, Phase.working]
  runs := by
    intro n
    rw [List.countP_nil, Nat.zero_add]
    split
    · simp only [StepInput.init, Phase.runsLeft, Bool.false_eq_true, if_false]
      omega
    · exact Nat.zero_le _

theorem Bounded.countP_eq_zero (h : Bounded inp log s) (hn : s.attempt < n) :
    log.countP (runsHarness n) = 0 := by
  rw [List.countP_eq_zero]
  intro x hx hruns
  have hattempt := (Bool.and_eq_true_iff.mp hruns).1
  have hle := h.past x hx
  exact absurd (of_decide_eq_true hattempt) (by omega)

theorem countP_runsHarness (log : StepLog) (x : Transition StepState Event) (n : ℕ) :
    (x :: log).countP (runsHarness n) =
      log.countP (runsHarness n) + if x.before.attempt = n then x.before.phase.run else 0 := by
  rw [List.countP_cons, runsHarness, Phase.run]
  by_cases hattempt : x.before.attempt = n
  · simp [hattempt]
  · simp [hattempt]

theorem Bounded.runs_of_same (h : Bounded inp log s) (hattempt : s'.attempt = s.attempt)
    (hruns : s'.phase.runsLeft inp.approvalsMax + s.phase.run ≤
      s.phase.runsLeft inp.approvalsMax) (n : ℕ) :
    (⟨s, e, s'⟩ :: log : StepLog).countP (runsHarness n) +
      (if s'.attempt = n then s'.phase.runsLeft inp.approvalsMax else 0) ≤ inp.approvalsMax + 2 := by
  have hbound := h.runs n
  rw [countP_runsHarness, hattempt]
  dsimp only
  by_cases hn : s.attempt = n
  · rw [if_pos hn] at hbound ⊢
    rw [if_pos hn]
    omega
  · rw [if_neg hn] at hbound ⊢
    rw [if_neg hn]
    omega

theorem Bounded.runs_of_next (h : Bounded inp log s) (hattempt : s'.attempt = s.attempt + 1)
    (hphase : s'.phase = .harness 0 false []) (hrun : s.phase.run = 0) (n : ℕ) :
    (⟨s, e, s'⟩ :: log : StepLog).countP (runsHarness n) +
      (if s'.attempt = n then s'.phase.runsLeft inp.approvalsMax else 0) ≤ inp.approvalsMax + 2 := by
  rw [countP_runsHarness]
  dsimp only
  rw [hrun, ite_self, Nat.add_zero]
  split
  · rename_i hn
    rw [h.countP_eq_zero (by omega), hphase]
    simp only [Phase.runsLeft, Bool.false_eq_true, if_false]
    omega
  · exact Nat.le_trans (Nat.le_add_right _ _) (h.runs n)

theorem run_of_not_atHarness {p : Phase} (h : p.atHarness = false) : p.run = 0 := by
  rw [Phase.run, h, if_neg Bool.false_ne_true]

/-- **Every event keeps the bounds.** -/
theorem Bounded.step (h : Bounded inp log s) (hadvance : Advance inp s s') :
    Bounded inp (⟨s, e, s'⟩ :: log) s' := by
  have hattempts := Nat.le_trans hadvance.attempt_add_left_le h.attempts
  have hopens : (⟨s, e, s'⟩ :: log : StepLog).countP opensTaskGate =
      s.gateRound + if s.phase.working && s'.phase.atTaskGate then 1 else 0 := by
    rw [List.countP_cons, h.gates, opensTaskGate]
  have hpast : s.attempt ≤ s'.attempt →
      ∀ x ∈ (⟨s, e, s'⟩ :: log : StepLog), x.before.attempt ≤ s'.attempt := by
    intro hle x hx
    rcases List.mem_cons.mp hx with rfl | hx
    · exact hle
    · exact Nat.le_trans (h.past x hx) hle
  have hrounds := h.rounds
  cases hadvance with
  | inside hworking hworking' hattempt _ hround _ hruns =>
    refine ⟨hattempts, hpast (by omega), ?_, ?_, h.runs_of_same hattempt hruns⟩
    · have hgate : s'.phase.atTaskGate = false := by
        cases hgate : s'.phase.atTaskGate with
        | false => rfl
        | true => exact nomatch hworking'.symm.trans (live_of_atTaskGate hgate).2
      rw [hopens, hgate, hround, Bool.and_false, if_neg Bool.false_ne_true, Nat.add_zero]
    · rw [hround, hworking']
      rwa [hworking] at hrounds
  | opens hworking hrun _ hgate hattempt hround =>
    refine ⟨hattempts, hpast (by omega), ?_, ?_, h.runs_of_same hattempt ?_⟩
    · rw [hopens, hgate, hworking, hround]
      rfl
    · rw [hround, (live_of_atTaskGate hgate).2, if_neg Bool.false_ne_true, Nat.add_zero]
      rwa [hworking] at hrounds
    · rw [run_of_not_atHarness hrun]
      cases hphase : s'.phase with
      | taskGate ev analysis => exact Nat.zero_le _
      | _ =>
        rw [hphase] at hgate
        exact nomatch hgate
  | retries hworking hrun _ hnext =>
    subst hnext
    refine ⟨hattempts, hpast (Nat.le_succ _), ?_, ?_,
      h.runs_of_next rfl rfl (run_of_not_atHarness hrun)⟩
    · rw [hopens]
      simp [StepState.nextAttempt, Phase.atTaskGate]
    · rwa [hworking] at hrounds
  | revises hgate hround hphase hattempt hround' =>
    have hrun : s.phase.run = 0 := by
      refine run_of_not_atHarness ?_
      cases hharness : s.phase.atHarness with
      | false => rfl
      | true =>
        obtain ⟨asked, capped, grants, hphase⟩ := exists_of_atHarness hharness
        rw [hphase] at hgate
        exact nomatch hgate
    refine ⟨hattempts, hpast (by omega), ?_, ?_, h.runs_of_next hattempt hphase hrun⟩
    · rw [hopens, hround', (live_of_atTaskGate hgate).2]
      rfl
    · rw [hround', hphase, StepInput.roundsMax]
      simp only [Phase.working, if_true]
      omega
  | ends hlive hended hattempt hround =>
    have hgate : s'.phase.atTaskGate = false := by
      cases hgate : s'.phase.atTaskGate with
      | false => rfl
      | true => exact nomatch hended.symm.trans (live_of_atTaskGate hgate).1
    have hworking : s'.phase.working = false := by
      cases hworking : s'.phase.working with
      | false => rfl
      | true => exact nomatch hended.symm.trans (live_of_working hworking)
    refine ⟨hattempts, hpast (by omega), ?_, ?_, h.runs_of_same hattempt ?_⟩
    · rw [hopens, hgate, hround, Bool.and_false, if_neg Bool.false_ne_true, Nat.add_zero]
    · rw [hround, hworking, if_neg Bool.false_ne_true]
      exact Nat.le_trans (Nat.add_le_add_left (Nat.zero_le _) _) hrounds
    · have hleft : s'.phase.runsLeft inp.approvalsMax = 0 := by
        cases hphase : s'.phase with
        | returned result => rfl
        | raised => rfl
        | _ =>
          rw [hphase] at hended
          exact nomatch hended
      rw [hleft, Nat.zero_add, Phase.run]
      split
      · rename_i hharness
        obtain ⟨asked, capped, grants, hphase⟩ := exists_of_atHarness hharness
        rw [hphase]
        exact (rank_harness _ _ _ _).2
      · exact Nat.zero_le _

/-- **Every run is bounded.** -/
theorem bounded_of_run (run : Run inp.init inp.next log s) : Bounded inp log s :=
  run.induct (bounded_init inp) fun _ _ _ _ _ h accepted => h.step (move_of_next accepted).advance

theorem Bounded.harnessRuns_le (h : Bounded inp log s) (n : ℕ) :
    harnessRuns log s n ≤ inp.approvalsMax + 2 := by
  have hrun : s.phase.run ≤ s.phase.runsLeft inp.approvalsMax := by
    rw [Phase.run]
    split
    · rename_i hharness
      obtain ⟨asked, capped, grants, hphase⟩ := exists_of_atHarness hharness
      rw [hphase]
      exact (rank_harness _ _ _ _).2
    · exact Nat.zero_le _
  have hbound := h.runs n
  rw [harnessRuns]
  split
  · rename_i hn
    rw [if_pos hn] at hbound
    omega
  · rename_i hn
    rwa [if_neg hn] at hbound

/-! ## 5. The end -/

/-- A bound on the events of a run. -/
def StepInput.eventsMax (inp : StepInput) : ℕ :=
  (inp.fixesMax + inp.roundsMax + 1) * (2 * inp.approvalsMax + 11)

theorem length_le_eventsMax (run : Run inp.init inp.next log s) : log.length ≤ inp.eventsMax := by
  have hlength := run.length_add_le (StepState.measure inp) fun s e s' _ accepted =>
    (move_of_next accepted).advance.measure_lt
  have hinit : inp.init.measure inp ≤ inp.eventsMax := by
    have hattempts := (bounded_init inp).attempts
    have hleft : inp.init.left inp ≤ inp.fixesMax + inp.roundsMax := by
      simp only [StepInput.init] at hattempts ⊢
      omega
    have hpaid := Nat.mul_le_mul_right (2 * inp.approvalsMax + 11) hleft
    have hrank : inp.init.phase.rank inp.approvalsMax ≤ 2 * inp.approvalsMax + 11 := by
      simp only [StepInput.init, Phase.rank, Phase.runsLeft, Bool.false_eq_true, if_false]
      omega
    rw [StepState.measure, StepInput.eventsMax, Nat.add_one_mul (inp.fixesMax + inp.roundsMax)]
    exact Nat.add_le_add hpaid hrank
  omega

theorem Move.event_of_raised (h : Move inp s e s') (hraised : s'.phase = .raised) : e = .raises := by
  cases h with
  | raises _ => rfl
  | _ => exact nomatch hraised

theorem exists_raises (run : Run inp.init inp.next log s) (h : s.phase = .raised) :
    ∃ x ∈ log, x.event = .raises := by
  cases run with
  | start => exact nomatch h
  | step run accepted =>
    exact ⟨_, List.mem_cons_self, (move_of_next accepted).event_of_raised h⟩

theorem exists_next (h : s.phase.ended = false) :
    ∃ e s', e ≠ .raises ∧ inp.next s e = some s' := by
  have haccepts : ∃ e, e ≠ .raises ∧ (inp.next s e).isSome = true := by
    cases hphase : s.phase with
    | harness asked capped grants =>
      exact ⟨.harnessed deadCrew, nofun, by simp [StepInput.next, hphase]⟩
    | toolApproval asked call =>
      exact ⟨.toolDecided { gate := "tool_approval", outcome := .reject, decidedBy := .timeout },
        nofun, by simp [StepInput.next, hphase]⟩
    | driftCheck run anchor => exact ⟨.drifted {}, nofun, by simp [StepInput.next, hphase]⟩
    | testing c =>
      exact ⟨.tested { testsPassed := true }, nofun, by simp [StepInput.next, hphase]⟩
    | assessing t =>
      refine ⟨.assessed { testsPassed := true }, nofun, ?_⟩
      simp only [StepInput.next, hphase]
      split <;> rfl
    | reviewing a => exact ⟨.reviewed none, nofun, by simp [StepInput.next, hphase]⟩
    | opposing r => exact ⟨.opposed .failed, nofun, by simp [StepInput.next, hphase]⟩
    | taskGate ev analysis =>
      exact ⟨.taskDecided { gate := "task", outcome := .reject, decidedBy := .timeout }, nofun,
        by simp [StepInput.next, hphase]⟩
    | returned result =>
      rw [hphase] at h
      exact nomatch h
    | raised =>
      rw [hphase] at h
      exact nomatch h
  obtain ⟨e, hraises, hsome⟩ := haccepts
  obtain ⟨s', accepted⟩ := Option.isSome_iff_exists.mp hsome
  exact ⟨e, s', hraises, accepted⟩

theorem exists_returned (run : Run inp.init inp.next log s) (h : s.phase ≠ .raised) :
    ∃ later s' result, Run inp.init inp.next (later ++ log) s' ∧ s'.phase = .returned result := by
  obtain ⟨_, s', run', ⟨⟨later, rfl⟩, hraised⟩, hended⟩ := Run.exists_finished
    (P := fun log' s' => (∃ later, log' = later ++ log) ∧ s'.phase ≠ .raised)
    (fun s' => s'.phase.ended = true) (StepState.measure inp)
    (fun log' s' _ hlater hlive => by
      obtain ⟨⟨later, rfl⟩, _⟩ := hlater
      obtain ⟨e, s'', hraises, accepted⟩ : ∃ e s'', e ≠ .raises ∧ inp.next s' e = some s'' :=
        exists_next (Bool.not_eq_true _ ▸ hlive)
      refine ⟨e, s'', accepted, ⟨⟨_ :: later, rfl⟩, ?_⟩, (move_of_next accepted).advance.measure_lt⟩
      exact fun hraised => hraises ((move_of_next accepted).event_of_raised hraised))
    run ⟨⟨[], rfl⟩, h⟩
  cases hphase : s'.phase with
  | returned result => exact ⟨later, s', result, run', hphase⟩
  | raised => exact absurd hphase hraised
  | _ =>
    rw [hphase] at hended
    exact nomatch hended

/-- **The fix loop is bounded**: at most `max (M + 1) 1 + max R 0` attempts, `max R 0 + 1` task
gates, and `max E 0 + 2` runs of the harness in each attempt. No run goes on for ever, and one in
which nothing awaited has raised leads to a result. -/
theorem fix_loop_bounded (run : Run inp.init inp.next log s) :
    (s.attempt : ℤ) ≤ max (inp.cfg.maxFixAttempts + 1) 1 + max inp.cfg.maxGateRounds 0 ∧
      (log.countP opensTaskGate : ℤ) ≤ max inp.cfg.maxGateRounds 0 + 1 ∧
      (∀ n, (harnessRuns log s n : ℤ) ≤ max inp.cfg.maxToolEscalations 0 + 2) ∧
      log.length ≤ inp.eventsMax ∧
      (s.phase.ended = false → ∃ e s', e ≠ .raises ∧ inp.next s e = some s') ∧
      (s.phase = .raised → ∃ x ∈ log, x.event = .raises) ∧
      (s.phase ≠ .raised → ∃ later s' result,
        Run inp.init inp.next (later ++ log) s' ∧ s'.phase = .returned result) := by
  have hbounded := bounded_of_run run
  refine ⟨?_, ?_, fun n => ?_, length_le_eventsMax run, exists_next, exists_raises run,
    exists_returned run⟩
  · have hattempts := hbounded.attempts
    simp only [StepInput.fixesMax, StepInput.roundsMax] at hattempts
    omega
  · have hrounds := hbounded.rounds
    rw [← hbounded.gates, StepInput.roundsMax] at hrounds
    omega
  · have hruns := hbounded.harnessRuns_le n
    rw [StepInput.approvalsMax] at hruns
    omega

end

/-! ## 6. Sample runs -/

/-- A failed round, with or without a suspended call. -/
def sampleRun (deferred : Option DeferredToolUse) : HarnessRunResult where
  harness := .claudeCode
  exitCode := 1
  summary := ""
  deferred := deferred

def sampleCall : DeferredToolUse where
  toolUseId := "t"
  tool := "Bash"
  inputDigest := "d"
  ruleId := "r"

/-- The limits at `limit`, and no lenses. -/
def sampleInput (limit : ℤ) : StepInput where
  cfg :=
    { maxFixAttempts := limit
      maxToolEscalations := limit
      maxGateRounds := limit
      reviewEnabled := false }
  taskId := "t1"

/-- The first run is suspended and capped; the second fails its tests. -/
def sampleScript : List Event :=
  [.harnessed (sampleRun (some sampleCall)), .harnessed (sampleRun none),
    .tested { testsPassed := false }, .assessed { testsPassed := false }]

def sampleView (p : StepLog × StepState) : ℕ × ℕ × ℕ :=
  (p.2.attempt, p.1.countP opensTaskGate, harnessRuns p.1 p.2 1)

theorem sample_accepted :
    (runScript (sampleInput (-1)).next ([], (sampleInput (-1)).init) sampleScript).map sampleView =
      some (1, 1, 2) := by decide +kernel

theorem fix_loop_bounded_sample : ∃ log s,
    Run (sampleInput (-1)).init (sampleInput (-1)).next log s ∧
      (log.countP opensTaskGate : ℤ) ≤ max (-1) 0 + 1 := by
  obtain ⟨p, hp, -⟩ := Option.map_eq_some_iff.mp sample_accepted
  exact ⟨p.1, p.2, Run.of_runScript Run.start hp,
    (fix_loop_bounded (Run.of_runScript Run.start hp)).2.1⟩

/-- **A negative limit is not a limit of that many.**  With limits of minus one, the first attempt
runs the harness twice, where one run would be the limit, and opens a task gate, where none would
be. -/
theorem fix_loop_exceeds : ∃ log s, Run (sampleInput (-1)).init (sampleInput (-1)).next log s ∧
    ¬ ((log.countP opensTaskGate : ℤ) ≤ (sampleInput (-1)).cfg.maxGateRounds + 1) ∧
    ¬ ((harnessRuns log s 1 : ℤ) ≤ (sampleInput (-1)).cfg.maxToolEscalations + 2) := by
  obtain ⟨p, hp, hview⟩ := Option.map_eq_some_iff.mp sample_accepted
  simp only [sampleView, Prod.mk.injEq] at hview
  obtain ⟨-, hgates, hruns⟩ := hview
  refine ⟨p.1, p.2, Run.of_runScript Run.start hp, ?_, ?_⟩
  · rw [hgates]
    decide
  · rw [hruns]
    decide

end Kroker.Code
