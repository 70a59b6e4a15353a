import Kroker.Gates.Host

/-!
# Whether an accepted decision decides

A gate should return the decision recorded under its key, whenever one was recorded before the gate
returns.  The wait loop looks for that decision only in a wait whose deadline is still ahead.  It is
overlooked when it arrives too late for such a wait: during the `EXPIRE` notification, during a
notification that outlasts the final deadline, or while the host reports the timeout.

`InTime` says of one transition that it is not one of these; `decision_kept` says that in a run of
such transitions every gate returns the recorded decision, and `decision_overlooked` is a run of
five events in which a human approves a gate that then returns the timeout's rejection.
-/

namespace Kroker

/-- In `_on_gate_decided`. -/
def Phase.isDeciding : Phase → Bool
  | .deciding _ => true
  | _ => false

namespace GateHost

/-- At a transition at which a gate returns: if the host has a decision under its key, that is the
decision returned. -/
def Kept (x : Transition GateHost GateEvent) : Prop :=
  ∀ i o r, x.event = .resumed i → x.before.openings[i]? = some o → o.phase = .deciding r →
    ∀ d, x.before.decisions[o.request.key]? = some d → r = .recorded d

/-- Whether a deadline of the gate's schedule is ahead when its notification ends, or it holds. -/
def deadlineAhead (now : ℤ) : Phase → Bool
  | .notifying _ rest expires => expires = none || rest.any (now < ·.1)
  | _ => true

/-- What a transition must not do for a recorded decision to be overlooked: no first decision for a
key arrives while a gate of that key reports its own, no gate that its policy decides is opened
under a key with a decision, and no notification ends with the gate's decision recorded and no
deadline ahead. -/
def InTime : Transition GateHost GateEvent → Prop
  | ⟨h, .signal d, _⟩ => gateKey d.gate d.round ∈ h.decisions ∨
      ∀ o ∈ h.openings, o.request.key = gateKey d.gate d.round → o.phase.isDeciding = false
  | ⟨_, .tick _, _⟩ => True
  | ⟨h, .opened q, _⟩ => q.immediate = none ∨ q.key ∉ h.decisions
  | ⟨h, .resumed i, _⟩ => ∀ o ∈ h.openings[i]?,
      o.request.key ∈ h.decisions → deadlineAhead h.now o.phase = true

instance (x : Transition GateHost GateEvent) : Decidable (InTime x) :=
  match x with
  | ⟨_, .signal _, _⟩ => inferInstanceAs (Decidable (_ ∨ _))
  | ⟨_, .tick _, _⟩ => inferInstanceAs (Decidable True)
  | ⟨_, .opened _, _⟩ => inferInstanceAs (Decidable (_ ∨ _))
  | ⟨_, .resumed _, _⟩ => inferInstanceAs (Decidable (∀ _ ∈ _, _))

def Unclaimed (h : GateHost) : Prop :=
  ∀ o ∈ h.openings, ∀ r, o.phase = .deciding r → (∀ d, r ≠ .recorded d) →
    o.request.key ∉ h.decisions

theorem proceed_eq_deciding {now : ℤ} {expires : Option ℤ} {rest : Schedule} {r : Resolution}
    (h : proceed now expires rest = .deciding r) : rest = [] ∧ expires ≠ none := by
  cases rest with
  | nil =>
    refine ⟨rfl, ?_⟩
    rintro rfl
    rw [proceed, if_pos rfl] at h
    cases h
  | cons e rest =>
    rw [proceed] at h
    split at h <;> cases h

theorem notMem_of_resume {h h' : GateHost} {i : ℕ} (hx : InTime ⟨h, .resumed i, h'⟩) {o : Opening}
    (ho : h.openings[i]? = some o) {r : Resolution}
    (hp : o.phase.resume o.request h.now h.decisions[o.request.key]? = some (.deciding r))
    (hr : ∀ d, r ≠ .recorded d) : o.request.key ∉ h.decisions := by
  cases hphase : o.phase with
  | announcing =>
    -- the schedule is not empty, so the loop does not end at once
    rw [hphase] at hp
    obtain ⟨rest, hrest⟩ := buildSchedule_eq_cons o.request.config
      o.request.settings.gateTimeoutHours h.now
    have hnil := (proceed_eq_deciding (Option.some.inj hp)).1
    rw [hrest] at hnil
    exact absurd hnil (by simp)
  | waiting due reason rest expires =>
    rw [hphase] at hp
    cases hd : h.decisions[o.request.key]? with
    | some d =>
      rw [hd] at hp
      simp only [Phase.resume, Option.some.injEq, Phase.deciding.injEq] at hp
      exact absurd hp.symm (hr d)
    | none => exact (Dict.notMem_iff_get? _ _).mpr hd
  | notifying reason rest expires =>
    rw [hphase] at hp
    obtain ⟨hnil, hsome⟩ := proceed_eq_deciding (Option.some.inj hp)
    intro hmem
    have hahead := hx o ho hmem
    rw [hphase, hnil, deadlineAhead, List.any_nil, Bool.or_false, decide_eq_true_eq] at hahead
    exact hsome hahead
  | holding =>
    rw [hphase] at hp
    obtain ⟨d, -, hp⟩ := Option.map_eq_some_iff.mp hp
    rw [Phase.deciding.injEq] at hp
    exact absurd hp.symm (hr d)
  | deciding r' =>
    rw [hphase] at hp
    exact Phase.noConfusion (Option.some.inj hp)
  | returned r' =>
    rw [hphase] at hp
    exact absurd hp (by simp [Phase.resume])

theorem unclaimed_next {h h' : GateHost} {e : GateEvent} (hx : InTime ⟨h, e, h'⟩)
    (hs : h.Unclaimed) (he : next h e = some h') : h'.Unclaimed := by
  intro o ho r hphase hr
  cases e with
  | signal d =>
    obtain rfl := Option.some.inj he
    rw [mem_decisions_submit]
    rintro (hmem | hkey)
    · exact hs o ho r hphase hr hmem
    · rcases hx with hd | hnone
      · exact hs o ho r hphase hr (hkey ▸ hd)
      · have hfalse := hnone o ho hkey.symm
        rw [hphase] at hfalse
        cases hfalse
  | tick elapsed =>
    obtain rfl := Option.some.inj he
    exact hs o ho r hphase hr
  | opened q =>
    obtain rfl := Option.some.inj he
    obtain ⟨j, hj⟩ := List.getElem?_of_mem ho
    show o.request.key ∉ (h.openGate q).decisions
    rw [decisions_openGate]
    rcases getElem?_openGate h q hj with hj | ⟨-, rfl⟩
    · exact hs o (List.mem_of_getElem? hj) r hphase hr
    · rcases hx with hnone | hnone
      · rw [hnone] at hphase
        cases hphase
      · exact hnone
  | resumed i =>
    obtain ⟨o', p, ho', hp, rfl⟩ := resume_eq_some he
    obtain ⟨j, hj⟩ := List.getElem?_of_mem ho
    rw [getElem?_moveTo h p ho'] at hj
    split at hj
    · obtain rfl := Option.some.inj hj
      obtain rfl : p = .deciding r := hphase
      exact notMem_of_resume (o := o') hx ho' hp hr
    · exact hs o (List.mem_of_getElem? hj) r hphase hr

/-! ## Two runs

The first is approved while the gate waits for its first deadline, the second during the `EXPIRE`
notification. -/

def lateApproval : GateDecision := { gate := "merge", outcome := .approve, decidedBy := .human }

def keptRun : List (Transition GateHost GateEvent) × GateHost :=
  (runScript next ([], { now := 0 }) [.opened { name := "merge" }, .resumed 0, .resumed 0,
    .signal lateApproval, .resumed 0, .resumed 0]).get (by decide +kernel)

def lateRun : List (Transition GateHost GateEvent) × GateHost :=
  (runScript next ([], { now := 0 }) [.opened { name := "merge" }, .resumed 0, .resumed 0,
    .tick 172800000000, .resumed 0, .resumed 0, .resumed 0, .signal lateApproval,
    .resumed 0]).get (by decide +kernel)

/-! ## The run -/

/-- **In a run whose events are all in time, every gate returns the decision recorded for it**, if
one was recorded before it returned. -/
theorem decision_kept {t : ℤ} {log : List (Transition GateHost GateEvent)} {h : GateHost}
    (run : HostRun t log h) (hlog : ∀ x ∈ log, InTime x) : ∀ x ∈ log, Kept x := by
  have hkept : ∀ x : Transition GateHost GateEvent, Reachable { now := t : GateHost } next x.before →
      x.before.Unclaimed → Kept x := by
    intro x hreach hs i o r he ho hphase d hd
    by_contra hne
    have hsound := sound_of_reachable hreach i o ho
    rw [hphase] at hsound
    refine hs o (List.mem_of_getElem? ho) r hphase ?_ ((Dict.mem_iff_get? _ _).mpr ⟨d, hd⟩)
    rintro d' rfl
    rw [hsound.2, Option.some.injEq] at hd
    exact hne (by rw [hd])
  have hboth := run.induct (P := fun log h => (∀ x ∈ log, InTime x) →
      h.Unclaimed ∧ ∀ x ∈ log, Kept x) ?_ ?_ hlog
  · exact hboth.2
  · exact fun _ => ⟨fun o ho => absurd ho (by simp), fun x hx => absurd hx (by simp)⟩
  · intro log h e h' run ih he hlog
    obtain ⟨hs, hold⟩ := ih fun x hx => hlog x (List.mem_cons_of_mem _ hx)
    refine ⟨unclaimed_next (hlog _ List.mem_cons_self) hs he, fun x hx => ?_⟩
    rcases List.mem_cons.mp hx with rfl | hx
    · exact hkept _ ⟨log, run⟩ hs
    · exact hold x hx

theorem decision_kept_sample : "merge#1" ∈ keptRun.2.decisions ∧ ∀ x ∈ keptRun.1, Kept x :=
  ⟨by decide +kernel, decision_kept
    (Run.start.of_runScript (Option.some_get _).symm : HostRun 0 keptRun.1 keptRun.2)
    (by decide +kernel)⟩

/-! ## Runs that are late -/

/-- **An accepted decision can be overlooked.**  A gate with the default timer has sent its reminder
and its escalation and is sending the `EXPIRE` notification when a human approves it; it returns the
timeout's rejection. -/
theorem decision_overlooked :
    ¬∀ log h, HostRun 0 log h → ∀ x ∈ log, Kept x := by
  intro hall
  have run : HostRun 0 lateRun.1 lateRun.2 := Run.start.of_runScript (Option.some_get _).symm
  have hnext : next lateRun.2 (.resumed 0) = some ((next lateRun.2 (.resumed 0)).get
    (by decide +kernel)) := (Option.some_get _).symm
  have ho : lateRun.2.openings[0]? = some ((lateRun.2.openings[0]?).get (by decide +kernel)) :=
    (Option.some_get _).symm
  have hkept := hall _ _ (run.step hnext) _ List.mem_cons_self 0 _ .expired rfl ho
    (by decide +kernel) { lateApproval with decidedAt := some (48 * hour) } (by decide +kernel)
  cases hkept

end GateHost

end Kroker
