import Kroker.Gates.Schedule
import Kroker.Library.Run

/-!
# The gate host

`GateHost` of `workflows/gates.py`: one workflow's gates, the decisions it has accepted, and the
gates it shows as pending.  The workflow is single-threaded, so it is modelled as a state with one
event for each thing that can happen between two awaits: a decision is signalled, the clock
advances, some caller opens a gate, or the await a gate stands at completes (`resumed`).

## Where a gate stands

`Phase` names the await points of `_gate`, in program order: the hook that announces it, the wait
for the next deadline, the notification of a deadline that passed, the wait without a deadline under
`HOLD`, the hook that reports the decision, and the return.  `Phase.resume` is what the code does
between one await and the next.

A wait whose deadline is not in the future times out at once, without looking at its condition:
`asyncio.wait_for` with a timeout of zero or less cancels a pending future.  This is how the
`OPENED` entry, whose deadline is the opening itself, always notifies.

`Phase.Sound` is what every reachable state keeps (`sound_of_reachable`).
-/

namespace Kroker

/-! ## 1. What a gate is asked -/

/-- The arguments of `_gate` that decide the outcome. -/
structure GateRequest where
  name : String
  settings : GateSettings := {}
  autoDecision : Option GateDecision := none
  round : ℕ := 1
  defaultPolicy : Option GatePolicy := none

/-- How a gate came to its decision. -/
inductive Resolution where
  /-- `OFF`: approved by policy. -/
  | policy
  /-- `SOFT`: the caller's automatic approval. -/
  | auto (d : GateDecision)
  /-- The decision the host has recorded under the gate's key. -/
  | recorded (d : GateDecision)
  /-- No decision within the timeout. -/
  | expired
  deriving DecidableEq

namespace GateRequest

variable (q : GateRequest)

/-- The key decisions for this gate are recorded under. -/
def key : String := gateKey q.name q.round

def config : GateConfig :=
  (q.settings.gates[q.name]?).getD
    { policy := q.defaultPolicy.getD q.settings.defaultGatePolicy }

/-- The resolution of a gate that waits for nobody. -/
def immediate : Option Resolution :=
  if q.config.policy = .off then some .policy
  else if q.config.policy = .soft then
    match q.autoDecision with
    | some d => if d.approved then some (.auto d) else none
    | none => none
  else none

/-- The decision `_gate` returns. -/
def decision : Resolution → GateDecision
  | .policy => { gate := q.name, round := q.round, outcome := .approve, decidedBy := .policy }
  | .auto d => d
  | .recorded d => d
  | .expired =>
    { gate := q.name, round := q.round, decidedBy := .timeout,
      outcome := if q.config.onTimeout = .approve then .approve else .reject,
      comments := some ("no decision within " ++ toString q.settings.gateTimeoutHours ++ "h") }

end GateRequest

/-! ## 2. Where a gate stands -/

/-- The await points of `_gate`. -/
inductive Phase where
  /-- In `_on_gate_awaited`. -/
  | announcing
  /-- In the wait for a deadline, with the deadlines after it. -/
  | waiting (due : ℤ) (reason : NotifyReason) (rest : Schedule) (expires : Option ℤ)
  /-- In the notification of a deadline that passed. -/
  | notifying (reason : NotifyReason) (rest : Schedule) (expires : Option ℤ)
  /-- In the wait without a deadline. -/
  | holding
  /-- In `_on_gate_decided`. -/
  | deciding (r : Resolution)
  | returned (r : Resolution)
  deriving DecidableEq

/-- The loop of `_wait_for_decision` from a given rest of the schedule to its next await. -/
def proceed (now : ℤ) (expires : Option ℤ) : Schedule → Phase
  | [] => if expires = none then .holding else .deciding .expired
  | (due, reason) :: rest =>
    if due ≤ now then .notifying reason rest expires else .waiting due reason rest expires

/-- What a gate does when its await completes; `none` while the await cannot complete.  `recorded`
is the decision the host has recorded under the gate's key. -/
def Phase.resume (q : GateRequest) (now : ℤ) (recorded : Option GateDecision) :
    Phase → Option Phase
  | .announcing =>
    let schedule := buildSchedule q.config q.settings.gateTimeoutHours now
    some (proceed now schedule.2 schedule.1)
  | .waiting due reason rest expires =>
    match recorded with
    | some d => some (.deciding (.recorded d))
    | none => if due ≤ now then some (.notifying reason rest expires) else none
  | .notifying _ rest expires => some (proceed now expires rest)
  | .holding => recorded.map fun d => .deciding (.recorded d)
  | .deciding r => some (.returned r)
  | .returned _ => none

/-- One call of `_gate`. -/
structure Opening where
  request : GateRequest
  phase : Phase

/-! ## 3. The host -/

structure GateHost where
  now : ℤ
  decisions : Dict GateDecision := ∅
  pending : StrSet := ∅
  openings : List Opening := []

inductive GateEvent where
  | signal (d : GateDecision)
  | tick (elapsed : ℕ)
  | opened (q : GateRequest)
  | resumed (i : ℕ)

namespace GateHost

/-- `submit_gate_decision`: the first decision for a key wins. -/
def submitGateDecision (h : GateHost) (d : GateDecision) : GateHost :=
  let key := gateKey d.gate d.round
  { h with
    decisions := if key ∈ h.decisions then h.decisions
      else h.decisions.insert key { d with decidedAt := some h.now }
    pending := h.pending.erase key }

/-- The part of `_gate` before its first await. -/
def openGate (h : GateHost) (q : GateRequest) : GateHost :=
  match q.immediate with
  | some r => { h with openings := h.openings ++ [⟨q, .deciding r⟩] }
  | none => { h with
      openings := h.openings ++ [⟨q, .announcing⟩]
      pending := h.pending.insert q.key }

/-- A gate moves to its next await; leaving the wait takes its key off the pending ones. -/
def moveTo (h : GateHost) (i : ℕ) (o : Opening) (phase : Phase) : GateHost :=
  { h with
    openings := h.openings.set i ⟨o.request, phase⟩
    pending := match phase with
      | .deciding _ => h.pending.erase o.request.key
      | _ => h.pending }

/-- The await that gate `i` stands at completes. -/
def resume (h : GateHost) (i : ℕ) : Option GateHost :=
  h.openings[i]?.bind fun o =>
    (o.phase.resume o.request h.now h.decisions[o.request.key]?).map (h.moveTo i o)

def next (h : GateHost) : GateEvent → Option GateHost
  | .signal d => some (h.submitGateDecision d)
  | .tick elapsed => some { h with now := h.now + elapsed }
  | .opened q => some (h.openGate q)
  | .resumed i => h.resume i

/-- The runs of a host that starts at the time `t`. -/
abbrev HostRun (t : ℤ) := Run { now := t : GateHost } next

/-! ## 4. What one event does -/

theorem resume_eq_some {h h' : GateHost} {i : ℕ} (hr : h.resume i = some h') :
    ∃ o p, h.openings[i]? = some o ∧
      o.phase.resume o.request h.now h.decisions[o.request.key]? = some p ∧
      h' = h.moveTo i o p := by
  obtain ⟨o, ho, hr⟩ := Option.bind_eq_some_iff.mp hr
  obtain ⟨p, hp, rfl⟩ := Option.map_eq_some_iff.mp hr
  exact ⟨o, p, ho, hp, rfl⟩

theorem openings_openGate (h : GateHost) (q : GateRequest) :
    (h.openGate q).openings =
      h.openings ++ [⟨q, (q.immediate.map Phase.deciding).getD .announcing⟩] := by
  unfold openGate
  cases q.immediate <;> rfl

theorem decisions_openGate (h : GateHost) (q : GateRequest) :
    (h.openGate q).decisions = h.decisions := by
  unfold openGate
  cases q.immediate <;> rfl

theorem getElem?_moveTo (h : GateHost) {i : ℕ} {o : Opening} (p : Phase)
    (ho : h.openings[i]? = some o) (j : ℕ) :
    (h.moveTo i o p).openings[j]? = if i = j then some ⟨o.request, p⟩ else h.openings[j]? := by
  show (h.openings.set i ⟨o.request, p⟩)[j]? = _
  rw [List.getElem?_set, if_pos (List.getElem?_eq_some_iff.mp ho).1]

theorem getElem?_openGate (h : GateHost) (q : GateRequest) {j : ℕ} {o : Opening}
    (ho : (h.openGate q).openings[j]? = some o) :
    h.openings[j]? = some o ∨
      j = h.openings.length ∧ o = ⟨q, (q.immediate.map Phase.deciding).getD .announcing⟩ := by
  rw [openings_openGate] at ho
  rcases Nat.lt_or_ge j h.openings.length with hj | hj
  · rw [List.getElem?_append_left hj] at ho
    exact Or.inl ho
  · rw [List.getElem?_append_right hj] at ho
    have hj' : j - h.openings.length = 0 := by
      by_contra hne
      rw [List.getElem?_eq_none (by simpa using by omega)] at ho
      exact absurd ho (by simp)
    rw [hj', List.getElem?_cons_zero, Option.some.injEq] at ho
    exact Or.inr ⟨by omega, ho.symm⟩

theorem decisions_next {h h' : GateHost} {e : GateEvent} (he : next h e = some h') {k : String}
    {d : GateDecision} (hd : h.decisions[k]? = some d) : h'.decisions[k]? = some d := by
  cases e with
  | signal d' =>
    obtain rfl := Option.some.inj he
    show (if _ then h.decisions else h.decisions.insert _ _)[k]? = some d
    by_cases hk : gateKey d'.gate d'.round ∈ h.decisions
    · rw [if_pos hk]
      exact hd
    · rw [if_neg hk, Dict.get?_insert_of_ne, hd]
      rintro rfl
      exact hk ((Dict.mem_iff_get? _ _).mpr ⟨d, hd⟩)
  | tick elapsed =>
    obtain rfl := Option.some.inj he
    exact hd
  | opened q =>
    obtain rfl := Option.some.inj he
    rw [decisions_openGate]
    exact hd
  | resumed i =>
    obtain ⟨o, p, -, -, rfl⟩ := resume_eq_some he
    exact hd

theorem mem_decisions_submit (h : GateHost) (d : GateDecision) (k : String) :
    k ∈ (h.submitGateDecision d).decisions ↔ k ∈ h.decisions ∨ gateKey d.gate d.round = k := by
  show k ∈ (if _ then h.decisions else h.decisions.insert _ _) ↔ _
  by_cases hk : gateKey d.gate d.round ∈ h.decisions
  · rw [if_pos hk]
    constructor
    · exact Or.inl
    · rintro (hm | rfl)
      · exact hm
      · exact hk
  · rw [if_neg hk, Dict.mem_insert, or_comm]

/-! ## 5. What every reachable state keeps -/

/-- The deadlines `rest` are a tail of the schedule of a gate opened at some time, after at least
the `OPENED` entry or before all of it. -/
def IsTail (q : GateRequest) (rest : Schedule) (expires : Option ℤ) : Prop :=
  ∃ openedAt past, buildSchedule q.config q.settings.gateTimeoutHours openedAt =
    (past ++ rest, expires)

end GateHost

open GateHost

/-- A resolution is one the gate may have, given what the host has recorded. -/
def Resolution.Sound (q : GateRequest) (decisions : Dict GateDecision) : Resolution → Prop
  | .policy => q.immediate = some .policy
  | .auto d => q.immediate = some (.auto d)
  | .recorded d => q.immediate = none ∧ decisions[q.key]? = some d
  | .expired => q.immediate = none ∧ q.config.onTimeout ≠ .hold

def Phase.Sound (q : GateRequest) (decisions : Dict GateDecision) : Phase → Prop
  | .announcing => q.immediate = none
  | .waiting due reason rest expires =>
    q.immediate = none ∧ IsTail q ((due, reason) :: rest) expires
  | .notifying _ rest expires => q.immediate = none ∧ IsTail q rest expires
  | .holding => q.immediate = none ∧ q.config.onTimeout = .hold
  | .deciding r => r.Sound q decisions
  | .returned r => r.Sound q decisions

theorem Resolution.Sound.mono {q : GateRequest} {r : Resolution} {D E : Dict GateDecision}
    (hr : r.Sound q D) (hDE : ∀ d, D[q.key]? = some d → E[q.key]? = some d) : r.Sound q E := by
  cases r with
  | policy => exact hr
  | auto d => exact hr
  | recorded d => exact ⟨hr.1, hDE d hr.2⟩
  | expired => exact hr

theorem Phase.Sound.mono {q : GateRequest} {p : Phase} {D E : Dict GateDecision}
    (hp : p.Sound q D) (hDE : ∀ d, D[q.key]? = some d → E[q.key]? = some d) : p.Sound q E := by
  cases p with
  | announcing => exact hp
  | waiting due reason rest expires => exact hp
  | notifying reason rest expires => exact hp
  | holding => exact hp
  | deciding r => exact Resolution.Sound.mono hp hDE
  | returned r => exact Resolution.Sound.mono hp hDE

namespace GateHost

theorem expires_eq_none_iff {q : GateRequest} {rest : Schedule} {expires : Option ℤ}
    (h : IsTail q rest expires) : expires = none ↔ q.config.onTimeout = .hold := by
  obtain ⟨openedAt, past, htail⟩ := h
  have hsnd := congrArg Prod.snd htail
  rw [buildSchedule_snd, expiresAt] at hsnd
  subst hsnd
  by_cases hhold : q.config.onTimeout = .hold <;> simp [hhold]

theorem sound_proceed {q : GateRequest} {now : ℤ} {rest : Schedule} {expires : Option ℤ}
    {D : Dict GateDecision} (hq : q.immediate = none) (h : IsTail q rest expires) :
    (proceed now expires rest).Sound q D := by
  cases rest with
  | nil =>
    by_cases hnone : expires = none
    · rw [proceed, if_pos hnone]
      exact ⟨hq, (expires_eq_none_iff h).mp hnone⟩
    · rw [proceed, if_neg hnone]
      exact ⟨hq, fun hhold => hnone ((expires_eq_none_iff h).mpr hhold)⟩
  | cons e rest =>
    obtain ⟨due, reason⟩ := e
    by_cases hdue : due ≤ now
    · rw [proceed, if_pos hdue]
      obtain ⟨openedAt, past, htail⟩ := h
      exact ⟨hq, openedAt, past ++ [(due, reason)], by rw [htail, List.append_assoc]; rfl⟩
    · rw [proceed, if_neg hdue]
      exact ⟨hq, h⟩

theorem sound_resume {q : GateRequest} {now : ℤ} {D : Dict GateDecision} {p p' : Phase}
    (hp : p.Sound q D) (hr : p.resume q now D[q.key]? = some p') : p'.Sound q D := by
  cases p with
  | announcing =>
    obtain rfl := Option.some.inj hr
    exact sound_proceed hp ⟨now, [], rfl⟩
  | waiting due reason rest expires =>
    obtain ⟨hq, openedAt, past, htail⟩ := hp
    cases hd : D[q.key]? with
    | some d =>
      rw [hd] at hr
      obtain rfl := Option.some.inj hr
      exact ⟨hq, hd⟩
    | none =>
      rw [hd] at hr
      simp only [Phase.resume] at hr
      split at hr
      · obtain rfl := Option.some.inj hr
        exact ⟨hq, openedAt, past ++ [(due, reason)], by rw [htail, List.append_assoc]; rfl⟩
      · exact absurd hr (by simp)
  | notifying reason rest expires =>
    obtain rfl := Option.some.inj hr
    exact sound_proceed hp.1 hp.2
  | holding =>
    obtain ⟨d, hd, rfl⟩ := Option.map_eq_some_iff.mp hr
    exact ⟨hp.1, hd⟩
  | deciding r =>
    obtain rfl := Option.some.inj hr
    exact hp
  | returned r => exact absurd hr (by simp [Phase.resume])

theorem sound_start (q : GateRequest) (D : Dict GateDecision) :
    ((q.immediate.map Phase.deciding).getD .announcing).Sound q D := by
  cases hq : q.immediate with
  | none => exact hq
  | some r =>
    show r.Sound q D
    have hr : r = .policy ∨ ∃ d, r = .auto d := by
      unfold GateRequest.immediate at hq
      split at hq
      · exact Or.inl (Option.some.inj hq).symm
      · split at hq
        · split at hq
          · split at hq
            · exact Or.inr ⟨_, (Option.some.inj hq).symm⟩
            · exact absurd hq (by simp)
          · exact absurd hq (by simp)
        · exact absurd hq (by simp)
    rcases hr with rfl | ⟨d, rfl⟩
    · exact hq
    · exact hq

/-- Every call stands where it may stand. -/
def Sound (h : GateHost) : Prop :=
  ∀ (i : ℕ) (o : Opening), h.openings[i]? = some o → o.phase.Sound o.request h.decisions

theorem sound_next {h h' : GateHost} {e : GateEvent} (hs : h.Sound) (he : next h e = some h') :
    h'.Sound := by
  have hmono := fun (k : String) (d : GateDecision) => decisions_next (k := k) (d := d) he
  intro i o ho
  cases e with
  | signal d =>
    obtain rfl := Option.some.inj he
    exact (hs i o ho).mono (hmono _)
  | tick elapsed =>
    obtain rfl := Option.some.inj he
    exact hs i o ho
  | opened q =>
    obtain rfl := Option.some.inj he
    rcases getElem?_openGate h q ho with ho | ⟨-, rfl⟩
    · exact (hs i o ho).mono (hmono _)
    · exact sound_start q _
  | resumed j =>
    obtain ⟨o', p, ho', hp, rfl⟩ := resume_eq_some he
    rw [getElem?_moveTo h p ho'] at ho
    split at ho
    · obtain rfl := Option.some.inj ho
      exact sound_resume (hs j o' ho') hp
    · exact hs i o ho

/-- **Every call of a reachable state stands where it may stand.** -/
theorem sound_of_reachable {t : ℤ} {h : GateHost}
    (hr : Reachable { now := t : GateHost } next h) : h.Sound := by
  refine hr.induct (fun i o ho => ?_) fun _ _ _ _ hs he => sound_next hs he
  exact absurd ho (by simp)

end GateHost

end Kroker
