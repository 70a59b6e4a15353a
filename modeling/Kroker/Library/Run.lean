import Mathlib.Tactic.Common

/-!
# Runs of a partial transition function

A system is an initial state and a function from a state and an event to the next state, defined
where the event is accepted.  A run records its transitions, newest first, so that a property of a
run can speak about its past.  `Run.induct` is the rule every invariant here is proved with: it
holds at the start, and each accepted event keeps it.
-/

namespace Kroker

variable {σ ε : Type}

/-- One accepted event: the state it found, the event, and the state it left. -/
structure Transition (σ ε : Type) where
  before : σ
  event : ε
  after : σ

/-- The runs from `init`, with their transitions, newest first. -/
inductive Run (init : σ) (next : σ → ε → Option σ) : List (Transition σ ε) → σ → Prop
  | start : Run init next [] init
  | step {log : List (Transition σ ε)} {s s' : σ} {e : ε} (run : Run init next log s)
      (accepted : next s e = some s') : Run init next (⟨s, e, s'⟩ :: log) s'

/-- The states some run ends in. -/
def Reachable (init : σ) (next : σ → ε → Option σ) (s : σ) : Prop :=
  ∃ log, Run init next log s

/-- The run of a script of events, from a run that has got as far as `p`, if all are accepted. -/
def runScript (next : σ → ε → Option σ) :
    List (Transition σ ε) × σ → List ε → Option (List (Transition σ ε) × σ)
  | p, [] => some p
  | p, e :: script => (next p.2 e).bind fun s => runScript next (⟨p.2, e, s⟩ :: p.1, s) script

namespace Run

variable {init : σ} {next : σ → ε → Option σ}

/-- **The invariant rule**, for properties of a run and the state it ends in. -/
theorem induct {P : List (Transition σ ε) → σ → Prop} (hinit : P [] init)
    (hstep : ∀ log s e s', Run init next log s → P log s → next s e = some s' →
      P (⟨s, e, s'⟩ :: log) s') {log : List (Transition σ ε)} {s : σ}
    (run : Run init next log s) : P log s := by
  induction run with
  | start => exact hinit
  | step run accepted ih => exact hstep _ _ _ _ run ih accepted

/-- **The counting rule**: where no event lowers a measure and each marked transition raises it, the
measure bounds the number of marked transitions. -/
theorem countP_add_le (marked : Transition σ ε → Bool) (measure : σ → ℕ)
    (hstep : ∀ s e s', Reachable init next s → next s e = some s' →
      measure s + (if marked ⟨s, e, s'⟩ then 1 else 0) ≤ measure s')
    {log : List (Transition σ ε)} {s : σ} (run : Run init next log s) :
    log.countP marked + measure init ≤ measure s := by
  induction run with
  | start => exact Nat.le_of_eq (by rw [List.countP_nil, Nat.zero_add])
  | @step log s s' e run accepted ih =>
    have hle := hstep s e s' ⟨log, run⟩ accepted
    rw [List.countP_cons]
    omega

/-- **The termination rule**: where every event lowers a measure, the measure bounds the length of a
run. -/
theorem length_add_le (measure : σ → ℕ)
    (hstep : ∀ s e s', Reachable init next s → next s e = some s' → measure s' < measure s)
    {log : List (Transition σ ε)} {s : σ} (run : Run init next log s) :
    log.length + measure s ≤ measure init := by
  induction run with
  | start => exact Nat.le_of_eq (Nat.zero_add _)
  | @step log s s' e run accepted ih =>
    have hlt := hstep s e s' ⟨log, run⟩ accepted
    rw [List.length_cons]
    omega

/-- **The liveness rule**: where a run with a property that is not finished goes on with the
property and a lower measure, it can be finished. -/
theorem exists_finished {P : List (Transition σ ε) → σ → Prop} (finished : σ → Prop)
    (measure : σ → ℕ)
    (hstep : ∀ log s, Run init next log s → P log s → ¬ finished s →
      ∃ e s', next s e = some s' ∧ P (⟨s, e, s'⟩ :: log) s' ∧ measure s' < measure s)
    {log : List (Transition σ ε)} {s : σ} (run : Run init next log s) (h : P log s) :
    ∃ log s, Run init next log s ∧ P log s ∧ finished s := by
  induction hn : measure s using Nat.strongRecOn generalizing log s with
  | ind n ih =>
    by_cases hfinished : finished s
    · exact ⟨log, s, run, h, hfinished⟩
    · obtain ⟨e, s', accepted, h', hlt⟩ := hstep log s run h hfinished
      exact ih (measure s') (hn ▸ hlt) (run.step accepted) h' rfl

/-- **The exactness rule**: where an event keeps a property of the state, and has a property of its
own, exactly under a condition on the state it finds, a run has both at each event exactly when each
event meets the condition. -/
theorem forall_iff {P : σ → Prop} {Q : σ → ε → σ → Prop} {keeps : σ → ε → Prop} (hinit : P init)
    (hstep : ∀ s e s', Reachable init next s → P s → next s e = some s' →
      (P s' ∧ Q s e s' ↔ keeps s e)) {log : List (Transition σ ε)} {s : σ}
    (run : Run init next log s) :
    (∀ x ∈ log, P x.after ∧ Q x.before x.event x.after) ↔ ∀ x ∈ log, keeps x.before x.event := by
  -- A run that has had the property has it still.
  have hboth : ((∀ x ∈ log, P x.after ∧ Q x.before x.event x.after) ↔
        ∀ x ∈ log, keeps x.before x.event) ∧
      ((∀ x ∈ log, P x.after ∧ Q x.before x.event x.after) → P s) := by
    induction run with
    | start => exact ⟨by simp, fun _ => hinit⟩
    | @step log s s' e run accepted ih =>
      obtain ⟨hiff, hnow⟩ := ih
      refine ⟨?_, fun h => (h _ List.mem_cons_self).1⟩
      simp only [List.forall_mem_cons]
      rw [hiff]
      refine and_congr_left fun hbefore => ?_
      exact hstep s e s' ⟨log, run⟩ (hnow (hiff.mpr hbefore)) accepted
  exact hboth.1

theorem forall_after_iff {P : σ → Prop} {keeps : σ → ε → Prop} (hinit : P init)
    (hstep : ∀ s e s', Reachable init next s → P s → next s e = some s' → (P s' ↔ keeps s e))
    {log : List (Transition σ ε)} {s : σ} (run : Run init next log s) :
    (∀ x ∈ log, P x.after) ↔ ∀ x ∈ log, keeps x.before x.event := by
  have h := forall_iff (Q := fun _ _ _ => True) hinit (fun s e s' hs hP haccepted => by
    rw [and_iff_left trivial]
    exact hstep s e s' hs hP haccepted) run
  simpa using h

/-- **The assumption rule**: where an event under an assumption keeps a property of the state, and
has a property of its own, a run whose events are all under it has both at each of them. -/
theorem forall_of_assumed {P : σ → Prop} {Q : σ → ε → σ → Prop} {assumed : σ → ε → Prop}
    (hinit : P init)
    (hstep : ∀ s e s', P s → assumed s e → next s e = some s' → P s' ∧ Q s e s')
    {log : List (Transition σ ε)} {s : σ} (run : Run init next log s)
    (hassumed : ∀ x ∈ log, assumed x.before x.event) :
    P s ∧ ∀ x ∈ log, P x.after ∧ Q x.before x.event x.after := by
  induction run with
  | start => exact ⟨hinit, nofun⟩
  | @step log s s' e run accepted ih =>
    obtain ⟨hevent, hearlier⟩ := List.forall_mem_cons.mp hassumed
    obtain ⟨hbefore, hlog⟩ := ih hearlier
    have hafter := hstep s e s' hbefore hevent accepted
    exact ⟨hafter.1, List.forall_mem_cons.mpr ⟨hafter, hlog⟩⟩

theorem of_runScript {script : List ε} {p q : List (Transition σ ε) × σ}
    (run : Run init next p.1 p.2) (h : runScript next p script = some q) :
    Run init next q.1 q.2 := by
  induction script generalizing p with
  | nil => exact Option.some.inj h ▸ run
  | cons e script ih =>
    obtain ⟨s, hs, hrest⟩ := Option.bind_eq_some_iff.mp h
    exact ih (run.step hs) hrest

/-- **The rule for samples**: what a script shows of the run it makes holds of some run. -/
theorem exists_of_runScript {script : List ε} {α : Type}
    {view : List (Transition σ ε) × σ → α} {a : α}
    (h : (runScript next ([], init) script).map view = some a) :
    ∃ log s, Run init next log s ∧ view (log, s) = a := by
  obtain ⟨⟨log, s⟩, hscript, hview⟩ := Option.map_eq_some_iff.mp h
  exact ⟨log, s, Run.start.of_runScript hscript, hview⟩

theorem reachable_of_mem {log : List (Transition σ ε)} {s : σ} (run : Run init next log s) :
    ∀ x ∈ log, Reachable init next x.before ∧ next x.before x.event = some x.after ∧
      Reachable init next x.after := by
  induction run with
  | start => exact nofun
  | @step log s s' e run accepted ih =>
    intro x hx
    rcases List.mem_cons.mp hx with rfl | hx
    · exact ⟨⟨log, run⟩, accepted, _, run.step accepted⟩
    · exact ih x hx

theorem of_append {later earlier : List (Transition σ ε)} {x : Transition σ ε} {s : σ}
    (run : Run init next (later ++ x :: earlier) s) :
    Run init next earlier x.before ∧ next x.before x.event = some x.after := by
  induction later generalizing s with
  | nil =>
    cases run with
    | step run accepted => exact ⟨run, accepted⟩
  | cons y later ih =>
    cases run with
    | step run accepted => exact ih run

end Run

namespace Reachable

variable {init : σ} {next : σ → ε → Option σ}

theorem start : Reachable init next init := ⟨[], Run.start⟩

theorem step {s s' : σ} {e : ε} (h : Reachable init next s) (accepted : next s e = some s') :
    Reachable init next s' := by
  obtain ⟨log, run⟩ := h
  exact ⟨_, run.step accepted⟩

theorem induct {P : σ → Prop} (hinit : P init)
    (hstep : ∀ s e s', Reachable init next s → P s → next s e = some s' → P s') {s : σ}
    (h : Reachable init next s) : P s := by
  obtain ⟨log, run⟩ := h
  induction run with
  | start => exact hinit
  | step run accepted ih => exact hstep _ _ _ ⟨_, run⟩ ih accepted

end Reachable

end Kroker
