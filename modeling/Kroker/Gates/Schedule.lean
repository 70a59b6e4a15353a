import Kroker.Core.Config

/-!
# When a gate notifies

`build_schedule` of `notify/schedule.py`.  A gate notifies when it opens, may remind and escalate
before it expires, and notifies once more when it does; under `HOLD` it never expires.

A schedule starts with the `OPENED` entry at the opening itself (`buildSchedule_eq_cons`), and ends
with the `EXPIRE` entry at the final deadline unless there is none.
-/

namespace Kroker

def hour : ℤ := 3600000000

/-- Why a notification is sent. -/
inductive NotifyReason where
  | opened
  | remind
  | escalate
  | expire
  deriving DecidableEq

/-- Notification deadlines with their reasons. -/
abbrev Schedule := List (ℤ × NotifyReason)

/-- `REMIND_FRACTION` of an hour. -/
def remindFraction : ℤ := hour / 2

/-- `ESCALATE_FRACTION` of an hour. -/
def escalateFraction : ℤ := hour * 4 / 5

/-- The final deadline: none under `HOLD`. -/
def expiresAt (gate_cfg : GateConfig) (timeoutHours openedAt : ℤ) : Option ℤ :=
  if gate_cfg.onTimeout = .hold then none else some (openedAt + timeoutHours * hour)

/-- The entry for one optional notification: none when it would collapse into `OPENED` or fire after
the gate is dead. -/
def optionalEntry (openedAt : ℤ) (expires : Option ℤ) (reason : NotifyReason)
    (explicit : Option ℕ) (fallback : ℤ) : Option (ℤ × NotifyReason) :=
  let due := openedAt + (explicit.map fun hours => hours * hour).getD fallback
  if due ≤ openedAt then none
  else if expires.any (· ≤ due) then none
  else some (due, reason)

/-- The entries before the final one, in order of their deadlines. -/
def notifications (gate_cfg : GateConfig) (timeoutHours openedAt : ℤ) : Schedule :=
  let expires := expiresAt gate_cfg timeoutHours openedAt
  let remind := optionalEntry openedAt expires .remind gate_cfg.remindAfterHours
    (timeoutHours * remindFraction)
  let escalate := optionalEntry openedAt expires .escalate gate_cfg.escalateAfterHours
    (timeoutHours * escalateFraction)
  ((openedAt, .opened) :: (remind.toList ++ escalate.toList)).insertionSort (·.1 ≤ ·.1)

/-- `build_schedule`: the sorted notification deadlines, and the final deadline. -/
def buildSchedule (gate_cfg : GateConfig) (timeoutHours openedAt : ℤ) : Schedule × Option ℤ :=
  match expiresAt gate_cfg timeoutHours openedAt with
  | none => (notifications gate_cfg timeoutHours openedAt, none)
  | some expires => (notifications gate_cfg timeoutHours openedAt ++ [(expires, .expire)],
      some expires)

@[simp] theorem buildSchedule_snd (gate_cfg : GateConfig) (timeoutHours openedAt : ℤ) :
    (buildSchedule gate_cfg timeoutHours openedAt).2 = expiresAt gate_cfg timeoutHours openedAt := by
  unfold buildSchedule
  cases expiresAt gate_cfg timeoutHours openedAt <;> rfl

theorem optionalEntry_bounds {openedAt : ℤ} {expires : Option ℤ} {reason : NotifyReason}
    {explicit : Option ℕ}
    {fallback : ℤ} {e : ℤ × NotifyReason}
    (h : optionalEntry openedAt expires reason explicit fallback = some e) :
    openedAt < e.1 ∧ ∀ t, expires = some t → e.1 < t := by
  simp only [optionalEntry] at h
  split at h
  · exact absurd h (by simp)
  · rename_i hafter
    split at h
    · exact absurd h (by simp)
    · rename_i hbefore
      obtain rfl := Option.some.inj h
      refine ⟨not_le.mp hafter, ?_⟩
      rintro t rfl
      rw [Option.any_some, decide_eq_true_eq] at hbefore
      exact not_le.mp hbefore

theorem insertionSort_opened {openedAt : ℤ} {entries : Schedule}
    (hafter : ∀ e ∈ entries, openedAt < e.1) :
    ((openedAt, NotifyReason.opened) :: entries).insertionSort (·.1 ≤ ·.1) =
      (openedAt, .opened) :: entries.insertionSort (·.1 ≤ ·.1) := by
  rw [List.insertionSort_cons]
  cases hsorted : entries.insertionSort (·.1 ≤ ·.1) with
  | nil => rfl
  | cons e rest =>
    have he : e ∈ entries.insertionSort (·.1 ≤ ·.1) := by
      rw [hsorted]
      exact List.mem_cons_self
    have hlt := hafter e ((List.mem_insertionSort _).mp he)
    exact List.orderedInsert_cons_of_le _ _ (le_of_lt hlt)

theorem notifications_eq_cons (gate_cfg : GateConfig) (timeoutHours openedAt : ℤ) : ∃ rest,
    notifications gate_cfg timeoutHours openedAt = (openedAt, .opened) :: rest ∧
      ∀ e ∈ rest, openedAt < e.1 ∧
        ∀ t, expiresAt gate_cfg timeoutHours openedAt = some t → e.1 < t := by
  unfold notifications
  set expires := expiresAt gate_cfg timeoutHours openedAt
  set entries := (optionalEntry openedAt expires .remind gate_cfg.remindAfterHours
    (timeoutHours * remindFraction)).toList ++ (optionalEntry openedAt expires .escalate
    gate_cfg.escalateAfterHours (timeoutHours * escalateFraction)).toList with hentries
  have hbounds : ∀ e ∈ entries, openedAt < e.1 ∧ ∀ t, expires = some t → e.1 < t := by
    intro e he
    rw [hentries, List.mem_append, Option.mem_toList, Option.mem_toList] at he
    rcases he with he | he
    · exact optionalEntry_bounds he
    · exact optionalEntry_bounds he
  refine ⟨entries.insertionSort (·.1 ≤ ·.1), ?_, fun e he => ?_⟩
  · exact insertionSort_opened fun e he => (hbounds e he).1
  · exact hbounds e ((List.mem_insertionSort _).mp he)

theorem buildSchedule_eq_cons (gate_cfg : GateConfig) (timeoutHours openedAt : ℤ) :
    ∃ rest, (buildSchedule gate_cfg timeoutHours openedAt).1 = (openedAt, .opened) :: rest := by
  obtain ⟨rest, hrest, -⟩ := notifications_eq_cons gate_cfg timeoutHours openedAt
  unfold buildSchedule
  cases expiresAt gate_cfg timeoutHours openedAt with
  | none => exact ⟨rest, hrest⟩
  | some expires => exact ⟨rest ++ [(expires, .expire)], by simp only [hrest, List.cons_append]⟩

example : buildSchedule { remindAfterHours := some 1, remind_pos := by simp } 10 0 =
    ([(0, .opened), (hour, .remind), (8 * hour, .escalate), (10 * hour, .expire)],
      some (10 * hour)) := by decide

example : buildSchedule { onTimeout := .hold } 10 0 =
    ([(0, .opened), (5 * hour, .remind), (8 * hour, .escalate)], none) := by decide

end Kroker
