import Kroker.Core.PyValue
import Kroker.Gates.Schedule

/-!
# The timetable of a gate, with the bounds of dates

`Gates/Schedule.lean` computes the deadlines of a gate in unbounded time.  The source computes them
with `datetime` and `timedelta`: a time outside of the years 1 to 9999, or a span of a thousand
million days, raises `OverflowError`; and the two fractions of the timeout are products with a
floating-point number, of which nothing is assumed here but that they come to a span or raise.
-/

namespace Kroker.Timetable

/-! ## 1.  Dates -/

def day : ℤ := 24 * hour

/-- The last microsecond of the year 9999, from the beginning of the year 1. -/
def maxDateTime : ℤ := 3652059 * day - 1

def IsDate (t : ℤ) : Prop := 0 ≤ t ∧ t ≤ maxDateTime

instance (t : ℤ) : Decidable (IsDate t) := inferInstanceAs (Decidable (_ ∧ _))

/-- A `datetime`. -/
structure DateTime where
  time : ℤ
  isDate : IsDate time

/-- A `timedelta` has fewer than a thousand million days. -/
def IsDelta (us : ℤ) : Prop := -(999999999 * day) ≤ us ∧ us < 1000000000 * day

instance (us : ℤ) : Decidable (IsDelta us) := inferInstanceAs (Decidable (_ ∧ _))

/-- `timedelta(hours=hours)`, for an integer. -/
def timedelta (hours : ℤ) : Except PyError ℤ :=
  if IsDelta (hours * hour) then .ok (hours * hour) else .error .overflow

/-- `openedAt + delta`. -/
def plus (openedAt : DateTime) (delta : ℤ) : Except PyError ℤ :=
  if IsDate (openedAt.time + delta) then .ok (openedAt.time + delta) else .error .overflow

/-! ## 2.  The schedule -/

/-- `timedelta(hours=timeout_hours * fraction)`, for the fractions of the two reasons. -/
abbrev Fractions := NotifyReason → ℤ → Except PyError ℤ

variable (fractions : Fractions) (gate_cfg : GateConfig) (timeoutHours : ℤ) (openedAt : DateTime)

def expiresAt : Except PyError (Option ℤ) :=
  if gate_cfg.onTimeout = .hold then .ok none
  else do return some (← plus openedAt (← timedelta timeoutHours))

/-- One round of the loop. -/
def entry (expires : Option ℤ) (reason : NotifyReason) (explicit : Option ℕ) :
    Except PyError (Option (ℤ × NotifyReason)) := do
  let delta ← match explicit with
    | some hours => timedelta hours
    | none => fractions reason timeoutHours
  let due ← plus openedAt delta
  return if due ≤ openedAt.time then none
    else if expires.any (· ≤ due) then none
    else some (due, reason)

def buildSchedule : Except PyError (Schedule × Option ℤ) := do
  let expires ← expiresAt gate_cfg timeoutHours openedAt
  let remind ← entry fractions timeoutHours openedAt expires .remind gate_cfg.remindAfterHours
  let escalate ← entry fractions timeoutHours openedAt expires .escalate
    gate_cfg.escalateAfterHours
  let schedule := ((openedAt.time, .opened) :: (remind.toList ++ escalate.toList)).insertionSort
    (·.1 ≤ ·.1)
  return (schedule ++ (expires.map fun t => (t, .expire)).toList, expires)

/-! ## 3.  When nothing overflows -/

variable {fractions gate_cfg timeoutHours openedAt}

theorem isDelta_of_isDate {us : ℤ} (h : IsDate (openedAt.time + us)) : IsDelta us := by
  have hopen := openedAt.isDate
  unfold IsDate maxDateTime at h hopen
  unfold IsDelta
  have hday : 0 < day := by decide
  omega

theorem plus_timedelta_eq_ok {hours t : ℤ} :
    (timedelta hours >>= plus openedAt) = .ok t ↔
      IsDate (openedAt.time + hours * hour) ∧ openedAt.time + hours * hour = t := by
  rw [timedelta]
  by_cases hdate : IsDate (openedAt.time + hours * hour)
  · rw [if_pos (isDelta_of_isDate hdate), and_iff_right hdate]
    change plus openedAt (hours * hour) = .ok t ↔ _
    rw [plus, if_pos hdate]
    exact ⟨Except.ok.inj, congrArg Except.ok⟩
  · refine iff_of_false ?_ fun h => hdate h.1
    split
    · change plus openedAt (hours * hour) ≠ .ok t
      rw [plus, if_neg hdate]
      exact nofun
    · exact nofun

theorem expiresAt_eq_ok {r : Option ℤ} :
    expiresAt gate_cfg timeoutHours openedAt = .ok r ↔
      (gate_cfg.onTimeout = .hold ∧ r = none) ∨
        gate_cfg.onTimeout ≠ .hold ∧ IsDate (openedAt.time + timeoutHours * hour) ∧
          r = some (openedAt.time + timeoutHours * hour) := by
  rw [expiresAt]
  by_cases hhold : gate_cfg.onTimeout = .hold
  · rw [if_pos hhold, or_iff_left fun h => h.1 hhold, and_iff_right hhold]
    exact ⟨fun h => (Except.ok.inj h).symm, fun h => congrArg Except.ok h.symm⟩
  · rw [if_neg hhold, or_iff_right fun h => hhold h.1, and_iff_right hhold, ← bind_assoc]
    constructor
    · intro h
      obtain ⟨t, ht, hr⟩ := bind_eq_ok.mp h
      obtain ⟨hdate, rfl⟩ := plus_timedelta_eq_ok.mp ht
      exact ⟨hdate, (Except.ok.inj hr).symm⟩
    · rintro ⟨hdate, rfl⟩
      exact bind_eq_ok.mpr ⟨_, plus_timedelta_eq_ok.mpr ⟨hdate, rfl⟩, rfl⟩

variable (fractions timeoutHours openedAt) in
def Due (reason : NotifyReason) : Option ℕ → Prop
  | some hours => IsDate (openedAt.time + hours * hour)
  | none => ∃ delta, fractions reason timeoutHours = .ok delta ∧ IsDate (openedAt.time + delta)

theorem plus_eq_ok {delta t : ℤ} :
    plus openedAt delta = .ok t ↔ IsDate (openedAt.time + delta) ∧ openedAt.time + delta = t := by
  rw [plus]
  split
  next hdate => exact ⟨fun h => ⟨hdate, Except.ok.inj h⟩, fun h => congrArg Except.ok h.2⟩
  next hdate => exact iff_of_false nofun fun h => hdate h.1

theorem entry_eq_ok {expires : Option ℤ} {reason : NotifyReason} {explicit : Option ℕ}
    {r : Option (ℤ × NotifyReason)} :
    entry fractions timeoutHours openedAt expires reason explicit = .ok r ↔
      Due fractions timeoutHours openedAt reason explicit ∧
        ∃ fallback, (explicit = none → fractions reason timeoutHours = .ok fallback) ∧
          optionalEntry openedAt.time expires reason explicit fallback = r := by
  cases explicit with
  | some hours =>
    have hentry : entry fractions timeoutHours openedAt expires reason (some hours) =
        ((timedelta hours >>= plus openedAt) >>= fun due =>
          pure (if due ≤ openedAt.time then none
            else if expires.any (· ≤ due) then none else some (due, reason))) := by
      rw [bind_assoc]
      rfl
    rw [hentry, bind_eq_ok]
    constructor
    · rintro ⟨due, hdue, hr⟩
      obtain ⟨hdate, rfl⟩ := plus_timedelta_eq_ok.mp hdue
      exact ⟨hdate, 0, nofun, Except.ok.inj hr⟩
    · rintro ⟨hdate, fallback, -, hr⟩
      exact ⟨_, plus_timedelta_eq_ok.mpr ⟨hdate, rfl⟩, congrArg Except.ok hr⟩
  | none =>
    rw [entry, bind_eq_ok]
    constructor
    · rintro ⟨delta, hdelta, h⟩
      obtain ⟨due, hdue, hr⟩ := bind_eq_ok.mp h
      obtain ⟨hdate, rfl⟩ := plus_eq_ok.mp hdue
      exact ⟨⟨delta, hdelta, hdate⟩, delta, fun _ => hdelta, Except.ok.inj hr⟩
    · rintro ⟨⟨delta, hdelta, hdate⟩, fallback, hfallback, hr⟩
      cases hdelta.symm.trans (hfallback rfl)
      exact ⟨delta, hdelta, bind_eq_ok.mpr ⟨_, plus_eq_ok.mpr ⟨hdate, rfl⟩, congrArg Except.ok hr⟩⟩

theorem exists_entry_iff {expires : Option ℤ} {reason : NotifyReason} {explicit : Option ℕ} :
    (∃ r, entry fractions timeoutHours openedAt expires reason explicit = .ok r) ↔
      Due fractions timeoutHours openedAt reason explicit := by
  constructor
  · rintro ⟨r, hr⟩
    exact (entry_eq_ok.mp hr).1
  · intro hdue
    cases explicit with
    | some hours => exact ⟨_, entry_eq_ok.mpr ⟨hdue, 0, nofun, rfl⟩⟩
    | none =>
      obtain ⟨delta, hdelta, -⟩ := id hdue
      exact ⟨_, entry_eq_ok.mpr ⟨hdue, delta, fun _ => hdelta, rfl⟩⟩

theorem reason_of_optionalEntry {openedAt : ℤ} {expires : Option ℤ} {reason : NotifyReason}
    {explicit : Option ℕ} {fallback : ℤ} {e : ℤ × NotifyReason}
    (h : optionalEntry openedAt expires reason explicit fallback = some e) : e.2 = reason := by
  simp only [optionalEntry] at h
  split at h
  · cases h
  · split at h
    · cases h
    · rw [← Option.some.inj h]

/-- **The schedule of a gate is that of unbounded time**, where no date overflows and the fractions
are exact. -/
theorem buildSchedule_eq
    (hexpires : gate_cfg.onTimeout ≠ .hold → IsDate (openedAt.time + timeoutHours * hour))
    (hremind : Due fractions timeoutHours openedAt .remind gate_cfg.remindAfterHours)
    (hescalate : Due fractions timeoutHours openedAt .escalate gate_cfg.escalateAfterHours)
    (hremindFraction : fractions .remind timeoutHours = .ok (timeoutHours * remindFraction))
    (hescalateFraction : fractions .escalate timeoutHours =
      .ok (timeoutHours * escalateFraction)) :
    buildSchedule fractions gate_cfg timeoutHours openedAt =
      .ok (Kroker.buildSchedule gate_cfg timeoutHours openedAt.time) := by
  have hexpiresAt : expiresAt gate_cfg timeoutHours openedAt =
      .ok (Kroker.expiresAt gate_cfg timeoutHours openedAt.time) := by
    rw [expiresAt_eq_ok, Kroker.expiresAt]
    by_cases hhold : gate_cfg.onTimeout = .hold
    · exact .inl ⟨hhold, if_pos hhold⟩
    · exact .inr ⟨hhold, hexpires hhold, if_neg hhold⟩
  have hremindEntry := fun expires => entry_eq_ok.mpr
    ⟨hremind, timeoutHours * remindFraction, fun _ => hremindFraction,
      (rfl : optionalEntry openedAt.time expires .remind _ _ = _)⟩
  have hescalateEntry := fun expires => entry_eq_ok.mpr
    ⟨hescalate, timeoutHours * escalateFraction, fun _ => hescalateFraction,
      (rfl : optionalEntry openedAt.time expires .escalate _ _ = _)⟩
  rw [buildSchedule, hexpiresAt]
  change (entry _ _ _ _ _ _ >>= _) = _
  rw [hremindEntry]
  change (entry _ _ _ _ _ _ >>= _) = _
  rw [hescalateEntry, Kroker.buildSchedule, notifications]
  cases Kroker.expiresAt gate_cfg timeoutHours openedAt.time with
  | none => exact congrArg (fun l => Except.ok (l, none)) (List.append_nil _)
  | some expires => rfl

/-! ## 4.  A well-formed timetable -/

/-- What a waiting gate relies on in its schedule and its deadline. -/
structure WellFormed (gate_cfg : GateConfig) (openedAt : ℤ) (r : Schedule × Option ℤ) : Prop where
  opened : r.1.head? = some (openedAt, .opened)
  sorted : r.1.Pairwise (·.1 ≤ ·.1)
  after : ∀ e ∈ r.1, openedAt ≤ e.1
  nodup : r.1.Nodup
  expires : (∃ t, r.2 = some t ∧ r.1.getLast? = some (t, .expire)) ↔ gate_cfg.onTimeout ≠ .hold
  reminders : ∀ t, r.2 = some t → ∀ e ∈ r.1, e.2 = .remind ∨ e.2 = .escalate → e.1 < t

/-- Every time that is computed is a date, and a gate that expires does so no earlier than it
opens. -/
structure Schedulable (fractions : Fractions) (gate_cfg : GateConfig) (timeoutHours : ℤ)
    (openedAt : DateTime) : Prop where
  expires : gate_cfg.onTimeout ≠ .hold →
    0 ≤ timeoutHours ∧ IsDate (openedAt.time + timeoutHours * hour)
  remind : Due fractions timeoutHours openedAt .remind gate_cfg.remindAfterHours
  escalate : Due fractions timeoutHours openedAt .escalate gate_cfg.escalateAfterHours

section Entries

variable {opened : ℤ} {expires : Option ℤ} {remind escalate : Option (ℤ × NotifyReason)}

/-- What is computed of the two optional entries. -/
structure Optional (opened : ℤ) (expires : Option ℤ) (reason : NotifyReason)
    (r : Option (ℤ × NotifyReason)) : Prop where
  reason : ∀ e ∈ r, e.2 = reason
  after : ∀ e ∈ r, opened < e.1
  before : ∀ e ∈ r, ∀ t ∈ expires, e.1 < t

theorem optional_of_entry {reason : NotifyReason} {explicit : Option ℕ}
    {r : Option (ℤ × NotifyReason)}
    (h : entry fractions timeoutHours openedAt expires reason explicit = .ok r) :
    Optional openedAt.time expires reason r := by
  obtain ⟨-, fallback, -, rfl⟩ := entry_eq_ok.mp h
  exact ⟨fun e he => reason_of_optionalEntry he, fun e he => (optionalEntry_bounds he).1,
    fun e he => (optionalEntry_bounds he).2⟩

theorem mem_optional {reason : NotifyReason} {r : Option (ℤ × NotifyReason)}
    (h : Optional opened expires reason r) {e : ℤ × NotifyReason} (he : e ∈ r.toList) :
    e.2 = reason ∧ opened < e.1 ∧ ∀ t ∈ expires, e.1 < t := by
  have he : e ∈ r := Option.mem_toList.mp he
  exact ⟨h.reason e he, h.after e he, h.before e he⟩

theorem sorted_entries (hremind : Optional opened expires .remind remind)
    (hescalate : Optional opened expires .escalate escalate) :
    ∃ rest : Schedule,
      ((opened, .opened) :: (remind.toList ++ escalate.toList)).insertionSort (·.1 ≤ ·.1) =
        (opened, .opened) :: rest ∧
      rest.Pairwise (·.1 ≤ ·.1) ∧ rest.Nodup ∧
      ∀ e ∈ rest, (e.2 = .remind ∨ e.2 = .escalate) ∧ opened < e.1 ∧ ∀ t ∈ expires, e.1 < t := by
  have hentries : ∀ e ∈ remind.toList ++ escalate.toList,
      (e.2 = .remind ∨ e.2 = .escalate) ∧ opened < e.1 ∧ ∀ t ∈ expires, e.1 < t := by
    intro e he
    rcases List.mem_append.mp he with he | he
    · obtain ⟨hreason, hbounds⟩ := mem_optional hremind he
      exact ⟨.inl hreason, hbounds⟩
    · obtain ⟨hreason, hbounds⟩ := mem_optional hescalate he
      exact ⟨.inr hreason, hbounds⟩
  have hnodup : (remind.toList ++ escalate.toList).Nodup := by
    refine List.Nodup.append (by cases remind <;> simp) (by cases escalate <;> simp) ?_
    intro e he he'
    have h := (mem_optional hremind he).1.symm.trans (mem_optional hescalate he').1
    cases h
  refine ⟨_, insertionSort_opened fun e he => (hentries e he).2.1, ?_, ?_, ?_⟩
  · exact List.pairwise_insertionSort _ _
  · exact (List.perm_insertionSort _ _).nodup_iff.mpr hnodup
  · exact fun e he => hentries e ((List.mem_insertionSort _).mp he)

theorem wellFormed_of_sorted {rest : Schedule} (hsorted : rest.Pairwise (·.1 ≤ ·.1))
    (hnodup : rest.Nodup)
    (hrest : ∀ e ∈ rest, (e.2 = .remind ∨ e.2 = .escalate) ∧ opened < e.1 ∧
      ∀ t ∈ expires, e.1 < t)
    (hnone : gate_cfg.onTimeout ≠ .hold ↔ expires ≠ none) (hafter : ∀ t ∈ expires, opened ≤ t) :
    WellFormed gate_cfg opened
      ((opened, .opened) :: rest ++ (expires.map fun t => (t, NotifyReason.expire)).toList,
        expires) := by
  have hopened : (opened, NotifyReason.opened) ∉ rest := by
    intro h
    obtain ⟨h | h, -⟩ := hrest _ h
    · cases h
    · cases h
  cases expires with
  | none =>
    rw [Option.map_none, Option.toList_none, List.append_nil]
    refine ⟨rfl, ?_, ?_, ?_, ?_, nofun⟩
    · exact List.pairwise_cons.mpr ⟨fun e he => le_of_lt (hrest e he).2.1, hsorted⟩
    · intro e he
      rcases List.mem_cons.mp he with rfl | he
      · exact le_refl _
      · exact le_of_lt (hrest e he).2.1
    · exact List.nodup_cons.mpr ⟨hopened, hnodup⟩
    · exact iff_of_false (fun h => nomatch h.choose_spec.1) fun h => hnone.mp h rfl
  | some t =>
    have ht : opened ≤ t := hafter t rfl
    rw [Option.map_some, Option.toList_some]
    have hmem : ∀ e, e ∈ (opened, NotifyReason.opened) :: rest ++ [(t, .expire)] ↔
        e = (opened, .opened) ∨ e ∈ rest ∨ e = (t, .expire) := by
      intro e
      rw [List.cons_append, List.mem_cons, List.mem_append, List.mem_singleton]
    refine ⟨rfl, ?_, ?_, ?_, ?_, ?_⟩
    · refine List.pairwise_append.mpr ⟨?_, List.pairwise_singleton _ _, ?_⟩
      · exact List.pairwise_cons.mpr ⟨fun e he => le_of_lt (hrest e he).2.1, hsorted⟩
      · intro e he e' he'
        rw [List.mem_singleton.mp he']
        rcases List.mem_cons.mp he with rfl | he
        · exact ht
        · exact le_of_lt ((hrest e he).2.2 t rfl)
    · intro e he
      rcases (hmem e).mp he with rfl | he | rfl
      · exact le_refl _
      · exact le_of_lt (hrest e he).2.1
      · exact ht
    · refine List.nodup_append.mpr ⟨List.nodup_cons.mpr ⟨hopened, hnodup⟩, List.nodup_singleton _,
        ?_⟩
      intro e he e' he' hsame
      rw [List.mem_singleton.mp he'] at hsame
      rcases List.mem_cons.mp he with rfl | he
      · cases hsame
      · obtain ⟨h | h, -⟩ := hrest e he
        · rw [hsame] at h
          cases h
        · rw [hsame] at h
          cases h
    · refine iff_of_true ⟨t, rfl, ?_⟩ (hnone.mpr nofun)
      exact List.getLast?_concat
    · intro t' ht' e he hreason
      cases ht'
      rcases (hmem e).mp he with rfl | he | rfl
      · rcases hreason with h | h <;> cases h
      · exact (hrest e he).2.2 t rfl
      · rcases hreason with h | h <;> cases h

end Entries

/-- **When `build_schedule` returns a well-formed timetable**: exactly if every time it computes is
a date, and the timeout of a gate that expires is not negative. -/
theorem wellFormed_iff (fractions : Fractions) (gate_cfg : GateConfig) (timeoutHours : ℤ)
    (openedAt : DateTime) :
    (∃ r, buildSchedule fractions gate_cfg timeoutHours openedAt = .ok r ∧
        WellFormed gate_cfg openedAt.time r) ↔
      Schedulable fractions gate_cfg timeoutHours openedAt := by
  constructor
  · rintro ⟨r, hr, hwell⟩
    obtain ⟨expires, hexpires, hr⟩ := bind_eq_ok.mp hr
    obtain ⟨remind, hremind, hr⟩ := bind_eq_ok.mp hr
    obtain ⟨escalate, hescalate, hr⟩ := bind_eq_ok.mp hr
    refine ⟨fun hhold => ?_, exists_entry_iff.mp ⟨_, hremind⟩, exists_entry_iff.mp ⟨_, hescalate⟩⟩
    obtain ⟨h, -⟩ | ⟨-, hdate, rfl⟩ := expiresAt_eq_ok.mp hexpires
    · exact absurd h hhold
    · refine ⟨?_, hdate⟩
      obtain rfl := Except.ok.inj hr
      have hlast := hwell.after (openedAt.time + timeoutHours * hour, .expire)
        (List.mem_append_right _ List.mem_cons_self)
      have hlast : openedAt.time ≤ openedAt.time + timeoutHours * hour := hlast
      unfold hour at hlast
      omega
  · rintro ⟨hexpires, hremind, hescalate⟩
    have hexpiresAt : ∃ expires, expiresAt gate_cfg timeoutHours openedAt = .ok expires ∧
        (gate_cfg.onTimeout ≠ .hold ↔ expires ≠ none) ∧ ∀ t ∈ expires, openedAt.time ≤ t := by
      by_cases hhold : gate_cfg.onTimeout = .hold
      · refine ⟨none, expiresAt_eq_ok.mpr (.inl ⟨hhold, rfl⟩), ?_, nofun⟩
        exact iff_of_false (fun h => h hhold) fun h => h rfl
      · obtain ⟨hpos, hdate⟩ := hexpires hhold
        refine ⟨_, expiresAt_eq_ok.mpr (.inr ⟨hhold, hdate, rfl⟩), iff_of_true hhold nofun, ?_⟩
        rintro t ht
        cases ht
        show openedAt.time ≤ openedAt.time + timeoutHours * hour
        unfold hour
        omega
    obtain ⟨expires, hexpiresAt, hnone, hafter⟩ := hexpiresAt
    obtain ⟨remind, hremind⟩ : ∃ r, entry fractions timeoutHours openedAt expires .remind
        gate_cfg.remindAfterHours = .ok r := exists_entry_iff.mpr hremind
    obtain ⟨escalate, hescalate⟩ : ∃ r, entry fractions timeoutHours openedAt expires .escalate
        gate_cfg.escalateAfterHours = .ok r := exists_entry_iff.mpr hescalate
    obtain ⟨rest, hschedule, hsorted, hnodup, hrest⟩ :=
      sorted_entries (optional_of_entry hremind) (optional_of_entry hescalate)
    refine ⟨_, ?_, wellFormed_of_sorted hsorted hnodup hrest hnone hafter⟩
    rw [buildSchedule, hexpiresAt]
    change (entry _ _ _ _ _ _ >>= _) = _
    rw [hremind]
    change (entry _ _ _ _ _ _ >>= _) = _
    rw [hescalate]
    change Except.ok (_ ++ _, _) = _
    rw [hschedule]

def exactFractions : Fractions := fun reason timeoutHours =>
  .ok (timeoutHours * if reason = .remind then remindFraction else escalateFraction)

def newYear : DateTime := ⟨739617 * day, by decide⟩

theorem buildSchedule_eq_sample : buildSchedule exactFractions {} 48 newYear =
    .ok (Kroker.buildSchedule {} 48 newYear.time) :=
  buildSchedule_eq (by decide) ⟨_, rfl, by decide⟩ ⟨_, rfl, by decide⟩ rfl rfl

/-- **A reminder after a million million hours overflows**, and a gate with a negative timeout
expires before it opens. -/
theorem schedule_overflows :
    buildSchedule exactFractions
        { remindAfterHours := some 1000000000000, remind_pos := fun _ h => by cases h; decide } 48
        newYear = .error .overflow ∧
      buildSchedule exactFractions {} (-1) newYear =
        .ok ([(newYear.time, .opened), (newYear.time - hour, .expire)],
          some (newYear.time - hour)) := by
  constructor <;> decide

end Kroker.Timetable
