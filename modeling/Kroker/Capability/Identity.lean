import Kroker.Capability.Matcher

/-!
# A capability id is never reused

The counter of a project is above the ordinal of every id it has handed out and of every id it
stores (`Counted`).  An allocation hands out the counter's own value and moves the counter past it;
an `apply` moves the counter past the ordinal of each row it writes, since the ordinal of an id that
the allocator could hand out is read back from its text (`intOf_suffixOf_bcIdOf`).  The invariant is
kept by every call of any connection (`counted_of_run`), so an id is new in every run
(`identity_never_reused`).
-/

namespace Kroker

/-! ## 1. Ordinals -/

def ordinalDigits (n : ℕ) : List Char := (toString n).toList.leftpad 3 '0'

theorem ofDigitChars_ordinalDigits (n : ℕ) : Nat.ofDigitChars 10 (ordinalDigits n) 0 = n := by
  rw [ordinalDigits, List.leftpad, Nat.ofDigitChars_append, Nat.ofDigitChars_replicate_zero,
    Nat.mul_zero]
  exact intOf_toString n

theorem isDigit_of_mem_ordinalDigits {n : ℕ} {c : Char} (hc : c ∈ ordinalDigits n) :
    c.isDigit = true := by
  rw [ordinalDigits, List.leftpad, List.mem_append] at hc
  rcases hc with hc | hc
  · rw [List.eq_of_mem_replicate hc]
    rfl
  · rw [toList_toString] at hc
    exact Nat.isDigit_of_mem_toDigits (by omega) (by omega) hc

theorem ordinalDigits_ne_nil (n : ℕ) : ordinalDigits n ≠ [] := by
  intro h
  have hlength := congrArg List.length h
  rw [ordinalDigits, List.length_leftpad, List.length_nil] at hlength
  omega

theorem suffixOf_bcIdOf (n : ℕ) : suffixOf (bcIdOf n) = String.ofList (ordinalDigits n) := by
  have hlist : (bcIdOf n).toList = 'B' :: 'C' :: '-' :: ordinalDigits n := by
    have hprefix : "BC-".toList = ['B', 'C', '-'] := by decide
    rw [bcIdOf, String.toList_append, hprefix, String.toList_ofList, ordinalDigits]
    rfl
  rw [suffixOf, hlist, List.dropWhile_cons_of_pos (by decide), List.dropWhile_cons_of_pos (by decide),
    List.dropWhile_cons_of_neg (by decide)]

/-- **Distinct ordinals have distinct ids.** -/
theorem bcIdOf_injective {m n : ℕ} (h : bcIdOf m = bcIdOf n) : m = n := by
  have hdigits := congrArg (fun s => (suffixOf s).toList) h
  simp only [suffixOf_bcIdOf, String.toList_ofList] at hdigits
  rw [← ofDigitChars_ordinalDigits m, hdigits, ofDigitChars_ordinalDigits]

namespace UnicodeDigits

variable (D : UnicodeDigits)

theorem isDigits_suffixOf_bcIdOf (n : ℕ) : D.isDigits (suffixOf (bcIdOf n)) = true := by
  rw [suffixOf_bcIdOf, isDigits, String.toList_ofList, Bool.and_eq_true, List.all_eq_true]
  exact ⟨decide_eq_true (ordinalDigits_ne_nil n),
    fun c hc => D.isDigit_ascii c (isDigit_of_mem_ordinalDigits hc)⟩

theorem intOf_suffixOf_bcIdOf {n k : ℕ} (h : D.intOf (suffixOf (bcIdOf n)) = .ok k) : k = n := by
  rw [intOf, suffixOf_bcIdOf, String.toList_ofList,
    D.valueOf_of_isDigit fun c => isDigit_of_mem_ordinalDigits, ofDigitChars_ordinalDigits] at h
  split at h
  · cases h
  · exact (Except.ok.inj h).symm

end UnicodeDigits

/-! ## 2. What the calls do to the counter and to the stored ids -/

namespace SqlInteger

theorem Above.succ {x : SqlInteger} {n : ℕ} (h : x.Above n) : x.succ.Above n := by
  cases x with
  | int m =>
    rw [SqlInteger.succ]
    split
    · exact Nat.lt_succ_of_lt h
    · trivial
  | real => trivial

theorem Above.max {x : SqlInteger} {n k : ℕ} (h : x.Above n ∨ n < k) : (x.max k).Above n := by
  cases x with
  | int m => exact lt_max_iff.mpr h
  | real => trivial

end SqlInteger

namespace CapabilityDb

def nextOrdinal (db : CapabilityDb) (project : String) : SqlInteger :=
  match db.registry.find? project with
  | some row => row.nextOrdinal
  | none => .int 1

variable {db : CapabilityDb} {project : String}

theorem mem_storedIds {id : String} :
    id ∈ db.storedIds project ↔ ∃ row, db.identities.find? (project, id) = some row := by
  rw [storedIds, List.mem_map]
  constructor
  · rintro ⟨row, hrow, rfl⟩
    obtain ⟨hmem, hproject⟩ := List.mem_filter.mp hrow
    rw [decide_eq_true_eq] at hproject
    exact ⟨row, Table.find?_eq_some_iff.mpr ⟨hmem, by rw [← hproject]; rfl⟩⟩
  · rintro ⟨row, hrow⟩
    obtain ⟨hmem, hkey⟩ := Table.find?_eq_some_iff.mp hrow
    obtain ⟨hproject, hid⟩ := Prod.mk.inj hkey
    exact ⟨row, List.mem_filter.mpr ⟨hmem, decide_eq_true hproject⟩, hid⟩

theorem mem_storedIds_upsertIdentity (db : CapabilityDb) (row : CapabilityIdentity)
    (project id : String) : id ∈ (db.upsertIdentity row).storedIds project ↔
      id ∈ db.storedIds project ∨ row.project = project ∧ row.bcId = id := by
  have hmodify := Table.find?_modify db.identities row.primaryKey
    (fun stored => { row with firstSeenRun := stored.firstSeenRun }) (fun _ _ => rfl) (project, id)
  rw [mem_storedIds, mem_storedIds, upsertIdentity, Table.find?_insertNew, hmodify]
  have hkey : row.primaryKey = (project, id) ↔ row.project = project ∧ row.bcId = id :=
    Prod.mk.injEq .. ▸ Iff.rfl
  rw [← hkey]
  by_cases h : row.primaryKey = (project, id)
  · rw [if_pos h, if_pos h]
    simp only [h, or_true, iff_true]
    cases db.identities.find? (project, id) with
    | none => exact ⟨row, rfl⟩
    | some stored => exact ⟨_, rfl⟩
  · rw [if_neg h, if_neg h, Option.or_none]
    simp only [h, or_false]

theorem nextOrdinal_ensureRegistry (db : CapabilityDb) (project other : String) :
    (db.ensureRegistry project).nextOrdinal other = db.nextOrdinal other := by
  rw [nextOrdinal, ensureRegistry, Table.find?_insertNew, nextOrdinal]
  cases db.registry.find? other with
  | some row => rfl
  | none =>
    by_cases h : project = other
    · rw [if_pos h]
      rfl
    · rw [if_neg h]
      rfl

theorem find?_ensureRegistry (db : CapabilityDb) (project : String) :
    ∃ row, (db.ensureRegistry project).registry.find? project = some row := by
  rw [ensureRegistry, Table.find?_insertNew, if_pos rfl]
  cases db.registry.find? project with
  | some row => exact ⟨row, rfl⟩
  | none => exact ⟨_, rfl⟩

theorem find?_advanceOrdinal (db : CapabilityDb) (project other : String) :
    (db.advanceOrdinal project).registry.find? other =
      if project = other then
        (db.registry.find? other).map fun r => { r with nextOrdinal := r.nextOrdinal.succ }
      else db.registry.find? other :=
  Table.find?_modify db.registry project (fun r => { r with nextOrdinal := r.nextOrdinal.succ })
    (fun _ h => h) other

theorem above_advanceOrdinal {other : String} {n : ℕ} (h : (db.nextOrdinal other).Above n)
    (project : String) :
    ((db.advanceOrdinal project).nextOrdinal other).Above n := by
  rw [nextOrdinal, find?_advanceOrdinal]
  rw [nextOrdinal] at h
  by_cases hproject : project = other
  · rw [if_pos hproject]
    cases hrow : db.registry.find? other with
    | none => rwa [hrow] at h
    | some row =>
      rw [hrow] at h
      exact h.succ
  · rwa [if_neg hproject]

theorem allocate_fst (db : CapabilityDb) (project : String) :
    (db.allocate project).1 = db.advanceOrdinal project := by
  unfold allocate
  dsimp only
  split
  · rfl
  · split <;> rfl

/-- **What an allocation hands out**: the counter's value, and the counter is then past it. -/
theorem allocate_eq_ok {id : String} (h : (db.allocate project).2 = .ok id) : ∃ n, id = bcIdOf n ∧
      db.nextOrdinal project = .int n ∧ (db.advanceOrdinal project).nextOrdinal project =
        .int (n + 1) := by
  have hafter := find?_advanceOrdinal db project project
  rw [if_pos rfl] at hafter
  unfold allocate at h
  dsimp only at h
  rw [nextOrdinal, nextOrdinal, hafter]
  rw [hafter] at h
  cases hrow : db.registry.find? project with
  | none =>
    rw [hrow] at h
    exact nomatch h
  | some row =>
    rw [hrow] at h
    dsimp only [Option.map_some] at h ⊢
    cases hordinal : row.nextOrdinal with
    | real =>
      rw [hordinal] at h
      exact nomatch h
    | int n =>
      rw [hordinal, SqlInteger.succ] at h
      rw [SqlInteger.succ]
      by_cases hbound : n + 1 < int64Bound
      · rw [if_pos hbound] at h ⊢
        exact ⟨n, (Except.ok.inj h).symm, rfl, rfl⟩
      · rw [if_neg hbound] at h
        exact nomatch h

/-! ## 3. What an applied batch does to them -/

variable {operation : String} {detail : Option String} {db' : CapabilityDb}

theorem applyRow_eq_ok {actor : String} {row : CapabilityIdentity}
    (h : applyRow project actor operation detail db row = .ok db') :
    row.project = project ∧ db'.registry = db.registry ∧
      ∀ other id, id ∈ db'.storedIds other ↔
        id ∈ db.storedIds other ∨ row.project = other ∧ row.bcId = id := by
  rw [applyRow] at h
  split at h
  · exact nomatch h
  · rename_i hproject
    obtain rfl := Except.ok.inj h
    exact ⟨not_not.mp hproject, rfl, fun other id => mem_storedIds_upsertIdentity db row other id⟩

variable {rows : List CapabilityIdentity}

theorem of_mem_storedIds_foldlM {actor : String}
    (h : rows.foldlM (applyRow project actor operation detail) db = .ok db') :
    db'.registry = db.registry ∧ ∀ other id, id ∈ db'.storedIds other →
      id ∈ db.storedIds other ∨ project = other ∧ ∃ row ∈ rows, row.bcId = id := by
  refine of_foldlM_eq_ok (P := fun b => b.registry = db.registry ∧ ∀ other id,
    id ∈ b.storedIds other →
      id ∈ db.storedIds other ∨ project = other ∧ ∃ row ∈ rows, row.bcId = id)
    ?_ ⟨rfl, fun other id hid => Or.inl hid⟩ h
  intro row hrow b b' hb hround
  obtain ⟨hproject, hregistry, hids⟩ := applyRow_eq_ok hround
  refine ⟨hregistry.trans hb.1, fun other id hid => ?_⟩
  rcases (hids other id).mp hid with hid | ⟨hother, hid⟩
  · exact hb.2 other id hid
  · exact Or.inr ⟨hproject ▸ hother, row, hrow, hid⟩

theorem le_maxOrdinal {D : UnicodeDigits} {best : ℕ} (h : maxOrdinal D rows = .ok best)
    {row : CapabilityIdentity} (hrow : row ∈ rows) {n : ℕ} (hid : row.bcId = bcIdOf n) :
    n ≤ best := by
  have hstep : ∀ (row : CapabilityIdentity) (b b' : ℕ), maxOrdinalStep D b row = .ok b' →
      b ≤ b' ∧ ∀ n, row.bcId = bcIdOf n → n ≤ b' := by
    intro row b b' hround
    unfold maxOrdinalStep at hround
    dsimp only at hround
    split at hround
    · split at hround
      · rename_i k hk
        obtain rfl := Except.ok.inj hround
        refine ⟨le_max_left b k, fun n hn => ?_⟩
        rw [hn] at hk
        exact D.intOf_suffixOf_bcIdOf hk ▸ le_max_right b k
      · exact nomatch hround
    · rename_i hdigits
      obtain rfl := Except.ok.inj hround
      refine ⟨le_refl b, fun n hn => ?_⟩
      rw [hn, D.isDigits_suffixOf_bcIdOf n] at hdigits
      exact absurd rfl hdigits
  refine forall_mem_of_foldlM_eq_ok (Q := fun row b => ∀ n, row.bcId = bcIdOf n → n ≤ b)
    ?_ ?_ h row hrow n hid
  · exact fun row _ b b' hround => (hstep row b b' hround).2
  · intro other _ row b b' hb hround n hn
    exact (hb n hn).trans (hstep other b b' hround).1

theorem advanceRegistry_eq_ok {version : ℤ} {ordinal : ℕ}
    (h : db.advanceRegistry project version ordinal = .ok db') :
    db'.identities = db.identities ∧ ∀ other n, ((db.nextOrdinal other).Above n ∨
      project = other ∧ n < ordinal ∧ ∃ row, db.registry.find? project = some row) →
      (db'.nextOrdinal other).Above n := by
  rw [advanceRegistry] at h
  split at h
  · obtain rfl := Except.ok.inj h
    refine ⟨rfl, fun other n hn => ?_⟩
    have hafter := Table.find?_modify db.registry project (fun r =>
      { r with registryVersion := version, nextOrdinal := r.nextOrdinal.max ordinal })
      (fun _ h => h) other
    simp only [nextOrdinal, hafter]
    simp only [nextOrdinal] at hn
    by_cases hproject : project = other
    · subst hproject
      rw [if_pos rfl]
      cases hrow : db.registry.find? project with
      | none =>
        simp only [hrow, reduceCtorEq, exists_false, and_false, or_false] at hn
        exact hn
      | some row =>
        simp only [hrow] at hn
        exact SqlInteger.Above.max (hn.imp_right fun h => h.2.1)
    · rw [if_neg hproject]
      exact hn.resolve_right fun h => hproject h.1
  · cases h

/-- **What an `apply` that succeeds does**: no counter moves back, only the batch's ids are added,
and the project's counter is past every ordinal in the batch. -/
theorem apply_eq_ok {D : UnicodeDigits} {actor : String} {expectedVersion version : ℤ}
    (h : db.apply D project rows expectedVersion actor operation detail = .ok (db', version)) :
    (∀ other n, (db.nextOrdinal other).Above n → (db'.nextOrdinal other).Above n) ∧
    (∀ other id, id ∈ db'.storedIds other →
      id ∈ db.storedIds other ∨ project = other ∧ ∃ row ∈ rows, row.bcId = id) ∧
    ∀ row ∈ rows, ∀ n, row.bcId = bcIdOf n → (db'.nextOrdinal project).Above n := by
  unfold apply at h
  dsimp only at h
  split at h
  · exact nomatch h
  · obtain ⟨written, hwritten, h⟩ := bind_eq_ok.mp h
    obtain ⟨best, hbest, h⟩ := bind_eq_ok.mp h
    obtain ⟨advanced, hadvanced, h⟩ := bind_eq_ok.mp h
    obtain ⟨rfl, -⟩ := Prod.mk.inj (Except.ok.inj h)
    obtain ⟨hregistry, hids⟩ := of_mem_storedIds_foldlM hwritten
    obtain ⟨hidentities, habove⟩ := advanceRegistry_eq_ok hadvanced
    have hnext : ∀ other, written.nextOrdinal other = db.nextOrdinal other := fun other => by
      rw [nextOrdinal, hregistry]
      exact nextOrdinal_ensureRegistry db project other
    refine ⟨fun other n hn => habove other n (Or.inl (by rwa [hnext])), fun other id hid => ?_,
      fun row hrow n hn => habove project n (Or.inr ⟨rfl, ?_, ?_⟩)⟩
    · rw [storedIds, hidentities] at hid
      exact hids other id hid
    · exact Nat.lt_succ_of_le (le_maxOrdinal hbest hrow hn)
    · rw [hregistry]
      exact find?_ensureRegistry db project

theorem mem_storedIds_of_apply {D : UnicodeDigits} {actor : String} {expectedVersion version : ℤ}
    (h : db.apply D project rows expectedVersion actor operation detail = .ok (db', version))
    {other id : String} (hid : id ∈ db.storedIds other) : id ∈ db'.storedIds other := by
  unfold apply at h
  dsimp only at h
  split at h
  · exact nomatch h
  · obtain ⟨written, hwritten, h⟩ := bind_eq_ok.mp h
    obtain ⟨best, hbest, h⟩ := bind_eq_ok.mp h
    obtain ⟨advanced, hadvanced, h⟩ := bind_eq_ok.mp h
    obtain ⟨rfl, -⟩ := Prod.mk.inj (Except.ok.inj h)
    rw [storedIds, (advanceRegistry_eq_ok hadvanced).1]
    exact of_foldlM_eq_ok (P := fun b => id ∈ b.storedIds other)
      (fun row _ b b' hb hround => ((applyRow_eq_ok hround).2.2 other id).mpr (Or.inl hb)) hid
      hwritten

end CapabilityDb

/-! ## 4. The invariant -/

/-- **The counter of each project is past every id it has handed out and every id it stores**, and
every id that was ever stored still is. -/
structure Counted (log : List (Transition CapabilityDb CapabilityOp)) (db : CapabilityDb) :
    Prop where
  stored : ∀ project n, bcIdOf n ∈ db.storedIds project → (db.nextOrdinal project).Above n
  allocated : ∀ t ∈ log, ∀ project id, allocatedBy project t = some id →
    ∃ n, id = bcIdOf n ∧ (db.nextOrdinal project).Above n
  kept : ∀ t ∈ log, ∀ project id, id ∈ t.before.storedIds project → id ∈ db.storedIds project

theorem allocatedBy_eq_some {project id : String} {t : Transition CapabilityDb CapabilityOp} :
    allocatedBy project t = some id ↔
      t.event = .allocate project ∧ (t.before.allocate project).2 = .ok id := by
  unfold allocatedBy
  split
  · rename_i p hevent
    rw [hevent, CapabilityOp.allocate.injEq]
    by_cases hp : p = project
    · subst hp
      rw [if_pos rfl]
      cases (t.before.allocate p).2 with
      | ok answer => simp [Except.toOption]
      | error e => simp [Except.toOption]
    · simp [hp]
  · rename_i hevent
    constructor
    · exact fun h => nomatch h
    · exact fun h => absurd h.1 (hevent project)

/-- What a call does: no counter moves back, no id is lost, and an id that is new in the tables or
handed out is under the counter. -/
structure Advances (db : CapabilityDb) (op : CapabilityOp) (db' : CapabilityDb) : Prop where
  above : ∀ project n, (db.nextOrdinal project).Above n → (db'.nextOrdinal project).Above n
  kept : ∀ project id, id ∈ db.storedIds project → id ∈ db'.storedIds project
  stored : ∀ project n, bcIdOf n ∈ db'.storedIds project →
    bcIdOf n ∈ db.storedIds project ∨ (db'.nextOrdinal project).Above n
  allocated : ∀ project id, op = .allocate project → (db.allocate project).2 = .ok id →
    ∃ n, id = bcIdOf n ∧ (db'.nextOrdinal project).Above n

/-- **What each call does.** -/
theorem advances_perform (D : UnicodeDigits) (db : CapabilityDb) (op : CapabilityOp) :
    Advances db op (db.perform D op) := by
  cases op with
  | allocator p =>
    rw [CapabilityDb.perform]
    refine ⟨fun project n h => ?_, fun project id h => h, fun project n h => Or.inl h,
      fun project id h => nomatch h⟩
    rwa [CapabilityDb.nextOrdinal_ensureRegistry]
  | allocate p =>
    rw [CapabilityDb.perform, CapabilityDb.allocate_fst]
    refine ⟨fun project n h => CapabilityDb.above_advanceOrdinal h p, fun project id h => h,
      fun project n h => Or.inl h, fun project id h hid => ?_⟩
    obtain rfl := CapabilityOp.allocate.inj h
    obtain ⟨n, rfl, -, hafter⟩ := CapabilityDb.allocate_eq_ok hid
    exact ⟨n, rfl, by rw [hafter]; exact Nat.lt_succ_self n⟩
  | apply p rows expectedVersion actor operation detail =>
    rw [CapabilityDb.perform]
    split
    · rename_i db' version happly
      obtain ⟨habove, hids, hrows⟩ := CapabilityDb.apply_eq_ok happly
      refine ⟨habove, fun project id h => CapabilityDb.mem_storedIds_of_apply happly h,
        fun project n h => ?_, fun project id h => nomatch h⟩
      rcases hids project _ h with h | ⟨rfl, row, hrow, hid⟩
      · exact Or.inl h
      · exact Or.inr (hrows row hrow n hid)
    · exact ⟨fun _ _ h => h, fun _ _ h => h, fun _ _ h => Or.inl h, fun _ _ h => nomatch h⟩

variable {log : List (Transition CapabilityDb CapabilityOp)}

theorem Counted.perform {db db' : CapabilityDb} {op : CapabilityOp} (h : Counted log db)
    (hadvances : Advances db op db') :
    Counted (⟨db, op, db'⟩ :: log) db' := by
  refine ⟨fun project n hid => ?_, fun t ht project id hid => ?_, fun t ht project id hid => ?_⟩
  · rcases hadvances.stored project n hid with hid | habove
    · exact hadvances.above project n (h.stored project n hid)
    · exact habove
  · rcases List.mem_cons.mp ht with rfl | ht
    · obtain ⟨hevent, hid⟩ := allocatedBy_eq_some.mp hid
      exact hadvances.allocated project id hevent hid
    · obtain ⟨n, rfl, habove⟩ := h.allocated t ht project id hid
      exact ⟨n, rfl, hadvances.above project n habove⟩
  · rcases List.mem_cons.mp ht with rfl | ht
    · exact hadvances.kept project id hid
    · exact hadvances.kept project id (h.kept t ht project id hid)

theorem counted_of_run {D : UnicodeDigits} {db : CapabilityDb} (run : CapabilityRun D log db) :
    Counted log db := by
  refine Run.induct (P := Counted) ?_ ?_ run
  · exact ⟨nofun, nofun,
      nofun⟩
  · intro log db op db' _ hcounted hnext
    obtain rfl := Option.some.inj hnext
    exact hcounted.perform (advances_perform D db op)

/-! ## 5. No id is used twice -/

/-- An id that no earlier call returned, that no row of any earlier state has, and that no row has
now. -/
structure Unused (earlier : List (Transition CapabilityDb CapabilityOp)) (now : CapabilityDb)
    (project id : String) : Prop where
  allocated : ∀ t ∈ earlier, allocatedBy project t ≠ some id
  stored : ∀ t ∈ earlier, id ∉ t.before.storedIds project
  now : id ∉ now.storedIds project

theorem unused_of_counted {earlier : List (Transition CapabilityDb CapabilityOp)} {db : CapabilityDb}
    (h : Counted earlier db) {project id : String} (hid : (db.allocate project).2 = .ok id) :
    Unused earlier db project id := by
  obtain ⟨n, rfl, hnext, -⟩ := CapabilityDb.allocate_eq_ok hid
  have hnow : bcIdOf n ∉ db.storedIds project := fun hmem => by
    have habove := h.stored project n hmem
    rw [hnext] at habove
    exact Nat.lt_irrefl n habove
  refine ⟨fun t ht hallocated => ?_, fun t ht hmem => hnow (h.kept t ht project _ hmem), hnow⟩
  obtain ⟨m, hm, habove⟩ := h.allocated t ht project _ hallocated
  rw [hnext, ← bcIdOf_injective hm] at habove
  exact Nat.lt_irrefl n habove

theorem unused_of_run {D : UnicodeDigits} {later earlier : List (Transition CapabilityDb CapabilityOp)}
    {t : Transition CapabilityDb CapabilityOp} {db : CapabilityDb}
    (run : CapabilityRun D (later ++ t :: earlier) db) {project id : String}
    (hid : allocatedBy project t = some id) : Unused earlier t.before project id :=
  unused_of_counted (counted_of_run run.of_append.1) (allocatedBy_eq_some.mp hid).2

theorem allocated_nodup {D : UnicodeDigits} {db : CapabilityDb} (run : CapabilityRun D log db)
    (project : String) :
    (log.filterMap (allocatedBy project)).Nodup := by
  refine Run.induct (P := fun log _ => (log.filterMap (allocatedBy project)).Nodup) ?_ ?_ run
  · exact List.nodup_nil
  · intro log db op db' hrun hnodup hnext
    cases hid : allocatedBy project ⟨db, op, db'⟩ with
    | none => rwa [List.filterMap_cons_none hid]
    | some id =>
      rw [List.filterMap_cons_some hid, List.nodup_cons]
      refine ⟨fun hmem => ?_, hnodup⟩
      obtain ⟨t, ht, ht'⟩ := List.mem_filterMap.mp hmem
      exact (unused_of_counted (counted_of_run hrun) (allocatedBy_eq_some.mp hid).2).allocated t ht ht'

/-- **A capability id is never reused.**  In every run of the store, by any callers in any order: an
id an allocator returns was never returned before and is in no row of any state so far; and the ids
one `resolve` mints, from calls anywhere in the run and of any registry, are pairwise distinct and
each unused when it was minted. -/
theorem identity_never_reused {σ : Type} [LinearOrder σ] (D : UnicodeDigits) (S : Scoring σ)
    {log : List (Transition CapabilityDb CapabilityOp)} {db : CapabilityDb}
    (run : CapabilityRun D log db) (project : String) :
    (∀ later t earlier id, log = later ++ t :: earlier → allocatedBy project t = some id →
      Unused earlier t.before project id) ∧
    ∀ calls : List (Transition CapabilityDb CapabilityOp), calls.Sublist log.reverse →
      ∀ proposed registry result, Matcher.resolve S proposed registry
        (calls.filterMap (allocatedBy project)) = .ok result →
        (Matcher.firstDiscoveries result).Nodup ∧ ∀ id ∈ Matcher.firstDiscoveries result,
          ∃ later t earlier, log = later ++ t :: earlier ∧ t ∈ calls ∧
            allocatedBy project t = some id ∧ Unused earlier t.before project id := by
  refine ⟨?_, fun calls hcalls proposed registry result hresult => ?_⟩
  · rintro later t earlier id rfl hid
    exact unused_of_run run hid
  · have hanswers : (calls.filterMap (allocatedBy project)).Nodup := by
      refine List.Nodup.sublist (hcalls.filterMap _) ?_
      rw [List.filterMap_reverse, List.nodup_reverse]
      exact allocated_nodup run project
    obtain ⟨hnodup, hmem⟩ := Matcher.firstDiscoveries_nodup hresult hanswers
    refine ⟨hnodup, fun id hid => ?_⟩
    obtain ⟨t, ht, hallocated⟩ := List.mem_filterMap.mp (hmem id hid)
    obtain ⟨later, earlier, hlog⟩ :=
      List.append_of_mem (List.mem_reverse.mp (hcalls.subset ht))
    refine ⟨later, t, earlier, hlog, ht, hallocated, ?_⟩
    subst hlog
    exact unused_of_run run hallocated

theorem value_asciiDigit : ∀ c : Char, c.isDigit = true →
    (if c.isDigit then some (c.toNat - '0'.toNat) else none) = some (c.toNat - '0'.toNat) :=
  fun _ h => if_pos h

def asciiDigits : UnicodeDigits where
  isDigit := Char.isDigit
  value := fun c => if c.isDigit then some (c.toNat - '0'.toNat) else none
  isDigit_ascii := fun _ h => h
  value_ascii := value_asciiDigit

/-- Scores of a matcher that finds nothing comparable. -/
def blindScoring : Scoring ℕ where
  score := fun _ _ => none
  tMatch := 1
  near := fun _ _ => false
  fixed := toString
  tMatchText := "0.55"
  epsilonText := "0.05"

/-- A row of the sample runs. -/
def sampleIdentity (bcId : String) : CapabilityIdentity where
  bcId := bcId
  project := "shop"
  firstSeenRun := "run"
  fingerprint := .of (fun _ => ["POST /a"]) .measured

/-- A mint that is never applied, a batch that skips ordinals, another project, and two mints. -/
def identityScript : List CapabilityOp :=
  [.allocator "shop", .allocate "shop", .apply "shop" [sampleIdentity "BC-005"] 0 "a" "resolve" none,
    .allocator "bank", .allocate "bank", .allocate "shop", .allocate "shop"]

/-- A run of calls, from the empty tables. -/
def identityRun : List (Transition CapabilityDb CapabilityOp) × CapabilityDb :=
  (runScript (fun db op => some (db.perform asciiDigits op)) ([], {}) identityScript).get
    (by decide +kernel)

theorem identity_never_reused_sample :
    identityRun.1.reverse.filterMap (allocatedBy "shop") = ["BC-001", "BC-006", "BC-007"] ∧
    ∀ later t earlier, identityRun.1 = later ++ t :: earlier →
      allocatedBy "shop" t = some "BC-006" → Unused earlier t.before "shop" "BC-006" := by
  refine ⟨by decide +kernel, fun later t earlier hlog hid => ?_⟩
  have hrun : CapabilityRun asciiDigits identityRun.1 identityRun.2 :=
    Run.of_runScript Run.start (Option.some_get (by decide +kernel)).symm
  exact (identity_never_reused asciiDigits blindScoring hrun "shop").1 later t earlier "BC-006" hlog
    hid

end Kroker
