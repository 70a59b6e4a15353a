import Kroker.Capability.Reissue
import Kroker.Library.Serial

/-!
# The history of the capability registry

`apply` and `allocator` of `capability/store.py`, called by any number of clients in any order.  What
the tables hold of a project is what its committed applies made of them, one after the other: the
calls of an allocator and the applies that raised left no trace in it.

## 1.  What one apply does

`apply_spec` --- each row is put under its id, where the run it was first seen in is kept, and each is
recorded as an event.

## 2.  What a run leaves

`lawful_registryOf` --- the tables are a registry for each project, so a run leaves of it what its
history makes of it.
-/

namespace Kroker

open Serial

/-- A batch that was committed for a project. -/
structure CapabilityWrite where
  rows : List CapabilityIdentity
  expectedVersion : ℤ
  actor : String
  operation : String
  detail : Option String

/-- What the upsert keeps of the row that is stored: `first_seen_run`. -/
def keepFirstSeen (stored row : CapabilityIdentity) : CapabilityIdentity :=
  { row with firstSeenRun := stored.firstSeenRun }

def CapabilityWrite.eventOf (w : CapabilityWrite) (project : String) (row : CapabilityIdentity) :
    CapabilityEvent :=
  { project, bcId := row.bcId, actor := w.actor, operation := w.operation,
    detail := w.detail.getD row.status.value }

def CapabilityWrite.rowsOf (w : CapabilityWrite) (id : String) : List CapabilityIdentity :=
  w.rows.filter (·.bcId = id)

namespace CapabilityDb

def eventsAt (db : CapabilityDb) (project id : String) : List CapabilityEvent :=
  db.events.filter fun e => e.project = project ∧ e.bcId = id

def committedIn (D : UnicodeDigits) (project : String) (t : Transition CapabilityDb CapabilityOp) :
    Option CapabilityWrite :=
  match t.event with
  | .apply p rows expectedVersion actor operation detail =>
    if p = project ∧ (t.before.apply D p rows expectedVersion actor operation detail).isOk then
      some ⟨rows, expectedVersion, actor, operation, detail⟩
    else none
  | _ => none

/-! ## 1.  What one apply does -/

theorem rowAt_upsertIdentity (db : CapabilityDb) (row : CapabilityIdentity) (project id : String) :
    (db.upsertIdentity row).rowAt project id =
      if row.primaryKey = (project, id) then put keepFirstSeen (db.rowAt project id) row
      else db.rowAt project id := by
  have hmodify := Table.find?_modify db.identities row.primaryKey
    (fun stored => { row with firstSeenRun := stored.firstSeenRun }) (fun _ _ => rfl) (project, id)
  rw [rowAt, upsertIdentity, Table.find?_insertNew, hmodify, rowAt]
  by_cases h : row.primaryKey = (project, id)
  · rw [if_pos h, if_pos h, if_pos h]
    cases db.identities.find? (project, id) <;> rfl
  · rw [if_neg h, if_neg h, if_neg h, Option.or_none]

variable {project : String}

/-- **What the rounds of an apply do.** -/
theorem foldlM_applyRow_spec {w : CapabilityWrite} {rows : List CapabilityIdentity}
    {db db' : CapabilityDb}
    (h : rows.foldlM (applyRow project w.actor w.operation w.detail) db = .ok db') :
    (∀ other id, db'.rowAt other id =
      if project = other then
        (rows.filter (·.bcId = id)).foldl (put keepFirstSeen) (db.rowAt other id)
      else db.rowAt other id) ∧
    db'.events = db.events ++ rows.map (w.eventOf project) := by
  induction rows generalizing db with
  | nil =>
    obtain rfl := Except.ok.inj h
    exact ⟨fun other id => by simp, by simp⟩
  | cons row rows ih =>
    rw [List.foldlM_cons] at h
    obtain ⟨db₁, hfirst, hrest⟩ := bind_eq_ok.mp h
    obtain ⟨hrows, hevents⟩ := ih hrest
    rw [applyRow] at hfirst
    split at hfirst
    · cases hfirst
    · rename_i hproject
      rw [not_not] at hproject
      obtain rfl := Except.ok.inj hfirst
      constructor
      · intro other id
        have hrow : ((db.upsertIdentity row).recordEvent project row w.actor w.operation
            w.detail).rowAt other id = _ := rowAt_upsertIdentity db row other id
        have hkey : row.primaryKey = (other, id) ↔ project = other ∧ row.bcId = id := by
          rw [← hproject]
          exact Prod.mk.injEq .. ▸ Iff.rfl
        rw [hrows, hrow]
        by_cases hother : project = other
        · rw [if_pos hother, if_pos hother, List.filter_cons]
          by_cases hid : row.bcId = id
          · rw [if_pos (hkey.mpr ⟨hother, hid⟩), if_pos (decide_eq_true hid), List.foldl_cons]
          · rw [if_neg fun h => hid (hkey.mp h).2, if_neg (by simpa using hid)]
        · rw [if_neg hother, if_neg hother, if_neg fun h => hother (hkey.mp h).1]
      · rw [hevents]
        change db.events ++ [w.eventOf project row] ++ _ = _
        rw [List.append_assoc, List.singleton_append, List.map_cons]

/-- **What an apply that commits does.** -/
theorem apply_spec {D : UnicodeDigits} {db db' : CapabilityDb} {w : CapabilityWrite} {version : ℤ}
    (h : db.apply D project w.rows w.expectedVersion w.actor w.operation w.detail =
      .ok (db', version)) :
    (∀ other id, db'.rowAt other id =
      if project = other then (w.rowsOf id).foldl (put keepFirstSeen) (db.rowAt other id)
      else db.rowAt other id) ∧
    ∀ other id, db'.eventsAt other id =
      if project = other then db.eventsAt other id ++ (w.rowsOf id).map (w.eventOf project)
      else db.eventsAt other id := by
  unfold apply at h
  dsimp only at h
  split at h
  · cases h
  · obtain ⟨written, hwritten, h⟩ := bind_eq_ok.mp h
    obtain ⟨best, -, h⟩ := bind_eq_ok.mp h
    obtain ⟨advanced, hadvanced, h⟩ := bind_eq_ok.mp h
    obtain ⟨rfl, -⟩ := Prod.mk.inj (Except.ok.inj h)
    rw [advanceRegistry] at hadvanced
    split at hadvanced
    · obtain rfl := Except.ok.inj hadvanced
      obtain ⟨hrows, hevents⟩ := foldlM_applyRow_spec (w := w) hwritten
      refine ⟨hrows, fun other id => ?_⟩
      change List.filter _ written.events = _
      rw [hevents, List.filter_append]
      have hnew : (w.rows.map (w.eventOf project)).filter (fun e => e.project = other ∧ e.bcId = id) =
          if project = other then (w.rowsOf id).map (w.eventOf project) else [] := by
        rw [List.filter_map]
        by_cases hother : project = other
        · rw [if_pos hother, CapabilityWrite.rowsOf]
          refine congrArg _ (List.filter_congr fun row _ => ?_)
          exact decide_eq_decide.mpr (and_iff_right hother)
        · rw [if_neg hother, List.map_eq_nil_iff, List.filter_eq_nil_iff]
          exact fun row _ hboth => hother (of_decide_eq_true hboth).1
      rw [hnew]
      by_cases hother : project = other
      · rw [if_pos hother, if_pos hother]
        rfl
      · rw [if_neg hother, if_neg hother, List.append_nil]
        rfl
    · cases hadvanced

/-! ## 2.  What a run leaves -/

def registryOf (D : UnicodeDigits) (project : String) :
    Serial.Registry CapabilityDb CapabilityOp CapabilityWrite String CapabilityIdentity
      CapabilityEvent where
  commit := committedIn D project
  version := (registryVersion · project)
  expected := (·.expectedVersion)
  rowAt := (rowAt · project)
  eventsAt := (eventsAt · project)
  rowsOf := CapabilityWrite.rowsOf
  record := (·.eventOf project)
  merge := keepFirstSeen

/-- **A call that commits nothing for the project** leaves what the project has. -/
theorem perform_of_none {D : UnicodeDigits} {db : CapabilityDb} {op : CapabilityOp}
    (h : committedIn D project ⟨db, op, db.perform D op⟩ = none) :
    (db.perform D op).registryVersion project = db.registryVersion project ∧
      ∀ id, (db.perform D op).rowAt project id = db.rowAt project id ∧
        (db.perform D op).eventsAt project id = db.eventsAt project id := by
  cases op with
  | allocator p => exact ⟨registryVersion_ensureRegistry db p project, fun id => ⟨rfl, rfl⟩⟩
  | allocate p =>
    rw [perform, allocate_fst]
    exact ⟨registryVersion_advanceOrdinal db p project, fun id => ⟨rfl, rfl⟩⟩
  | apply p rows expectedVersion actor operation detail =>
    rw [perform]
    split
    · rename_i db' version happly
      have hother : p ≠ project := by
        rintro rfl
        rw [committedIn] at h
        simp only [happly, true_and] at h
        split_ifs at h with hok
        exact hok rfl
      have hspec := apply_spec (w := ⟨rows, expectedVersion, actor, operation, detail⟩) happly
      refine ⟨(wrote_apply happly).2.2.2 project hother, fun id => ?_⟩
      rw [hspec.1, hspec.2, if_neg hother, if_neg hother]
      exact ⟨rfl, rfl⟩
    · exact ⟨rfl, fun id => ⟨rfl, rfl⟩⟩

/-- **A call that commits a batch for the project.** -/
theorem perform_of_some {D : UnicodeDigits} {db : CapabilityDb} {op : CapabilityOp}
    {w : CapabilityWrite} (h : committedIn D project ⟨db, op, db.perform D op⟩ = some w) :
    (w.expectedVersion = db.registryVersion project ∧
      (db.perform D op).registryVersion project = db.registryVersion project + 1) ∧
    ∀ id, (db.perform D op).rowAt project id =
        (w.rowsOf id).foldl (put keepFirstSeen) (db.rowAt project id) ∧
      (db.perform D op).eventsAt project id =
        db.eventsAt project id ++ (w.rowsOf id).map (w.eventOf project) := by
  cases op with
  | allocator p => cases h
  | allocate p => cases h
  | apply p rows expectedVersion actor operation detail =>
    rw [committedIn] at h
    dsimp only at h
    split_ifs at h with hcommits
    obtain ⟨rfl, hok⟩ := hcommits
    obtain rfl := Option.some.inj h
    rw [perform]
    split
    · rename_i db' version happly
      have hspec := apply_spec (w := ⟨rows, expectedVersion, actor, operation, detail⟩) happly
      obtain ⟨-, hexpected, hversion, -⟩ := wrote_apply happly
      refine ⟨⟨hexpected.symm, hexpected ▸ hversion⟩, fun id => ?_⟩
      rw [hspec.1, hspec.2, if_pos rfl, if_pos rfl]
      exact ⟨rfl, rfl⟩
    · rename_i e happly
      rw [happly] at hok
      cases hok

theorem lawful_registryOf (D : UnicodeDigits) (project : String) :
    (registryOf D project).Lawful {} fun db op => some (db.perform D op) where
  merge_self row := rfl
  merge_merge a b c := rfl
  start := ⟨rfl, fun id => ⟨rfl, rfl⟩⟩
  idle db op db' hnext hnone := by
    obtain rfl := Option.some.inj hnext
    exact perform_of_none hnone
  commits db op db' w hnext hsome := by
    obtain rfl := Option.some.inj hnext
    exact perform_of_some hsome

end CapabilityDb

end Kroker
