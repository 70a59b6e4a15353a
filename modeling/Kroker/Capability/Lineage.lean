import Kroker.Capability.Corrections
import Kroker.Capability.Identity
import Kroker.Capability.Rows
import Kroker.Library.Pointers

/-!
# The lineage of capabilities stays sound

Two things merge capabilities: an assessment, where one proposed capability matches two stored ones
(`discover_lock` of `assessment/activities.py`: `resolve`, `identity_rows`, `apply`), and a
correction (`apply_correction`).  Both read the registry's version, then its rows, compute a batch,
and apply it at the version they read.  `LineageState` is the store with any number of such callers
in flight, each at its own call.

## Why no cycle can be built

What either caller writes is a sound batch over the rows it read (`SoundBatch`): a row it points at
another is pointed at a row of the same batch that points at nothing.  The store takes the batch
only at the version it was computed from, so the rows it was computed from are the stored ones
(`ReaderInv`), and redirecting pointers to heads keeps every path finite (`Ends.redirect`).  How
long a chain grows does not matter: a row that absorbed others may be absorbed in turn.

An allocator's answers are taken as they come, also one that is stored already: the argument does
not need ids to be new.
-/

namespace Kroker

/-! ## 1. What a correction writes -/

namespace Corrections

def changedRows (project : String) (registry : List CapabilityIdentity)
    (correction : IdentityCorrection) (answer : String) :
    Except CapabilityError (Option (List CapabilityIdentity)) :=
  match rowOf registry correction.sourceBcId with
  | none => .error (.value ("unknown capability '" ++ correction.sourceBcId ++
      "' in project '" ++ project ++ "'"))
  | some source =>
    if correction.operation = .split then do
      checkSplit source correction
      return some (← splitRows source correction answer)
    else absorb source correction registry

variable {rows : List CapabilityIdentity}

theorem rowOf_eq_some {id : String} {r : CapabilityIdentity} (h : rowOf rows id = some r) :
    r ∈ rows ∧ r.bcId = id := by
  have hid := List.find?_some h
  rw [decide_eq_true_eq] at hid
  exact ⟨List.mem_of_find?_eq_some h, hid⟩

variable {correction : IdentityCorrection} {registry : List CapabilityIdentity}

theorem absorb_spec {source : CapabilityIdentity} (hregistry : SoundRows registry)
    (h : absorb source correction registry = .ok (some rows)) : SoundBatch registry rows := by
  unfold absorb at h
  split at h
  · cases h
  · split at h
    · cases h
    · rename_i target htarget
      split at h
      · cases h
      · rename_i hne
        dsimp only at h
        split at h
        · cases h
        · rename_i hstatus
          split at h
          · cases h
          · obtain rfl := Option.some.inj (Except.ok.inj h)
            rw [not_not] at hstatus
            have hagrees := hregistry.agrees target (rowOf_eq_some htarget).1
            have hnone : target.mergedInto = none := Option.not_isSome_iff_eq_none.mp fun h =>
              absurd (hstatus.symm.trans (hagrees.mpr h)) (by decide)
            refine ⟨⟨?_, fun r hr => ?_⟩, fun r hr t ht => Or.inl ?_⟩
            · rw [List.map_cons, List.map_cons, List.map_nil, List.nodup_cons]
              exact ⟨fun hmem => hne (List.mem_singleton.mp hmem), List.nodup_singleton _⟩
            · rcases List.mem_pair.mp hr with rfl | rfl
              · exact ⟨fun _ => rfl, fun _ => rfl⟩
              · exact hagrees
            · refine ⟨_, List.mem_cons_of_mem _ List.mem_cons_self, ?_, hnone⟩
              rcases List.mem_pair.mp hr with rfl | rfl
              · exact Option.some.inj ht
              · cases hnone.symm.trans ht

theorem splitRows_spec {source : CapabilityIdentity} {newId : String}
    (hregistry : SoundRows registry) (hsource : source ∈ registry)
    (h : splitRows source correction newId = .ok rows) :
    SoundBatch registry rows := by
  unfold splitRows at h
  dsimp only at h
  split at h
  · cases h
  · rename_i hne
    obtain rfl := Except.ok.inj h
    refine ⟨⟨?_, fun r hr => ?_⟩, fun r hr t ht => Or.inr ?_⟩
    · rw [List.map_cons, List.map_cons, List.map_nil, List.nodup_cons]
      exact ⟨fun hmem => hne (List.mem_singleton.mp hmem), List.nodup_singleton _⟩
    · rcases List.mem_pair.mp hr with rfl | rfl
      · exact hregistry.agrees source hsource
      · exact ⟨(fun h => by cases h), (fun h => by cases h)⟩
    · rcases List.mem_pair.mp hr with rfl | rfl
      · exact ⟨source, hsource, rfl, ht⟩
      · cases ht

theorem changedRows_spec {project : String} {answer : String} (hregistry : SoundRows registry)
    (h : changedRows project registry correction answer = .ok (some rows)) :
    SoundBatch registry rows := by
  unfold changedRows at h
  split at h
  · exact nomatch h
  · rename_i source hsource
    split at h
    · obtain ⟨-, -, h⟩ := bind_eq_ok.mp h
      obtain ⟨rows', hrows, h⟩ := bind_eq_ok.mp h
      obtain rfl := Option.some.inj (Except.ok.inj h)
      exact splitRows_spec hregistry (rowOf_eq_some hsource).1 hrows
    · exact absorb_spec hregistry h

end Corrections

/-! ## 2. What an applied batch does to the rows -/

namespace CapabilityDb

def rowAt (db : CapabilityDb) (project id : String) : Option CapabilityIdentity :=
  db.identities.find? (project, id)

/-- A batch leaves, under each id, its own row of that id or what was there. -/
def Wrote (rows : List CapabilityIdentity) (project : String) (db db' : CapabilityDb) : Prop :=
  ∀ other id, (∃ row ∈ rows, row.project = project ∧ project = other ∧ row.bcId = id ∧
      ∃ r, db'.rowAt other id = some r ∧ r.status = row.status ∧ r.mergedInto = row.mergedInto) ∨
    (∀ row ∈ rows, ¬(project = other ∧ row.bcId = id)) ∧ db'.rowAt other id = db.rowAt other id

theorem wrote_applyRow {project actor operation : String} {detail : Option String}
    {db db' : CapabilityDb} {row : CapabilityIdentity}
    (h : applyRow project actor operation detail db row = .ok db') :
    Wrote [row] project db db' := by
  rw [applyRow] at h
  split at h
  · cases h
  · rename_i hproject
    rw [not_not] at hproject
    obtain rfl := Except.ok.inj h
    intro other id
    have hmodify := Table.find?_modify db.identities row.primaryKey
      (fun stored => { row with firstSeenRun := stored.firstSeenRun }) (fun _ _ => rfl) (other, id)
    have hrow : ((db.upsertIdentity row).recordEvent project row actor operation detail).rowAt
        other id = _ := (Table.find?_insertNew _ row (other, id)).trans
      (congrArg (Option.or · _) hmodify)
    have hkey : row.primaryKey = (other, id) ↔ project = other ∧ row.bcId = id := by
      rw [← hproject]
      exact Prod.mk.injEq .. ▸ Iff.rfl
    by_cases h : row.primaryKey = (other, id)
    · rw [if_pos h, if_pos h] at hrow
      obtain ⟨hother, hid⟩ := hkey.mp h
      refine Or.inl ⟨row, List.mem_singleton.mpr rfl, hproject, hother, hid, ?_⟩
      rw [hrow]
      cases db.identities.find? (other, id) with
      | none => exact ⟨row, rfl, rfl, rfl⟩
      | some stored => exact ⟨_, rfl, rfl, rfl⟩
    · rw [if_neg h, if_neg h, Option.or_none] at hrow
      refine Or.inr ⟨fun row' hrow' => ?_, hrow⟩
      rw [List.mem_singleton.mp hrow']
      exact fun hboth => h (hkey.mpr hboth)

theorem wrote_foldlM {project actor operation : String} {detail : Option String}
    {rows : List CapabilityIdentity} {db db' : CapabilityDb}
    (h : rows.foldlM (applyRow project actor operation detail) db = .ok db') :
    Wrote rows project db db' := by
  induction rows generalizing db with
  | nil =>
    obtain rfl := Except.ok.inj h
    exact fun other id => Or.inr ⟨List.forall_mem_nil _, rfl⟩
  | cons row rows ih =>
    rw [List.foldlM_cons] at h
    obtain ⟨db₁, hfirst, hrest⟩ := bind_eq_ok.mp h
    intro other id
    rcases ih hrest other id with ⟨row', hmem, hwrote⟩ | ⟨hnone, hsame⟩
    · exact Or.inl ⟨row', List.mem_cons_of_mem _ hmem, hwrote⟩
    · rcases wrote_applyRow hfirst other id with ⟨row', hmem, hp, ho, hid, r, hr, hrow⟩ | ⟨hne, hkept⟩
      · exact Or.inl ⟨row', List.mem_cons.mpr (Or.inl (List.mem_singleton.mp hmem)), hp, ho, hid, r,
          hsame.trans hr, hrow⟩
      · refine Or.inr ⟨fun row' hrow' => ?_, hsame.trans hkept⟩
        rcases List.mem_cons.mp hrow' with rfl | hrow'
        · exact hne _ (List.mem_singleton.mpr rfl)
        · exact hnone row' hrow'

theorem registryVersion_ensureRegistry (db : CapabilityDb) (project other : String) :
    (db.ensureRegistry project).registryVersion other = db.registryVersion other := by
  rw [registryVersion, ensureRegistry, Table.find?_insertNew, registryVersion]
  cases db.registry.find? other with
  | some row => rfl
  | none =>
    by_cases h : project = other
    · rw [if_pos h]
      rfl
    · rw [if_neg h]
      rfl

theorem registryVersion_advanceOrdinal (db : CapabilityDb) (project other : String) :
    (db.advanceOrdinal project).registryVersion other = db.registryVersion other := by
  have hafter := Table.find?_modify db.registry project
    (fun r => { r with nextOrdinal := r.nextOrdinal.succ }) (fun _ h => h) other
  rw [registryVersion, advanceOrdinal, hafter, registryVersion]
  by_cases h : project = other
  · rw [if_pos h]
    cases db.registry.find? other with
    | none => rfl
    | some row => rfl
  · rw [if_neg h]

/-- **What an `apply` that succeeds does to the rows and the versions.** -/
theorem wrote_apply {D : UnicodeDigits} {db db' : CapabilityDb} {project actor operation : String}
    {rows : List CapabilityIdentity} {expectedVersion version : ℤ} {detail : Option String}
    (h : db.apply D project rows expectedVersion actor operation detail = .ok (db', version)) :
    Wrote rows project db db' ∧ db.registryVersion project = expectedVersion ∧
      db'.registryVersion project = expectedVersion + 1 ∧
      ∀ other, project ≠ other → db'.registryVersion other = db.registryVersion other := by
  unfold apply at h
  dsimp only at h
  split at h
  · cases h
  · rename_i hversion
    rw [not_not] at hversion
    obtain ⟨written, hwritten, h⟩ := bind_eq_ok.mp h
    obtain ⟨best, -, h⟩ := bind_eq_ok.mp h
    obtain ⟨advanced, hadvanced, h⟩ := bind_eq_ok.mp h
    obtain ⟨rfl, -⟩ := Prod.mk.inj (Except.ok.inj h)
    have hregistry := (of_mem_storedIds_foldlM hwritten).1
    rw [advanceRegistry] at hadvanced
    split at hadvanced
    · obtain rfl := Except.ok.inj hadvanced
      have hafter := Table.find?_modify written.registry project (fun r =>
        { r with registryVersion := expectedVersion + 1,
                 nextOrdinal := r.nextOrdinal.max (best + 1) }) (fun _ h => h)
      have hwrote : Wrote rows project (db.ensureRegistry project) written := wrote_foldlM hwritten
      refine ⟨hwrote, hversion, ?_, fun other hne => ?_⟩
      · obtain ⟨row, hrow⟩ := find?_ensureRegistry db project
        rw [registryVersion, hafter, if_pos rfl, hregistry, hrow]
        rfl
      · rw [registryVersion, hafter, if_neg hne, hregistry,
          ← registryVersion_ensureRegistry db project other]
        rfl
    · cases hadvanced

end CapabilityDb

/-! ## 3. The callers -/

/-- What a caller has read: the version, and then the rows. -/
structure LineageReader where
  project : String
  version : ℤ
  rows : Option (List CapabilityIdentity) := none

/-- The store, and the callers that are between their first read and their write. -/
structure LineageState where
  db : CapabilityDb := {}
  readers : ℕ → Option LineageReader := fun _ => none

/-- A call of some caller: an allocator's insertion, a call of the function it returned, the two
reads, and the write of an assessment or of a correction with what the caller computes before it.
`answers` and `answer` are what its calls of the allocator returned. -/
inductive LineageEvent (σ : Type) where
  | allocator (project : String)
  | allocate (project : String)
  | readVersion (caller : ℕ) (project : String)
  | load (caller : ℕ)
  | assess (caller : ℕ) (S : Scoring σ) (runId : String) (proposed : List ProposedCapability)
      (answers : List String)
  | correct (caller : ℕ) (correction : IdentityCorrection) (answer : String)

namespace LineageState

variable {σ : Type} [LinearOrder σ] (D : UnicodeDigits)

/-- `resolve` and `identity_rows`, as `discover_lock` calls them. -/
def assessedRows (S : Scoring σ) (project runId : String) (proposed : List ProposedCapability)
    (answers : List String) (registry : List CapabilityIdentity) :
    Except CapabilityError (List CapabilityIdentity) := do
  let result ← Matcher.resolve S proposed registry answers
  Rows.identityRows project runId result
    (Dict.ofItems (proposed.map fun p => (p.localKey, p.fingerprint))) registry

/-- `store.apply` at the version the caller read. -/
def write (s : LineageState) (r : LineageReader) (rows : List CapabilityIdentity)
    (actor operation : String) (detail : Option String) : LineageState :=
  { s with db := s.db.perform D (.apply r.project rows r.version actor operation detail) }

/-- One call.  A caller that raises before its write, or finds nothing to write, leaves the store
alone. -/
def next (s : LineageState) : LineageEvent σ → Option LineageState
  | .allocator project => some { s with db := s.db.perform D (.allocator project) }
  | .allocate project => some { s with db := s.db.perform D (.allocate project) }
  | .readVersion caller project => some { s with
      readers := Function.update s.readers caller
        (some { project, version := s.db.registryVersion project }) }
  | .load caller => (s.readers caller).map fun r => { s with
      readers := Function.update s.readers caller
        (some { r with rows := some (s.db.load r.project) }) }
  | .assess caller S runId proposed answers => do
    let r ← s.readers caller
    let registry ← r.rows
    return match assessedRows S r.project runId proposed answers registry with
      | .ok [] => s
      | .ok rows => s.write D r rows "assessment" "resolve" none
      | .error _ => s
  | .correct caller correction answer => do
    let r ← s.readers caller
    let registry ← r.rows
    return match Corrections.changedRows r.project registry correction answer with
      | .ok (some rows) => s.write D r rows correction.approvedBy correction.operation.value
          (some correction.reason)
      | .ok none => s
      | .error _ => s

end LineageState

/-- The runs of any callers, from the empty store. -/
abbrev LineageRun (σ : Type) [LinearOrder σ] (D : UnicodeDigits) :=
  Run ({} : LineageState) (LineageState.next (σ := σ) D)

/-! ## 4. Soundness of the stored rows -/

namespace CapabilityDb

def mergedInto (db : CapabilityDb) (project id : String) : Option String :=
  (db.rowAt project id).bind (·.mergedInto)

/-- **The lineage of a project is sound**: the status of each row agrees with its pointer, no id is
merged into itself along any number of pointers, and from a merged row the pointers lead, after
finitely many steps, to a stored row that is not merged. -/
structure LineageSound (db : CapabilityDb) (project : String) : Prop where
  agrees : ∀ id row, db.rowAt project id = some row →
    (row.status = .merged ↔ row.mergedInto.isSome = true)
  acyclic : ∀ id, ¬Relation.TransGen (fun a b => db.mergedInto project a = some b) id id
  ends : ∀ id row, db.rowAt project id = some row → row.status = .merged →
    ∃ head headRow, Ends (db.mergedInto project) id head ∧ db.rowAt project head = some headRow ∧
      headRow.status ≠ .merged

/-- What every call keeps: the status agrees with the pointer, a pointer leads to a stored row, and
the pointers end. -/
structure LineageInv (db : CapabilityDb) (project : String) : Prop where
  agrees : ∀ id row, db.rowAt project id = some row →
    (row.status = .merged ↔ row.mergedInto.isSome = true)
  target : ∀ id t, db.mergedInto project id = some t → ∃ row, db.rowAt project t = some row
  ends : ∀ id, ∃ head, Ends (db.mergedInto project) id head

variable {project : String}

theorem LineageInv.exists_head {db : CapabilityDb} (h : db.LineageInv project) {id head : String}
    (hends : Ends (db.mergedInto project) id head) (hid : ∃ row, db.rowAt project id = some row) :
    ∃ row, db.rowAt project head = some row ∧ row.status ≠ .merged := by
  induction hends with
  | @here id hnone =>
    obtain ⟨row, hrow⟩ := hid
    refine ⟨row, hrow, fun hstatus => ?_⟩
    have hsome := (h.agrees id row hrow).mp hstatus
    rw [mergedInto, hrow, Option.bind_some] at hnone
    rw [hnone] at hsome
    exact absurd hsome (by decide)
  | @step id t head ht _ ih => exact ih (h.target id t ht)

theorem LineageInv.sound {db : CapabilityDb} (h : db.LineageInv project) :
    db.LineageSound project := by
  refine ⟨h.agrees, fun id => ?_, fun id row hrow _ => ?_⟩
  · obtain ⟨head, hends⟩ := h.ends id
    exact hends.not_transGen_self
  · obtain ⟨head, hends⟩ := h.ends id
    obtain ⟨headRow, hhead, hstatus⟩ := h.exists_head hends ⟨row, hrow⟩
    exact ⟨head, headRow, hends, hhead, hstatus⟩

theorem LineageInv.congr {db db' : CapabilityDb} (h : db.LineageInv project)
    (hrows : ∀ id, db'.rowAt project id = db.rowAt project id) : db'.LineageInv project := by
  have hinto : db'.mergedInto project = db.mergedInto project := funext fun id => by
    rw [mergedInto, hrows, mergedInto]
  refine ⟨fun id row hrow => h.agrees id row (hrows id ▸ hrow), fun id t ht => ?_, ?_⟩
  · obtain ⟨row, hrow⟩ := h.target id t (hinto ▸ ht)
    exact ⟨row, (hrows t).trans hrow⟩
  · exact hinto ▸ h.ends

/-- The registry a batch is computed from is the stored one. -/
def Current (registry : List CapabilityIdentity) (db : CapabilityDb) (project : String) : Prop :=
  ∀ row ∈ registry, db.rowAt project row.bcId = some row

/-- **A sound batch over the stored rows keeps the lineage.** -/
theorem LineageInv.wrote {db db' : CapabilityDb} {registry rows : List CapabilityIdentity}
    (h : db.LineageInv project) (hbatch : SoundBatch registry rows)
    (hcurrent : Current registry db project) (hwrote : Wrote rows project db db') :
    db'.LineageInv project := by
  -- What is pointed at from a row that a batch writes.
  have hpointer : ∀ row ∈ rows, ∀ t, row.mergedInto = some t →
      (∃ r, db'.rowAt project t = some r ∧ r.mergedInto = none) ∨
        db.mergedInto project row.bcId = some t := by
    intro row hrow t ht
    rcases hbatch.pointer row hrow t ht with ⟨row', hrow', rfl, hnone⟩ | ⟨old, hold, hid, hinto⟩
    · left
      rcases hwrote project row'.bcId with ⟨row'', hrow'', -, -, hid, r, hr, -, hinto⟩ | ⟨hnew, -⟩
      · obtain rfl := List.inj_on_of_nodup_map hbatch.sound.nodup hrow'' hrow' hid
        exact ⟨r, hr, hinto.trans hnone⟩
      · exact absurd ⟨rfl, rfl⟩ (hnew row' hrow')
    · right
      rw [mergedInto, ← hid, hcurrent old hold]
      exact hinto
  have hkept : ∀ id, (∃ row, db.rowAt project id = some row) →
      ∃ row, db'.rowAt project id = some row := by
    rintro id ⟨row, hrow⟩
    rcases hwrote project id with ⟨-, -, -, -, -, r, hr, -⟩ | ⟨-, hsame⟩
    · exact ⟨r, hr⟩
    · exact ⟨row, hsame.trans hrow⟩
  refine ⟨fun id r hr => ?_, fun id t ht => ?_, fun id => ?_⟩
  · rcases hwrote project id with ⟨row, hrow, -, -, -, r', hr', hstatus, hinto⟩ | ⟨-, hsame⟩
    · obtain rfl := Option.some.inj (hr'.symm.trans hr)
      rw [hstatus, hinto]
      exact hbatch.sound.agrees row hrow
    · exact h.agrees id r (hsame ▸ hr)
  · rw [mergedInto] at ht
    rcases hwrote project id with ⟨row, hrow, -, -, -, r, hr, -, hinto⟩ | ⟨-, hsame⟩
    · rw [hr, Option.bind_some, hinto] at ht
      rcases hpointer row hrow t ht with ⟨r', hr', -⟩ | hold
      · exact ⟨r', hr'⟩
      · exact hkept t (h.target _ t hold)
    · exact hkept t (h.target id t (by rw [mergedInto, ← hsame, ht]))
  · obtain ⟨head, hends⟩ := h.ends id
    refine hends.redirect fun a => ?_
    rcases hwrote project a with ⟨row, hrow, -, -, rfl, r, hr, -, hinto⟩ | ⟨-, hsame⟩
    · have hinto' : db'.mergedInto project row.bcId = row.mergedInto := by
        rw [mergedInto, hr, Option.bind_some, hinto]
      cases hrowInto : row.mergedInto with
      | none => exact Or.inr (Or.inl (hinto'.trans hrowInto))
      | some t =>
        rcases hpointer row hrow t hrowInto with ⟨r', hr', hnone⟩ | hold
        · refine Or.inr (Or.inr ⟨t, hinto'.trans hrowInto, ?_⟩)
          rw [mergedInto, hr', Option.bind_some, hnone]
        · exact Or.inl ((hinto'.trans hrowInto).trans hold.symm)
    · exact Or.inl (by rw [mergedInto, hsame, mergedInto])

end CapabilityDb

/-! ## 5. The invariant of the callers -/

/-- What a caller has read is not newer than the store; and where the version it read is still the
store's, the rows it read are still the stored ones. -/
structure ReaderInv (db : CapabilityDb) (r : LineageReader) : Prop where
  version : r.version ≤ db.registryVersion r.project
  sound : ∀ rows, r.rows = some rows → SoundRows rows
  current : ∀ rows, r.rows = some rows → r.version = db.registryVersion r.project →
    db.Current rows r.project

structure LineageStateInv (s : LineageState) : Prop where
  rows : ∀ project, s.db.LineageInv project
  readers : ∀ caller r, s.readers caller = some r → ReaderInv s.db r

namespace CapabilityDb

theorem mem_load {db : CapabilityDb} {project : String} {row : CapabilityIdentity} :
    row ∈ db.load project ↔ row ∈ db.identities.rows ∧ row.project = project := by
  rw [load, List.mem_insertionSort, List.mem_filter, decide_eq_true_eq]

theorem current_load (db : CapabilityDb) (project : String) :
    db.Current (db.load project) project := by
  intro row hrow
  obtain ⟨hmem, rfl⟩ := mem_load.mp hrow
  exact Table.find?_key hmem

theorem nodup_load (db : CapabilityDb) (project : String) :
    ((db.load project).map (·.bcId)).Nodup := by
  have hrows : (db.load project).Nodup := (List.perm_insertionSort _ _).nodup_iff.mpr
    ((List.Nodup.of_map _ db.identities.keys_nodup).filter _)
  refine hrows.map_on fun a ha b hb hid => ?_
  have hfind := current_load db project
  exact Option.some.inj ((hfind a ha).symm.trans (hid ▸ hfind b hb))

theorem LineageInv.soundRows_load {db : CapabilityDb} {project : String}
    (h : db.LineageInv project) : SoundRows (db.load project) :=
  ⟨nodup_load db project, fun r hr => h.agrees r.bcId r (current_load db project r hr)⟩

end CapabilityDb

namespace LineageStateInv

variable {D : UnicodeDigits}

/-- An `apply` of a sound batch, at the version its caller read, keeps the invariant. -/
theorem write {s : LineageState} (h : LineageStateInv s) {caller : ℕ} {r : LineageReader}
    (hr : s.readers caller = some r) {registry rows : List CapabilityIdentity}
    (hregistry : r.rows = some registry) (hbatch : SoundBatch registry rows)
    (actor operation : String) (detail : Option String) :
    LineageStateInv (s.write D r rows actor operation detail) := by
  rw [LineageState.write, CapabilityDb.perform]
  split
  · rename_i db' version happly
    obtain ⟨hwrote, hversion, hnext, hothers⟩ := CapabilityDb.wrote_apply happly
    have hcurrent := (h.readers caller r hr).current registry hregistry hversion.symm
    have hsame : ∀ project, r.project ≠ project → ∀ id,
        db'.rowAt project id = s.db.rowAt project id := by
      intro project hne id
      rcases hwrote project id with ⟨-, -, -, heq, -⟩ | ⟨-, hsame⟩
      · exact absurd heq hne
      · exact hsame
    refine ⟨fun project => ?_, fun other r' hr' => ?_⟩
    · by_cases hp : r.project = project
      · subst hp
        exact (h.rows r.project).wrote hbatch hcurrent hwrote
      · exact (h.rows project).congr (hsame project hp)
    · have hread := h.readers other r' hr'
      by_cases hp : r.project = r'.project
      · -- The version has moved past everything that was read before.
        have hle := hread.version
        rw [← hp, hversion] at hle
        refine ⟨?_, hread.sound, fun rows' hrows' heq => ?_⟩
        · show r'.version ≤ db'.registryVersion r'.project
          rw [← hp, hnext]
          omega
        · change r'.version = db'.registryVersion r'.project at heq
          rw [← hp, hnext] at heq
          omega
      · refine ⟨?_, hread.sound, fun rows' hrows' heq => ?_⟩
        · show r'.version ≤ db'.registryVersion r'.project
          rw [hothers _ hp]
          exact hread.version
        · change r'.version = db'.registryVersion r'.project at heq
          rw [hothers _ hp] at heq
          exact fun row hrow => (hsame _ hp _).trans (hread.current rows' hrows' heq row hrow)
  · exact h

theorem of_db {s : LineageState} (h : LineageStateInv s) {db' : CapabilityDb}
    (hrows : ∀ project id, db'.rowAt project id = s.db.rowAt project id)
    (hversions : ∀ project, db'.registryVersion project = s.db.registryVersion project) :
    LineageStateInv { s with db := db' } := by
  refine ⟨fun project => (h.rows project).congr (hrows project), fun caller r hr => ?_⟩
  have hread := h.readers caller r hr
  refine ⟨?_, hread.sound, fun rows hr heq row hrow => ?_⟩
  · rw [hversions]
    exact hread.version
  · rw [hversions] at heq
    exact (hrows _ _).trans (hread.current rows hr heq row hrow)

theorem of_reader {s : LineageState} (h : LineageStateInv s) (caller : ℕ) {r : LineageReader}
    (hr : ReaderInv s.db r) :
    LineageStateInv { s with readers := Function.update s.readers caller (some r) } := by
  refine ⟨h.rows, fun other r' hr' => ?_⟩
  change Function.update s.readers caller (some r) other = some r' at hr'
  rcases eq_or_ne other caller with rfl | hne
  · rw [Function.update_self] at hr'
    exact Option.some.inj hr' ▸ hr
  · rw [Function.update_of_ne hne] at hr'
    exact h.readers other r' hr'

variable {σ : Type} [LinearOrder σ]

/-- **Every call keeps the invariant.** -/
theorem next {s s' : LineageState} {e : LineageEvent σ} (h : LineageStateInv s)
    (hnext : s.next D e = some s') : LineageStateInv s' := by
  cases e with
  | allocator project =>
    obtain rfl := Option.some.inj hnext
    exact h.of_db (fun _ _ => rfl) fun other =>
      CapabilityDb.registryVersion_ensureRegistry s.db project other
  | allocate project =>
    obtain rfl := Option.some.inj hnext
    rw [CapabilityDb.perform, CapabilityDb.allocate_fst]
    exact h.of_db (fun _ _ => rfl) fun other =>
      CapabilityDb.registryVersion_advanceOrdinal s.db project other
  | readVersion caller project =>
    obtain rfl := Option.some.inj hnext
    exact h.of_reader caller ⟨le_refl _, (fun _ hr => by cases hr), (fun _ hr => by cases hr)⟩
  | load caller =>
    obtain ⟨r, hr, rfl⟩ := Option.map_eq_some_iff.mp hnext
    refine h.of_reader caller ⟨(h.readers caller r hr).version, fun rows hrows => ?_,
      fun rows hrows _ => ?_⟩
    · exact Option.some.inj hrows ▸ (h.rows r.project).soundRows_load
    · exact Option.some.inj hrows ▸ CapabilityDb.current_load s.db r.project
  | assess caller S runId proposed answers =>
    obtain ⟨r, hr, hnext⟩ := Option.bind_eq_some_iff.mp hnext
    obtain ⟨registry, hregistry, hnext⟩ := Option.bind_eq_some_iff.mp hnext
    obtain rfl := Option.some.inj hnext
    split
    · exact h
    · rename_i rows hrows
      obtain ⟨result, hresult, hrows⟩ := bind_eq_ok.mp hrows
      exact h.write hr hregistry (Rows.identityRows_spec
        ((h.readers caller r hr).sound registry hregistry)
        (Matcher.resolvedFrom_of_resolve hresult) hrows) _ _ _
    · exact h
  | correct caller correction answer =>
    obtain ⟨r, hr, hnext⟩ := Option.bind_eq_some_iff.mp hnext
    obtain ⟨registry, hregistry, hnext⟩ := Option.bind_eq_some_iff.mp hnext
    obtain rfl := Option.some.inj hnext
    split
    · rename_i rows hrows
      exact h.write hr hregistry (Corrections.changedRows_spec
        ((h.readers caller r hr).sound registry hregistry) hrows) _ _ _
    · exact h
    · exact h

end LineageStateInv

/-! ## 6. A correction with no other caller between -/

namespace LineageState

variable {σ : Type} [LinearOrder σ] {D : UnicodeDigits}

def Calls (σ : Type) [LinearOrder σ] (D : UnicodeDigits) (s s' : LineageState) : Prop :=
  ∃ e : LineageEvent σ, s.next D e = some s'

theorem calls_correctedRows (s : LineageState) (project : String)
    (correction : IdentityCorrection) :
    Relation.ReflTransGen (Calls σ D) s
        { s with db := (s.db.correctedRows project correction).1 } ∧
      ∀ changed, (s.db.correctedRows project correction).2 = .ok changed →
        ∃ answer, Corrections.changedRows project (s.db.load project) correction answer =
          .ok changed := by
  have hallocator : Calls σ D s { s with db := s.db.ensureRegistry project } :=
    ⟨.allocator project, rfl⟩
  unfold CapabilityDb.correctedRows Corrections.changedRows
  dsimp only
  cases Corrections.rowOf (s.db.load project) correction.sourceBcId with
  | none => exact ⟨Relation.ReflTransGen.refl, fun _ h => nomatch h⟩
  | some source =>
    dsimp only
    by_cases hsplit : correction.operation = .split
    · rw [if_pos hsplit]
      cases hcheck : Corrections.checkSplit source correction with
      | error e => exact ⟨Relation.ReflTransGen.single hallocator, fun _ h => nomatch h⟩
      | ok u =>
        refine ⟨(Relation.ReflTransGen.single hallocator).tail ⟨.allocate project, rfl⟩, ?_⟩
        intro changed h
        obtain ⟨answer, -, h⟩ := bind_eq_ok.mp h
        obtain ⟨rows, hrows, h⟩ := bind_eq_ok.mp h
        refine ⟨answer, ?_⟩
        rw [if_pos hsplit]
        exact bind_eq_ok.mpr ⟨(), rfl, bind_eq_ok.mpr ⟨rows, hrows, h⟩⟩
    · rw [if_neg hsplit]
      exact ⟨Relation.ReflTransGen.refl, fun changed h => ⟨"", by rw [if_neg hsplit]; exact h⟩⟩

/-- **`apply_correction` with no other caller between is such a sequence of calls.** -/
theorem calls_applyCorrection (s : LineageState) (project : String)
    (correction : IdentityCorrection) : ∃ s', Relation.ReflTransGen (Calls σ D) s s' ∧
      s'.db = (s.db.applyCorrection D project correction).1 := by
  let r : LineageReader :=
    { project, version := s.db.registryVersion project, rows := some (s.db.load project) }
  let read : LineageState :=
    { s with
      readers := Function.update (Function.update s.readers 0
        (some { project, version := s.db.registryVersion project })) 0 (some r) }
  have hreads : Relation.ReflTransGen (Calls σ D) s read :=
    (Relation.ReflTransGen.single ⟨.readVersion 0 project, rfl⟩).tail ⟨.load 0, rfl⟩
  obtain ⟨hcalls, hrows⟩ := calls_correctedRows (σ := σ) (D := D) read project correction
  have hread := hreads.trans hcalls
  unfold CapabilityDb.applyCorrection
  dsimp only
  split
  · rename_i h
    exact ⟨_, hread, congrArg Prod.fst h⟩
  · rename_i h
    exact ⟨_, hread, congrArg Prod.fst h⟩
  · rename_i db' changed h
    obtain ⟨answer, hanswer⟩ := hrows (some changed) (congrArg Prod.snd h)
    refine ⟨_, hread.tail ⟨.correct 0 correction answer, rfl⟩, ?_⟩
    have hdb : (s.db.correctedRows project correction).1 = db' := congrArg Prod.fst h
    change (match Corrections.changedRows project (s.db.load project) correction answer with
      | .ok (some rows) => _ | .ok none => _ | .error _ => _ : LineageState).db = _
    rw [show Corrections.changedRows project (s.db.load project) correction answer = _ from hanswer]
    dsimp only [write, read, r]
    rw [hdb, CapabilityDb.perform]
    cases CapabilityDb.apply D db' project changed (s.db.registryVersion project)
        correction.approvedBy correction.operation.value (some correction.reason) with
    | ok result => rfl
    | error e => rfl

end LineageState

/-! ## 7. The theorem -/

theorem lineageStateInv_of_run {σ : Type} [LinearOrder σ] {D : UnicodeDigits}
    {log : List (Transition LineageState (LineageEvent σ))} {s : LineageState}
    (run : LineageRun σ D log s) : LineageStateInv s := by
  refine Run.induct (P := fun _ s => LineageStateInv s) ?_ ?_ run
  · refine ⟨fun project => ⟨?_, ?_, fun id => ⟨id, Ends.here rfl⟩⟩, ?_⟩
    · exact fun _ row h => absurd h.symm (Option.some_ne_none row)
    · exact fun _ row h => absurd h.symm (Option.some_ne_none row)
    · exact fun _ row h => absurd h.symm (Option.some_ne_none row)
  · exact fun _ _ _ _ _ h hnext => h.next hnext

/-- **Capability lineage stays sound.**  In every state of every run of assessments and corrections,
by any callers whose calls interleave in any way, with any scores, proposals, answers of the
allocator and corrections: the lineage of every project is sound. -/
theorem lineage_sound {σ : Type} [LinearOrder σ] (D : UnicodeDigits)
    {log : List (Transition LineageState (LineageEvent σ))} {s : LineageState}
    (run : LineageRun σ D log s) (project : String) : s.db.LineageSound project :=
  ((lineageStateInv_of_run run).rows project).sound

def sharedScoring : Scoring ℕ where
  score := fun a b =>
    match (a.tiers .contract).countP (· ∈ b.tiers .contract) with
    | 0 => none
    | n + 1 => some (n + 1, [])
  tMatch := 1
  near := fun _ _ => false
  fixed := toString
  tMatchText := "1"
  epsilonText := "0"

/-- A capability with these entry points. -/
def sampleProposal (localKey : String) (members : List String) : ProposedCapability :=
  ⟨localKey, .of (fun t => if t = .contract then members else []) .measured⟩

def sampleCorrection (operation : CorrectionOp) (sourceBcId : String)
    (targetBcId : Option String) (partition : List String) : IdentityCorrection :=
  { operation, approvedBy := "ann", reason := "checked", sourceBcId, targetBcId, partition }

/-- Two capabilities are found; a scan that sees one absorbs the second; what is left is split, and
then merged into its own part; and a caller with old rows comes too late to close a cycle. -/
def lineageScript : List (LineageEvent ℕ) :=
  [.readVersion 0 "shop", .load 0, .allocator "shop", .allocate "shop", .allocate "shop",
    .assess 0 sharedScoring "run-1" [sampleProposal "a" ["x"], sampleProposal "b" ["y"]]
      ["BC-001", "BC-002"],
    .readVersion 1 "shop", .load 1,
    .assess 1 sharedScoring "run-2" [sampleProposal "c" ["x", "y"]] [],
    .readVersion 2 "shop", .load 2, .allocate "shop",
    .correct 2 (sampleCorrection .split "BC-001" none ["y"]) "BC-003",
    .readVersion 3 "shop", .load 3, .readVersion 4 "shop", .load 4,
    .correct 3 (sampleCorrection .merge "BC-001" (some "BC-003") []) "",
    .correct 4 (sampleCorrection .merge "BC-003" (some "BC-001") []) ""]

def lineageSampleRun : List (Transition LineageState (LineageEvent ℕ)) × LineageState :=
  (runScript (LineageState.next asciiDigits) ([], {}) lineageScript).get (by decide +kernel)

theorem lineage_sound_sample :
    (lineageSampleRun.2.db.load "shop").map (fun r => (r.bcId, r.status, r.mergedInto)) =
      [("BC-001", .merged, some "BC-003"), ("BC-002", .merged, some "BC-001"),
        ("BC-003", .active, none)] ∧
    lineageSampleRun.2.db.LineageSound "shop" := by
  refine ⟨by decide +kernel, ?_⟩
  have hrun : LineageRun ℕ asciiDigits lineageSampleRun.1 lineageSampleRun.2 :=
    Run.of_runScript Run.start (Option.some_get (by decide +kernel)).symm
  exact lineage_sound asciiDigits hrun "shop"

end Kroker
