import Kroker.Capability.Lineage

/-!
# Re-issuing a correction

`apply_correction` of `capability/corrections.py` says that a correction that already holds is a
no-op when it is issued again.  What holds already is read off the rows, and only `_absorb` has such
a test: `_split` looks for the members it is to move, which the first split has moved.

## 1.  What an applied batch leaves

After an `apply` each row of the batch is stored, but for its first run (`rowAt_apply`).
-/

namespace Kroker

open Corrections

namespace CapabilityDb

/-! ## 1.  What an applied batch leaves -/

theorem rowOf_load (db : CapabilityDb) (project id : String) :
    rowOf (db.load project) id = db.rowAt project id := by
  refine Option.ext fun row => ?_
  rw [rowAt, Table.find?_eq_some_iff]
  constructor
  · intro h
    obtain ⟨hmem, rfl⟩ := rowOf_eq_some h
    obtain ⟨hrows, rfl⟩ := mem_load.mp hmem
    exact ⟨hrows, rfl⟩
  · rintro ⟨hmem, hkey⟩
    obtain ⟨rfl, rfl⟩ := Prod.mk.inj hkey
    have hload : row ∈ db.load row.project := mem_load.mpr ⟨hmem, rfl⟩
    cases hfound : rowOf (db.load row.project) row.bcId with
    | none => exact absurd (List.find?_eq_none.mp hfound row hload) (by simp)
    | some other =>
      obtain ⟨hother, hid⟩ := rowOf_eq_some hfound
      exact congrArg some (List.inj_on_of_nodup_map (nodup_load db _) hother hload hid)

theorem rowAt_applyRow {project actor operation : String} {detail : Option String}
    {db db' : CapabilityDb} {row : CapabilityIdentity}
    (h : applyRow project actor operation detail db row = .ok db') :
    ∃ run, db'.rowAt project row.bcId = some { row with firstSeenRun := run } := by
  rw [applyRow] at h
  split at h
  · cases h
  · rename_i hproject
    rw [not_not] at hproject
    obtain rfl := Except.ok.inj h
    have hkey : (project, row.bcId) = row.primaryKey := Prod.ext hproject.symm rfl
    have hmodify := Table.find?_modify db.identities row.primaryKey
      (fun stored => { row with firstSeenRun := stored.firstSeenRun }) (fun _ _ => rfl)
      (project, row.bcId)
    have hrow : ((db.upsertIdentity row).recordEvent project row actor operation detail).rowAt
        project row.bcId = _ := (Table.find?_insertNew _ row (project, row.bcId)).trans
      (congrArg (Option.or · _) hmodify)
    rw [if_pos hkey.symm, if_pos hkey.symm] at hrow
    rw [hrow]
    cases db.identities.find? (project, row.bcId) with
    | none => exact ⟨row.firstSeenRun, rfl⟩
    | some stored => exact ⟨stored.firstSeenRun, rfl⟩

theorem rowAt_foldlM {project actor operation : String} {detail : Option String}
    {rows : List CapabilityIdentity} {db db' : CapabilityDb} (hrows : (rows.map (·.bcId)).Nodup)
    (h : rows.foldlM (applyRow project actor operation detail) db = .ok db') :
    ∀ row ∈ rows, ∃ run, db'.rowAt project row.bcId = some { row with firstSeenRun := run } := by
  induction rows generalizing db with
  | nil => exact nofun
  | cons first rows ih =>
    rw [List.foldlM_cons] at h
    obtain ⟨db₁, hfirst, hrest⟩ := bind_eq_ok.mp h
    rw [List.map_cons, List.nodup_cons] at hrows
    intro row hrow
    rcases List.mem_cons.mp hrow with rfl | hrow
    · -- No later row has this id, so the later rounds keep what this one wrote.
      obtain ⟨run, hrun⟩ := rowAt_applyRow hfirst
      rcases wrote_foldlM hrest project row.bcId with ⟨other, hother, -, -, hid, -⟩ | ⟨-, hsame⟩
      · exact absurd (List.mem_map.mpr ⟨other, hother, hid⟩) hrows.1
      · exact ⟨run, hsame.trans hrun⟩
    · exact ih hrows.2 hrest row hrow

/-- **The rows of a batch are stored**, but for their first runs, and the version is the next. -/
theorem rowAt_apply {D : UnicodeDigits} {db db' : CapabilityDb} {project actor operation : String}
    {rows : List CapabilityIdentity} {expectedVersion version : ℤ} {detail : Option String}
    (hrows : (rows.map (·.bcId)).Nodup)
    (h : db.apply D project rows expectedVersion actor operation detail = .ok (db', version)) :
    db'.registryVersion project = version ∧
      ∀ row ∈ rows, ∃ run, db'.rowAt project row.bcId = some { row with firstSeenRun := run } := by
  have hversion := (wrote_apply h).2.2.1
  unfold apply at h
  dsimp only at h
  split at h
  · exact nomatch h
  · obtain ⟨written, hwritten, h⟩ := bind_eq_ok.mp h
    obtain ⟨best, -, h⟩ := bind_eq_ok.mp h
    obtain ⟨advanced, hadvanced, h⟩ := bind_eq_ok.mp h
    obtain ⟨rfl, rfl⟩ := Prod.mk.inj (Except.ok.inj h)
    have hidentities : advanced.identities = written.identities :=
      (advanceRegistry_eq_ok hadvanced).1
    refine ⟨hversion, fun row hrow => ?_⟩
    rw [rowAt, hidentities]
    exact rowAt_foldlM hrows hwritten row hrow

end CapabilityDb

/-! ## 2.  The second call -/

namespace Corrections

variable {correction : IdentityCorrection}

theorem absorb_eq_ok {source : CapabilityIdentity} {rows : List CapabilityIdentity}
    {changed : Option (List CapabilityIdentity)} (h : absorb source correction rows = .ok changed) :
    ∃ target, correction.targetBcId = some target.bcId ∧ ∃ hne : source.bcId ≠ target.bcId,
      target.status = .active ∧ (changed = none ∨ changed = some
        [absorbedRow source target hne, { target with fingerprint := source.fingerprint }]) := by
  unfold absorb at h
  split at h
  · cases h
  · rename_i id hid
    split at h
    · cases h
    · rename_i target htarget
      obtain ⟨-, rfl⟩ := rowOf_eq_some htarget
      split at h
      · cases h
      · rename_i hne
        dsimp only at h
        split at h
        · cases h
        · rename_i hstatus
          refine ⟨target, hid, hne, not_not.mp hstatus, ?_⟩
          split at h
          · exact .inl (Except.ok.inj h).symm
          · exact .inr (Except.ok.inj h).symm

/-- **What is absorbed is not absorbed again.** -/
theorem absorb_settled {source : CapabilityIdentity} (target : CapabilityIdentity)
    {rows : List CapabilityIdentity} (hid : correction.targetBcId = some target.bcId)
    (htarget : rowOf rows target.bcId = some target) (hactive : target.status = .active)
    (hne : source.bcId ≠ target.bcId) (hmerged : source.status = .merged)
    (hinto : source.mergedInto = some target.bcId) : absorb source correction rows = .ok none := by
  unfold absorb
  rw [hid]
  dsimp only
  rw [htarget]
  dsimp only
  rw [dif_neg hne, if_neg (not_not.mpr hactive), if_pos ⟨hmerged, hinto⟩]

/-- **What remains after a split has none of the members to move.** -/
theorem checkSplit_remaining {source : CapabilityIdentity} (remaining : CapabilityIdentity)
    (h : checkSplit source correction = .ok ())
    (hfingerprint : remaining.fingerprint =
      .of (kept source correction.partition) source.fingerprint.collected) :
    ∃ e, checkSplit remaining correction = .error e := by
  have hpartition : correction.partition ≠ [] := by
    intro hnil
    rw [checkSplit, if_pos hnil] at h
    cases h
  obtain ⟨member, hmember⟩ := List.exists_mem_of_ne_nil _ hpartition
  have hkept : ∀ t, taken remaining correction.partition t = [] := by
    intro t
    refine List.filter_eq_nil_iff.mpr fun m hm hmoving => ?_
    rw [hfingerprint] at hm
    have hstays := (List.mem_filter.mp (mem_sortedSet.mp hm)).2
    exact of_decide_eq_true hstays (of_decide_eq_true hmoving)
  have hunmatched : member ∈ (sortedSet correction.partition).filter
      (· ∉ SignalTier.all.flatMap (taken remaining correction.partition)) := by
    refine List.mem_filter.mpr ⟨mem_sortedSet.mpr hmember, decide_eq_true fun hmem => ?_⟩
    obtain ⟨t, -, ht⟩ := List.mem_flatMap.mp hmem
    rw [hkept t] at ht
    cases ht
  rw [checkSplit, if_neg hpartition, if_pos (List.ne_nil_of_mem hunmatched)]
  exact ⟨_, rfl⟩

end Corrections

namespace CapabilityDb

variable {D : UnicodeDigits} {db db' : CapabilityDb} {project : String}
  {correction : IdentityCorrection} {version : ℤ}

/-- **A correction that was accepted**: the rows it computed were in place, or were applied. -/
theorem applyCorrection_eq_ok (h : db.applyCorrection D project correction = (db', .ok version)) :
    ∃ source, rowOf (db.load project) correction.sourceBcId = some source ∧
      ∃ between changed, db.correctedRows project correction = (between, .ok changed) ∧
        (changed = none ∧ db' = between ∧ version = db.registryVersion project ∨
          ∃ rows, changed = some rows ∧ between.apply D project rows (db.registryVersion project)
            correction.approvedBy correction.operation.value (some correction.reason) =
              .ok (db', version)) := by
  cases hsource : rowOf (db.load project) correction.sourceBcId with
  | none =>
    unfold applyCorrection correctedRows at h
    dsimp only at h
    rw [hsource] at h
    exact nomatch (Prod.mk.inj h).2
  | some source =>
    refine ⟨source, rfl, ?_⟩
    unfold applyCorrection at h
    dsimp only at h
    split at h
    · exact nomatch (Prod.mk.inj h).2
    · rename_i between hcorrected
      obtain ⟨rfl, hversion⟩ := Prod.mk.inj h
      exact ⟨between, none, hcorrected, .inl ⟨rfl, rfl, (Except.ok.inj hversion).symm⟩⟩
    · rename_i between rows hcorrected
      split at h
      · rename_i written version' happly
        obtain ⟨rfl, hversion⟩ := Prod.mk.inj h
        obtain rfl := Except.ok.inj hversion
        exact ⟨between, some rows, hcorrected, .inr ⟨rows, rfl, happly⟩⟩
      · exact nomatch (Prod.mk.inj h).2

theorem correctedRows_of_absorb {source : CapabilityIdentity}
    (hsplit : correction.operation ≠ .split)
    (hsource : rowOf (db.load project) correction.sourceBcId = some source) :
    db.correctedRows project correction = (db, absorb source correction (db.load project)) := by
  unfold correctedRows
  dsimp only
  rw [hsource]
  exact if_neg hsplit

theorem correctedRows_of_split {source : CapabilityIdentity}
    (hsplit : correction.operation = .split)
    (hsource : rowOf (db.load project) correction.sourceBcId = some source) :
    (∀ e, checkSplit source correction = .error e →
      db.correctedRows project correction = (db.ensureRegistry project, .error e)) ∧
    ∀ between changed, db.correctedRows project correction = (between, .ok changed) →
      checkSplit source correction = .ok () ∧ ∃ newId rows,
        splitRows source correction newId = .ok rows ∧ changed = some rows := by
  unfold correctedRows
  dsimp only
  rw [hsource]
  dsimp only
  rw [if_pos hsplit]
  cases hcheck : checkSplit source correction with
  | error e =>
    refine ⟨fun e' he => by obtain rfl := Except.error.inj he; rfl, fun between changed h => ?_⟩
    exact nomatch (Prod.mk.inj h).2
  | ok u =>
    refine ⟨nofun, fun between changed h => ⟨rfl, ?_⟩⟩
    obtain ⟨newId, -, hrest⟩ := bind_eq_ok.mp (Prod.mk.inj h).2
    obtain ⟨rows, hrows, hchanged⟩ := bind_eq_ok.mp hrest
    exact ⟨newId, rows, hrows, (Except.ok.inj hchanged).symm⟩

theorem applyCorrection_of_none (h : db.correctedRows project correction = (db, .ok none)) :
    db.applyCorrection D project correction = (db, .ok (db.registryVersion project)) := by
  unfold applyCorrection
  dsimp only
  rw [h]

/-- **A merge or a reattachment that was accepted finds its rows in place.** -/
theorem correctedRows_again (hsplit : correction.operation ≠ .split)
    (h : db.applyCorrection D project correction = (db', .ok version)) :
    db'.correctedRows project correction = (db', .ok none) ∧
      db'.registryVersion project = version := by
  obtain ⟨source, hsource, between, changed, hcorrected, hrest⟩ := applyCorrection_eq_ok h
  have hfirst := hcorrected
  rw [correctedRows_of_absorb hsplit hsource] at hcorrected
  obtain ⟨rfl, habsorb⟩ := Prod.mk.inj hcorrected
  obtain ⟨target, hid, hne, hactive, hchanged⟩ := absorb_eq_ok habsorb
  rcases hrest with ⟨rfl, rfl, rfl⟩ | ⟨rows, rfl, happly⟩
  · exact ⟨hfirst, rfl⟩
  · obtain rfl := Option.some.inj (hchanged.resolve_left nofun)
    have hnodup : ([absorbedRow source target hne,
        { target with fingerprint := source.fingerprint }].map (·.bcId)).Nodup := by
      rw [List.map_cons, List.map_cons, List.map_nil, List.nodup_cons]
      exact ⟨fun hmem => hne (List.mem_singleton.mp hmem), List.nodup_singleton _⟩
    obtain ⟨hversion, hstored⟩ := rowAt_apply hnodup happly
    obtain ⟨run, habsorbed⟩ := hstored _ List.mem_cons_self
    obtain ⟨run', hsurvivor⟩ := hstored _ (List.mem_cons_of_mem _ List.mem_cons_self)
    rw [← rowOf_load] at habsorbed hsurvivor
    have hnow : rowOf (db'.load project) correction.sourceBcId =
        some { absorbedRow source target hne with firstSeenRun := run } :=
      (rowOf_eq_some hsource).2 ▸ habsorbed
    refine ⟨?_, hversion⟩
    rw [correctedRows_of_absorb hsplit hnow]
    exact congrArg (Prod.mk db') (absorb_settled
      { target with fingerprint := source.fingerprint, firstSeenRun := run' }
      hid hsurvivor hactive hne rfl rfl)

/-- **A split that was accepted is refused when it is issued again.** -/
theorem split_again (hsplit : correction.operation = .split)
    (h : db.applyCorrection D project correction = (db', .ok version)) :
    ∃ e, db'.applyCorrection D project correction = (db'.ensureRegistry project, .error e) := by
  obtain ⟨source, hsource, between, changed, hcorrected, hrest⟩ := applyCorrection_eq_ok h
  obtain ⟨hcheck, newId, rows, hrows, rfl⟩ :=
    (correctedRows_of_split hsplit hsource).2 between changed hcorrected
  obtain ⟨rows', hsame, happly⟩ := hrest.resolve_left fun hnone => by cases hnone.1
  obtain rfl := Option.some.inj hsame
  rw [splitRows] at hrows
  split at hrows
  · cases hrows
  · rename_i hne
    obtain rfl := Except.ok.inj hrows
    obtain ⟨-, hstored⟩ := rowAt_apply (by
      rw [List.map_cons, List.map_cons, List.map_nil, List.nodup_cons]
      exact ⟨fun hmem => hne (List.mem_singleton.mp hmem), List.nodup_singleton _⟩) happly
    obtain ⟨run, hremaining⟩ := hstored _ List.mem_cons_self
    rw [← rowOf_load] at hremaining
    have hnow : rowOf (db'.load project) correction.sourceBcId = some
        { source with
          fingerprint := .of (kept source correction.partition) source.fingerprint.collected
          firstSeenRun := run } := by
      rw [← (rowOf_eq_some hsource).2]
      exact hremaining
    obtain ⟨e, he⟩ := checkSplit_remaining
      { source with
        fingerprint := .of (kept source correction.partition) source.fingerprint.collected
        firstSeenRun := run } hcheck rfl
    refine ⟨e, ?_⟩
    unfold applyCorrection
    dsimp only
    rw [(correctedRows_of_split hsplit hnow).1 e he]

/-- **Re-issuing a correction is a no-op** exactly if it is not a split: for any tables, and any
correction that was accepted there. -/
theorem reissue_iff (D : UnicodeDigits) (db db' : CapabilityDb) (project : String)
    (correction : IdentityCorrection) (version : ℤ)
    (h : db.applyCorrection D project correction = (db', .ok version)) :
    (db'.applyCorrection D project correction = (db', .ok version) ∧
      db'.registryVersion project = version) ↔ correction.operation ≠ .split := by
  constructor
  · rintro ⟨hagain, -⟩ hsplit
    obtain ⟨e, he⟩ := split_again hsplit h
    exact nomatch (Prod.mk.inj (he.symm.trans hagain)).2
  · intro hsplit
    obtain ⟨hcorrected, hversion⟩ := correctedRows_again hsplit h
    exact ⟨by rw [applyCorrection_of_none hcorrected, hversion], hversion⟩

/-- Two stored capabilities. -/
def reissueDb : CapabilityDb where
  registry := (∅ : Table RegistryRow.project).insertNew ⟨"shop", 0, .int 3⟩
  identities := ((∅ : Table CapabilityIdentity.primaryKey).insertNew
    { bcId := "BC-001", project := "shop", firstSeenRun := "run",
      fingerprint := .of (fun _ => ["x", "y"]) .measured }).insertNew
    { bcId := "BC-002", project := "shop", firstSeenRun := "run",
      fingerprint := .of (fun _ => ["z"]) .measured }

/-- The tables after a correction. -/
def corrected (correction : IdentityCorrection) : CapabilityDb :=
  (reissueDb.applyCorrection asciiDigits "shop" correction).1

theorem reissue_iff_sample :
    (corrected (sampleCorrection .merge "BC-001" (some "BC-002") [])).applyCorrection asciiDigits
        "shop" (sampleCorrection .merge "BC-001" (some "BC-002") []) =
      (corrected (sampleCorrection .merge "BC-001" (some "BC-002") []), .ok 1) := by
  have hfirst : reissueDb.applyCorrection asciiDigits "shop"
      (sampleCorrection .merge "BC-001" (some "BC-002") []) =
        (corrected (sampleCorrection .merge "BC-001" (some "BC-002") []), .ok 1) :=
    Prod.ext rfl (by decide +kernel)
  exact ((reissue_iff asciiDigits _ _ _ _ _ hfirst).mpr (by decide)).1

/-- The members that were moved are no longer there to be moved. -/
theorem split_refused :
    (reissueDb.applyCorrection asciiDigits "shop" (sampleCorrection .split "BC-001" none ["y"])).2 =
      .ok 1 ∧
    ((corrected (sampleCorrection .split "BC-001" none ["y"])).applyCorrection asciiDigits "shop"
        (sampleCorrection .split "BC-001" none ["y"])).2 =
      .error (.value "partition members not present in BC-001: ['y']") := by
  decide +kernel

end CapabilityDb

end Kroker
