import Kroker.Capability.Matcher

/-!
# The rows an assessment writes

`identity_rows` of `capability/rows.py`: what a `ResolutionResult` makes of the registry it was
resolved against.  The rows are collected in a dictionary, attachments first, then the retired ids,
then the merged ones, so that a later pass replaces what an earlier one wrote for the same id.

`model_copy` does not run the validators of the row it copies.  It matters in one place, a loser
that would be merged into itself: the store would take that row, and every later `load` of the
project would raise on it.  The model raises at once.  No result of `resolve` gets there
(`ResolvedFrom.winner`).

`ResolvedFrom` is what `resolve` guarantees of its result, and `identityRows_spec` is what the rows
then are: their ids are distinct, and a row that points at another points at a row of the same batch
that does not.
-/

namespace Kroker

namespace Rows

variable {σ : Type}

/-! ## 1. The rows -/

def splitSource (advisories : List (Advisory σ)) : Dict String :=
  Dict.ofItems (advisories.filterMap fun a =>
    match a.kind, a.relatedBcId with
    | .split, some related => if related = "" then none else some (a.localKey, related)
    | _, _ => none)

def discoveredRow (project runId : String) (derivedFrom : Option String) (bcId : String)
    (fingerprint : CapabilityFingerprint) : Except CapabilityError CapabilityIdentity :=
  if h : derivedFrom = some bcId then .error (.value (bcId ++ " cannot be derived from itself"))
  else .ok { bcId, project, firstSeenRun := runId, derivedFrom, fingerprint, derivedFrom_ne := h }

/-- The row of an id that was matched: it keeps its first run and its provenance. -/
def matchedRow (prior : CapabilityIdentity) (fingerprint : CapabilityFingerprint) :
    CapabilityIdentity :=
  { prior with
    status := .active
    retiredReason := none
    fingerprint
    retiredReason_isSome := by decide
    mergedInto_isSome := nofun }

/-- The row of an id that was not observed. -/
def retiredRow (prior : CapabilityIdentity) : CapabilityIdentity :=
  { prior with
    status := .retired
    retiredReason := some .notObserved
    mergedInto := none
    retiredReason_isSome := by decide
    mergedInto_isSome := nofun
    mergedInto_ne := nofun }

def mergedRow (prior : CapabilityIdentity) (winner : String) :
    Except CapabilityError CapabilityIdentity :=
  if h : some winner = some prior.bcId then
    .error (.value (prior.bcId ++ " cannot be merged into itself"))
  else .ok { prior with
    status := .merged
    retiredReason := none
    mergedInto := some winner
    retiredReason_isSome := isSome_iff_of_merged
    mergedInto_isSome := fun _ => rfl
    mergedInto_ne := h }

def attachedRow (project runId : String) (split : Dict String)
    (fingerprints : Dict CapabilityFingerprint) (stored : Dict CapabilityIdentity)
    (a : IdentityAttachment σ) : Except CapabilityError CapabilityIdentity :=
  match fingerprints[a.localKey]? with
  | none => .error (.key a.localKey)
  | some fingerprint =>
    match stored[a.bcId]?, a.method with
    | none, _ | _, .firstDiscovery =>
      discoveredRow project runId split[a.localKey]? a.bcId fingerprint
    | some prior, _ => .ok (matchedRow prior fingerprint)

/-- One round of the first loop. -/
def putAttached (project runId : String) (split : Dict String)
    (fingerprints : Dict CapabilityFingerprint) (stored : Dict CapabilityIdentity)
    (rows : Dict CapabilityIdentity) (a : IdentityAttachment σ) :
    Except CapabilityError (Dict CapabilityIdentity) := do
  return rows.insert a.bcId (← attachedRow project runId split fingerprints stored a)

/-- One round of the second loop. -/
def putRetired (stored rows : Dict CapabilityIdentity) (bcId : String) : Dict CapabilityIdentity :=
  match stored[bcId]? with
  | none => rows
  | some prior => rows.insert bcId (retiredRow prior)

/-- One round of the third loop. -/
def putMerged (stored rows : Dict CapabilityIdentity) (item : String × String) :
    Except CapabilityError (Dict CapabilityIdentity) :=
  match stored[item.1]? with
  | none => .ok rows
  | some prior => do return rows.insert item.1 (← mergedRow prior item.2)

/-- `stored`. -/
def storedRows (registry : List CapabilityIdentity) : Dict CapabilityIdentity :=
  Dict.ofItems (registry.map fun r => (r.bcId, r))

def identityRows (project runId : String) (result : ResolutionResult σ)
    (fingerprints : Dict CapabilityFingerprint) (registry : List CapabilityIdentity) :
    Except CapabilityError (List CapabilityIdentity) := do
  let stored := storedRows registry
  let attached ← result.attachments.foldlM
    (putAttached project runId (splitSource result.advisories) fingerprints stored) ∅
  let rows ← result.merged.toList.foldlM (putMerged stored)
    (result.retired.foldl (putRetired stored) attached)
  return rows.toList.map (·.2)

end Rows

/-! ## 2. What `resolve` guarantees -/

namespace Matcher

variable {σ : Type}

theorem mem_setScore {scored : Scores σ} {s x : Scored σ} (h : x ∈ (setScore scored s).rows) :
    x ∈ scored.rows ∨ x = s := by
  have hfind := Table.find?_key h
  rw [setScore, Table.find?_insertNew, Table.find?_modify] at hfind
  by_cases hkey : s.primaryKey = x.primaryKey
  · rw [if_pos hkey, if_pos hkey] at hfind
    cases hold : scored.find? x.primaryKey with
    | none =>
      rw [hold] at hfind
      exact Or.inr (Option.some.inj hfind).symm
    | some old =>
      rw [hold] at hfind
      exact Or.inr (Option.some.inj hfind).symm
  · rw [if_neg hkey, if_neg hkey, Option.or_none] at hfind
    exact Or.inl (Table.find?_eq_some_iff.mp hfind).1

theorem exists_of_mem_scoreAll {S : Scoring σ} {candidates : List CapabilityIdentity}
    {proposed : List ProposedCapability} {s : Scored σ}
    (h : s ∈ (scoreAll S candidates proposed).rows) :
    ∃ p ∈ proposed, s.localKey = p.localKey ∧ ∃ c ∈ candidates, c.bcId = s.bcId := by
  have hmem : s ∈ proposed.flatMap (scoresOf S candidates) := by
    suffices hfold : ∀ (l : List (Scored σ)) (scored : Scores σ),
        s ∈ (l.foldl setScore scored).rows → s ∈ scored.rows ∨ s ∈ l by
      exact (hfold _ _ h).resolve_left List.not_mem_nil
    intro l
    induction l with
    | nil => exact fun scored hs => Or.inl hs
    | cons x l ih =>
      intro scored hs
      rcases ih _ hs with hs | hs
      · rcases mem_setScore hs with hs | rfl
        · exact Or.inl hs
        · exact Or.inr List.mem_cons_self
      · exact Or.inr (List.mem_cons_of_mem _ hs)
  obtain ⟨p, hp, hs⟩ := List.mem_flatMap.mp hmem
  obtain ⟨c, hc, hs⟩ := List.mem_filterMap.mp hs
  obtain ⟨got, -, rfl⟩ := Option.map_eq_some_iff.mp hs
  exact ⟨p, hp, rfl, c, hc, rfl⟩

variable [LinearOrder σ]

theorem exists_of_mem_assign {pairs : List (Scored σ)} {e : String × String}
    (h : e ∈ assign pairs) : ∃ p ∈ pairs, e = (p.localKey, p.bcId) := by
  suffices hfold : ∀ (l : List (Scored σ)) (out : List (String × String)),
      e ∈ l.foldl assignStep out → e ∈ out ∨ ∃ p ∈ l, e = (p.localKey, p.bcId) by
    obtain ⟨p, hp, rfl⟩ := (hfold _ _ h).resolve_left List.not_mem_nil
    exact ⟨p, (List.mem_insertionSort _).mp hp, rfl⟩
  intro l
  induction l with
  | nil => exact fun out he => Or.inl he
  | cons p l ih =>
    intro out he
    rcases ih _ he with he | ⟨q, hq, rfl⟩
    · rw [assignStep] at he
      split at he
      · exact Or.inl he
      · rcases List.mem_append.mp he with he | he
        · exact Or.inl he
        · exact Or.inr ⟨p, List.mem_cons_self, List.mem_singleton.mp he⟩
    · exact Or.inr ⟨q, List.mem_cons_of_mem _ hq, rfl⟩

theorem exists_of_absorbedBy {S : Scoring σ} {bcId winner : String} {scored : Scores σ}
    {assigned : List (String × String)} (h : absorbedBy S bcId scored assigned = some winner) :
    ∃ s ∈ scored.rows, assignedTo assigned s.localKey = some winner := by
  rw [absorbedBy, Option.bind_eq_some_iff] at h
  obtain ⟨entry, hentry, hwinner⟩ := h
  have hmem := (List.mem_insertionSort _).mp (List.mem_of_mem_head? hentry)
  obtain ⟨s, hs, rfl⟩ := List.mem_map.mp hmem
  exact ⟨s, (List.mem_filter.mp hs).1, hwinner⟩

theorem attach_bcId {S : Scoring σ} {scored : Scores σ} {eligible : List (Scored σ)}
    {uncomputable : List String} {candidates : List CapabilityIdentity}
    {assigned minted : List (String × String)} {p : ProposedCapability}
    {r : IdentityAttachment σ × List (Advisory σ)}
    (h : attach S scored eligible uncomputable candidates assigned minted p = .ok r) :
    (r.1.method ≠ .firstDiscovery → assignedTo assigned p.localKey = some r.1.bcId) ∧
      ∀ id, assignedTo assigned p.localKey = some id → r.1.bcId = id := by
  unfold attach at h
  split at h
  · rename_i bcId hassigned
    split at h
    · obtain rfl := Except.ok.inj h
      exact ⟨fun _ => hassigned, fun id hid => Option.some.inj (hassigned.symm.trans hid)⟩
    · exact nomatch h
  · rename_i hassigned
    split at h
    · obtain rfl := Except.ok.inj h
      exact ⟨fun hmethod => absurd rfl hmethod, fun id hid => nomatch hassigned.symm.trans hid⟩
    · exact nomatch h

/-- **What `resolve` guarantees of its result**: an attachment that is no first discovery is of a
candidate, and a winner is attached and is no loser itself. -/
structure ResolvedFrom (registry : List CapabilityIdentity) (result : ResolutionResult σ) :
    Prop where
  matched : ∀ a ∈ result.attachments, a.method ≠ .firstDiscovery →
    ∃ c ∈ candidatesOf registry, c.bcId = a.bcId
  winner : ∀ loser winner : String, result.merged[loser]? = some winner →
    (∃ a ∈ result.attachments, a.bcId = winner) ∧ result.merged[winner]? = none

theorem resolvedFrom_of_resolve {S : Scoring σ} {proposed : List ProposedCapability}
    {registry : List CapabilityIdentity} {answers : List String} {result : ResolutionResult σ}
    (h : resolve S proposed registry answers = .ok result) : ResolvedFrom registry result := by
  unfold resolve at h
  simp only at h
  split at h
  · exact nomatch h
  · split at h
    · rename_i minted hminted
      obtain ⟨attached, hattached, hresult⟩ := bind_eq_ok.mp h
      obtain rfl := Except.ok.inj hresult
      obtain ⟨hfrom, hof⟩ := exists_of_mapM_eq_ok hattached
      refine ⟨fun a ha hmethod => ?_, fun loser winner hmerged => ?_⟩
      · obtain ⟨r, hr, rfl⟩ := List.mem_map.mp ha
        obtain ⟨p, -, hattach⟩ := hfrom r hr
        obtain ⟨s, hs, heq⟩ := exists_of_mem_assign
          (mem_of_assignedTo ((attach_bcId hattach).1 hmethod))
        obtain ⟨-, -, -, c, hc, hcid⟩ := exists_of_mem_scoreAll (List.mem_filter.mp hs).1
        exact ⟨c, hc, hcid.trans (congrArg Prod.snd heq).symm⟩
      · obtain ⟨c, hc, habsorbed⟩ := List.mem_filterMap.mp (Dict.mem_of_get?_ofItems hmerged)
        obtain ⟨w, hw, heq⟩ := Option.map_eq_some_iff.mp habsorbed
        obtain ⟨rfl, rfl⟩ := Prod.mk.inj heq
        obtain ⟨s, hs, hassigned⟩ := exists_of_absorbedBy hw
        obtain ⟨p, hp, hkey, -⟩ := exists_of_mem_scoreAll hs
        constructor
        · obtain ⟨r, hr, hattach⟩ := hof p hp
          exact ⟨r.1, List.mem_map_of_mem hr, (attach_bcId hattach).2 w (hkey ▸ hassigned)⟩
        · -- The losers are unclaimed, and the winner is claimed.
          refine (Dict.notMem_iff_get? _ _).mp fun hloser => ?_
          obtain ⟨v, hv⟩ := (Dict.mem_iff_get? _ _).mp hloser
          obtain ⟨d, hd, hloses⟩ := List.mem_filterMap.mp (Dict.mem_of_get?_ofItems hv)
          obtain ⟨w', -, heq'⟩ := Option.map_eq_some_iff.mp hloses
          obtain ⟨hdw, -⟩ := Prod.mk.inj heq'
          have hunclaimed := (List.mem_filter.mp hd).2
          rw [decide_eq_true_eq, hdw] at hunclaimed
          exact hunclaimed (List.mem_map_of_mem (f := Prod.snd) (mem_of_assignedTo hassigned))
    · exact nomatch h

end Matcher

/-! ## 3. What the rows are -/

/-- A registry: distinct ids, and a status that agrees with the pointer. -/
structure SoundRows (rows : List CapabilityIdentity) : Prop where
  nodup : (rows.map (·.bcId)).Nodup
  agrees : ∀ r ∈ rows, r.status = .merged ↔ r.mergedInto.isSome = true

/-- **A batch that may be written over a registry**: the rows are sound, and each pointer in them
leads to a row of the batch that has none, or is the one the registry has. -/
structure SoundBatch (registry rows : List CapabilityIdentity) : Prop where
  sound : SoundRows rows
  pointer : ∀ r ∈ rows, ∀ t, r.mergedInto = some t →
    (∃ r' ∈ rows, r'.bcId = t ∧ r'.mergedInto = none) ∨
      ∃ old ∈ registry, old.bcId = r.bcId ∧ old.mergedInto = some t

namespace Rows

variable {σ : Type}

variable {registry : List CapabilityIdentity}

variable {r : CapabilityIdentity}

theorem of_stored {id : String} (h : (storedRows registry)[id]? = some r) :
    r ∈ registry ∧ r.bcId = id := by
  obtain ⟨x, hx, heq⟩ := Dict.exists_of_get?_ofItems_map h
  obtain ⟨hid, rfl⟩ := Prod.mk.inj heq
  exact ⟨hx, hid⟩

/-- A row under its own id that is not merged and points at nothing. -/
structure Head (id : String) (r : CapabilityIdentity) : Prop where
  bcId : r.bcId = id
  status : r.status ≠ .merged
  mergedInto : r.mergedInto = none

variable {project : String}

theorem head_discoveredRow {runId bcId : String} {derivedFrom : Option String}
    {fingerprint : CapabilityFingerprint}
    (h : discoveredRow project runId derivedFrom bcId fingerprint = .ok r) : Head bcId r := by
  rw [discoveredRow] at h
  split at h
  · cases h
  · obtain rfl := Except.ok.inj h
    exact ⟨rfl, (fun hmerged => by cases hmerged), rfl⟩

variable {fingerprints : Dict CapabilityFingerprint}

theorem head_attachedRow {runId : String} {split : Dict String} {a : IdentityAttachment σ}
    (hregistry : SoundRows registry)
    (hmatched : a.method ≠ .firstDiscovery → ∃ c ∈ Matcher.candidatesOf registry, c.bcId = a.bcId)
    (h : attachedRow project runId split fingerprints (storedRows registry) a = .ok r) :
    Head a.bcId r := by
  unfold attachedRow at h
  split at h
  · exact nomatch h
  · split at h
    · exact head_discoveredRow h
    · exact head_discoveredRow h
    · rename_i prior hprior hmethod
      obtain rfl := Except.ok.inj h
      obtain ⟨hmem, hid⟩ := of_stored hprior
      obtain ⟨c, hc, hcid⟩ := hmatched hmethod
      obtain ⟨hc, hstatus⟩ := List.mem_filter.mp hc
      rw [decide_eq_true_eq] at hstatus
      obtain rfl : c = prior :=
        List.inj_on_of_nodup_map hregistry.nodup hc hmem (hcid.trans hid.symm)
      refine ⟨hid, nofun, ?_⟩
      exact Option.not_isSome_iff_eq_none.mp fun h => hstatus ((hregistry.agrees c hc).mpr h)

/-- The rows are under their own ids, and point at nothing. -/
def AllHeads (rows : Dict CapabilityIdentity) : Prop :=
  ∀ (id : String) (r : CapabilityIdentity), rows[id]? = some r → Head id r

variable {rows : Dict CapabilityIdentity}

theorem AllHeads.insert (h : AllHeads rows) {id : String} (hr : Head id r) :
    AllHeads (rows.insert id r) := by
  intro id' r' hr'
  rw [Dict.get?_insert] at hr'
  split at hr'
  · rename_i hid
    exact hid ▸ Option.some.inj hr' ▸ hr
  · exact h id' r' hr'

theorem attached_spec {runId : String} {split : Dict String} {result : ResolutionResult σ}
    (hregistry : SoundRows registry) (hresolved : Matcher.ResolvedFrom registry result)
    (h : result.attachments.foldlM (putAttached project runId split fingerprints
      (storedRows registry)) ∅ = .ok rows) :
    AllHeads rows ∧ ∀ a ∈ result.attachments, a.bcId ∈ rows := by
  have hround : ∀ (a : IdentityAttachment σ) (b b' : Dict CapabilityIdentity),
      putAttached project runId split fingerprints (storedRows registry) b a = .ok b' →
      ∃ r, attachedRow project runId split fingerprints (storedRows registry) a = .ok r ∧
        b' = b.insert a.bcId r := by
    intro a b b' hput
    obtain ⟨r, hr, hb'⟩ := bind_eq_ok.mp hput
    exact ⟨r, hr, (Except.ok.inj hb').symm⟩
  constructor
  · refine of_foldlM_eq_ok (P := AllHeads) (fun a ha b b' hb hput => ?_) ?_ h
    · obtain ⟨r, hr, rfl⟩ := hround a b b' hput
      exact hb.insert (head_attachedRow hregistry (hresolved.matched a ha) hr)
    · intro id r hr
      rw [Dict.get?_empty] at hr
      exact nomatch hr
  · refine forall_mem_of_foldlM_eq_ok (Q := fun a b => a.bcId ∈ b)
      (fun a _ b b' hput => ?_) (fun a _ c b b' hc hput => ?_) h
    · obtain ⟨r, -, rfl⟩ := hround a b b' hput
      exact (Dict.mem_insert _ _ _ _).mpr (Or.inl rfl)
    · obtain ⟨r, -, rfl⟩ := hround a b b' hput
      exact (Dict.mem_insert _ _ _ _).mpr (Or.inr hc)

theorem retired_spec (registry : List CapabilityIdentity) (retired : List String)
    (h : AllHeads rows) :
    AllHeads (retired.foldl (putRetired (storedRows registry)) rows) ∧
      ∀ id ∈ rows,
        id ∈ retired.foldl (putRetired (storedRows registry)) rows := by
  induction retired generalizing rows with
  | nil => exact ⟨h, fun id hid => hid⟩
  | cons bcId retired ih =>
    rw [List.foldl_cons, putRetired]
    split
    · exact ih h
    · rename_i prior hprior
      have hinsert : AllHeads (rows.insert bcId (retiredRow prior)) :=
        h.insert ⟨(of_stored hprior).2, nofun, rfl⟩
      refine ⟨(ih hinsert).1, fun id hid => (ih hinsert).2 id ?_⟩
      exact (Dict.mem_insert _ _ _ _).mpr (Or.inr hid)

/-- What a row of the third loop is: one that points at nothing, or the row of a loser. -/
def HeadOrLoser (merged : Dict String) (rows : Dict CapabilityIdentity) : Prop :=
  ∀ (id : String) (r : CapabilityIdentity), rows[id]? = some r → Head id r ∨
    r.bcId = id ∧ r.status = .merged ∧ ∃ winner, merged[id]? = some winner ∧
      r.mergedInto = some winner

/-- The third loop writes the rows of losers only. -/
theorem merged_spec {merged : Dict String} {rows' : Dict CapabilityIdentity} (h : AllHeads rows)
    (hmerged : merged.toList.foldlM (putMerged (storedRows registry)) rows = .ok rows') :
    HeadOrLoser merged rows' ∧
      ∀ id : String, merged[id]? = none → rows'[id]? = rows[id]? := by
  have hround : ∀ (item : String × String), item ∈ merged.toList →
      ∀ b b' : Dict CapabilityIdentity,
      putMerged (storedRows registry) b item = .ok b' → b' = b ∨
        ∃ r : CapabilityIdentity, b' = b.insert item.1 r ∧ merged[item.1]? = some item.2 ∧
          r.bcId = item.1 ∧ r.status = .merged ∧ r.mergedInto = some item.2 := by
    intro item hitem b b' hput
    unfold putMerged at hput
    split at hput
    · exact Or.inl (Except.ok.inj hput).symm
    · rename_i prior hprior
      obtain ⟨r, hr, hb'⟩ := bind_eq_ok.mp hput
      refine Or.inr ⟨r, (Except.ok.inj hb').symm,
        Std.ExtTreeMap.mem_toList_iff_getElem?_eq_some.mp hitem, ?_⟩
      rw [mergedRow] at hr
      split at hr
      · exact nomatch hr
      · obtain rfl := Except.ok.inj hr
        exact ⟨(of_stored hprior).2, rfl, rfl⟩
  constructor
  · refine of_foldlM_eq_ok (P := HeadOrLoser merged) (fun item hitem b b' hb hput => ?_)
      (fun id r hr => Or.inl (h id r hr)) hmerged
    rcases hround item hitem b b' hput with rfl | ⟨r, rfl, hwinner, hid, hstatus, hinto⟩
    · exact hb
    · intro id r' hr'
      rw [Dict.get?_insert] at hr'
      split at hr'
      · rename_i heq
        obtain rfl := Option.some.inj hr'
        subst heq
        exact Or.inr ⟨hid, hstatus, item.2, hwinner, hinto⟩
      · exact hb id r' hr'
  · refine of_foldlM_eq_ok (P := fun b : Dict CapabilityIdentity =>
      ∀ id : String, merged[id]? = none → b[id]? = rows[id]?)
      (fun item hitem b b' hb hput id hid => ?_) (fun id _ => rfl) hmerged
    rcases hround item hitem b b' hput with rfl | ⟨r, rfl, hwinner, -⟩
    · exact hb id hid
    · rw [Dict.get?_insert_of_ne, hb id hid]
      rintro rfl
      exact nomatch hwinner.symm.trans hid

/-- **The rows of a result of `resolve` are a sound batch.** -/
theorem identityRows_spec {runId : String} {result : ResolutionResult σ}
    {rows : List CapabilityIdentity} (hregistry : SoundRows registry)
    (hresolved : Matcher.ResolvedFrom registry result)
    (h : identityRows project runId result fingerprints registry = .ok rows) :
    SoundBatch registry rows := by
  obtain ⟨attached, hattached, h⟩ := bind_eq_ok.mp h
  obtain ⟨written, hwritten, h⟩ := bind_eq_ok.mp h
  obtain rfl := Except.ok.inj h
  obtain ⟨hheads, hids⟩ := attached_spec hregistry hresolved hattached
  obtain ⟨hheads, hkept⟩ := retired_spec registry result.retired hheads
  obtain ⟨hrows, hothers⟩ := merged_spec hheads hwritten
  have hget : ∀ item ∈ written.toList, written[item.1]? = some item.2 := fun item hitem =>
    Std.ExtTreeMap.mem_toList_iff_getElem?_eq_some.mp hitem
  have hid : ∀ item ∈ written.toList, item.2.bcId = item.1 := fun item hitem => by
    rcases hrows item.1 item.2 (hget item hitem) with hhead | ⟨hid, -⟩
    · exact hhead.bcId
    · exact hid
  have hmem : ∀ r ∈ written.toList.map (·.2), written[r.bcId]? = some r := by
    intro r hr
    obtain ⟨item, hitem, rfl⟩ := List.mem_map.mp hr
    rw [hid item hitem]
    exact hget item hitem
  refine ⟨⟨?_, fun r hr => ?_⟩, fun r hr t ht => Or.inl ?_⟩
  · rw [List.map_map, List.Nodup, List.pairwise_map]
    refine (Std.ExtTreeMap.distinct_keys_toList (t := written)).imp_of_mem fun {a b} ha hb hne => ?_
    rw [Std.LawfulEqCmp.compare_eq_iff_eq] at hne
    show a.2.bcId ≠ b.2.bcId
    rwa [hid a ha, hid b hb]
  · rcases hrows r.bcId r (hmem r hr) with hhead | ⟨-, hstatus, w, -, hinto⟩
    · simp [hhead.status, hhead.mergedInto]
    · simp [hstatus, hinto]
  · rcases hrows r.bcId r (hmem r hr) with hhead | ⟨-, -, w, hw, hinto⟩
    · exact nomatch hhead.mergedInto.symm.trans ht
    · obtain rfl := Option.some.inj (hinto.symm.trans ht)
      obtain ⟨⟨a, ha, haw⟩, hnone⟩ := hresolved.winner _ _ hw
      obtain ⟨r', hr'⟩ := (Dict.mem_iff_get? _ _).mp (hkept _ (hids a ha))
      rw [← hothers _ (haw ▸ hnone)] at hr'
      rcases hrows _ r' hr' with hhead | ⟨-, -, w', hw', -⟩
      · refine ⟨r', List.mem_map.mpr ⟨(a.bcId, r'), ?_, rfl⟩, hhead.bcId.trans haw, hhead.mergedInto⟩
        exact Std.ExtTreeMap.mem_toList_iff_getElem?_eq_some.mpr hr'
      · exact nomatch (haw ▸ hw' : result.merged[w]? = some w').symm.trans hnone

end Rows

end Kroker
