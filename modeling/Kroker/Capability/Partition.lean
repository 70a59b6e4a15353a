import Kroker.Capability.Ambiguity
import Kroker.Library.Keyed

/-!
# `resolve` partitions identity

`resolve` of `capability/matcher.py` passes over one table of scores several times: to assign, to
attach, to warn, and to find what becomes of the candidates that nothing was attached to.

## 1.  The order of the arguments

No pass depends on the order of the proposed capabilities or of the rows: the parts of a call are
equal or permutations of each other (`scoresIn_perm`, `assignedIn_perm`, `attachIn_perm`, ...), and
`resolve_perm` puts them together.

## 2.  The ids of the attachments

Two attachments have different ids (`nodup_bcIds`), and the id of a candidate is among them exactly
if the candidate was assigned (`claimed_iff`).

## 3.  What becomes of a candidate

`Fate` lists the four ends, and `exists_unique_fate` is that each candidate comes to one.

`resolve_partitions` is the whole: a call with distinct keys, rows with distinct ids and enough new
ids returns a partition, the same whatever the order.
-/

namespace Kroker.Matcher

variable {σ : Type} [LinearOrder σ] {S : Scoring σ}
  {proposed proposed' : List ProposedCapability} {registry registry' : List CapabilityIdentity}
  {answers : List String} {result : ResolutionResult σ}

/-! ## 1.  The order of the arguments -/

/-- The place of an entry in the order of `best`. -/
def place (e : String × σ) : σᵒᵈ ×ₗ String := toLex (OrderDual.toDual e.2, e.1)

omit [LinearOrder σ] in
theorem place_injective : Function.Injective (place (σ := σ)) := by
  intro a b h
  obtain ⟨hscore, hid⟩ := Prod.mk.inj (toLex_inj.mp h)
  exact Prod.ext hid (OrderDual.toDual_inj.mp hscore)

theorem place_le_iff {a b : String × σ} :
    (b.2 < a.2 ∨ b.2 = a.2 ∧ a.1 ≤ b.1) ↔ place a ≤ place b := by
  rw [place, place, Prod.Lex.toLex_le_toLex]
  refine or_congr Iff.rfl (and_congr ?_ Iff.rfl)
  exact ⟨fun h => congrArg OrderDual.toDual h.symm, fun h => (OrderDual.toDual_inj.mp h).symm⟩

theorem best_perm {entries entries' : List (String × σ)} (h : entries'.Perm entries) :
    best entries' = best entries := by
  have hsorted : ∀ l : List (String × σ),
      (l.insertionSort fun a b => b.2 < a.2 ∨ b.2 = a.2 ∧ a.1 ≤ b.1).map place =
        (l.map place).insertionSort (· ≤ ·) :=
    fun l => List.map_insertionSort _ _ _ _ fun _ _ _ _ => place_le_iff
  have hmap : (entries'.insertionSort fun a b => b.2 < a.2 ∨ b.2 = a.2 ∧ a.1 ≤ b.1).map place =
      (entries.insertionSort fun a b => b.2 < a.2 ∨ b.2 = a.2 ∧ a.1 ≤ b.1).map place := by
    rw [hsorted, hsorted, Greedy.insertionSort_eq_of_perm (h.map place)]
  rw [best, best, List.map_injective_iff.mpr place_injective hmap]

theorem maybeAmbiguous_perm {key bcId : String} {winner : σ} {eligible eligible' : List (Scored σ)}
    (h : eligible'.Perm eligible) :
    maybeAmbiguous S key bcId winner eligible' = maybeAmbiguous S key bcId winner eligible := by
  rw [maybeAmbiguous, maybeAmbiguous,
    Greedy.insertionSort_eq_of_perm ((h.filter fun p => p.localKey = key ∧ p.bcId ≠ bcId).map _)]

theorem get?_mergedIn (hids : (registry.map (·.bcId)).Nodup) {id winner : String} :
    (mergedIn S proposed registry)[id]? = some winner ↔
      ∃ c ∈ unclaimedIn S proposed registry, c.bcId = id ∧
        absorbedIn S proposed registry c = some winner := by
  have hnodup : (((unclaimedIn S proposed registry).filterMap fun c => (absorbedIn S proposed
      registry c).map fun winner => (c.bcId, winner)).map Prod.fst).Nodup := by
    have hunclaimed : ((unclaimedIn S proposed registry).map (·.bcId)).Nodup :=
      hids.sublist ((List.filter_sublist.trans List.filter_sublist).map _)
    rw [List.Nodup, List.pairwise_map] at hunclaimed
    rw [List.Nodup, List.pairwise_map, List.pairwise_filterMap]
    refine hunclaimed.imp fun {c d} hne e he f hf hsame => hne ?_
    obtain ⟨w, -, rfl⟩ := Option.map_eq_some_iff.mp he
    obtain ⟨w', -, rfl⟩ := Option.map_eq_some_iff.mp hf
    exact hsame
  rw [mergedIn, Dict.get?_ofItems_of_nodup hnodup, List.mem_filterMap]
  refine exists_congr fun c => and_congr_right fun _ => ?_
  rw [Option.map_eq_some_iff]
  constructor
  · rintro ⟨w, hw, hpair⟩
    obtain ⟨rfl, rfl⟩ := Prod.mk.inj hpair
    exact ⟨rfl, hw⟩
  · rintro ⟨rfl, hw⟩
    exact ⟨winner, hw, rfl⟩

section Order

/-- What two orders of one call have in common. -/
structure SameCall (proposed proposed' : List ProposedCapability)
    (registry registry' : List CapabilityIdentity) : Prop where
  capabilities : proposed'.Perm proposed
  rows : registry'.Perm registry
  keys : (proposed.map (·.localKey)).Nodup
  ids : (registry.map (·.bcId)).Nodup

omit [LinearOrder σ] in
theorem nodup_candidates (hids : (registry.map (·.bcId)).Nodup) :
    ((candidatesOf registry).map (·.bcId)).Nodup :=
  hids.sublist (List.filter_sublist.map _)

omit [LinearOrder σ] in
/-- No two capabilities, and no two candidates of one, have a score under one key. -/
theorem nodup_primaryKeys (hkeys : (proposed.map (·.localKey)).Nodup)
    (hids : (registry.map (·.bcId)).Nodup) :
    ((proposed.flatMap (scoresOf S (candidatesOf registry))).map Scored.primaryKey).Nodup := by
  have hkey : ∀ p, ∀ s ∈ scoresOf S (candidatesOf registry) p, s.localKey = p.localKey := by
    intro p s hs
    obtain ⟨c, -, hc⟩ := List.mem_filterMap.mp hs
    obtain ⟨got, -, rfl⟩ := Option.map_eq_some_iff.mp hc
    rfl
  rw [List.map_flatMap, List.nodup_flatMap]
  constructor
  · intro p _
    rw [List.Nodup, List.pairwise_map, scoresOf, List.pairwise_filterMap]
    have hcandidates := nodup_candidates hids
    rw [List.Nodup, List.pairwise_map] at hcandidates
    refine hcandidates.imp fun {c d} hne s hs t ht hsame => hne ?_
    obtain ⟨got, -, rfl⟩ := Option.map_eq_some_iff.mp hs
    obtain ⟨got', -, rfl⟩ := Option.map_eq_some_iff.mp ht
    exact (Prod.mk.inj hsame).2
  · rw [List.Nodup, List.pairwise_map] at hkeys
    refine hkeys.imp fun {p q} hne k hk hk' => hne ?_
    obtain ⟨s, hs, rfl⟩ := List.mem_map.mp hk
    obtain ⟨t, ht, hsame⟩ := List.mem_map.mp hk'
    rw [← hkey p s hs, ← hkey q t ht]
    exact (Prod.mk.inj hsame).1.symm

omit [LinearOrder σ] in
theorem scoresIn_eq (hkeys : (proposed.map (·.localKey)).Nodup)
    (hids : (registry.map (·.bcId)).Nodup) :
    scoresIn S proposed registry = proposed.flatMap (scoresOf S (candidatesOf registry)) :=
  Table.rows_ofRows (nodup_primaryKeys hkeys hids)

variable (h : SameCall proposed proposed' registry registry')

include h

omit [LinearOrder σ] in
theorem candidatesOf_perm : (candidatesOf registry').Perm (candidatesOf registry) :=
  h.rows.filter _

omit [LinearOrder σ] in
theorem scoresOf_perm (p : ProposedCapability) :
    (scoresOf S (candidatesOf registry') p).Perm (scoresOf S (candidatesOf registry) p) :=
  (candidatesOf_perm h).filterMap _

omit [LinearOrder σ] in
theorem scoresIn_perm : (scoresIn S proposed' registry').Perm (scoresIn S proposed registry) := by
  have hkeys' : (proposed'.map (·.localKey)).Nodup :=
    (h.capabilities.map _).nodup_iff.mpr h.keys
  have hids' : (registry'.map (·.bcId)).Nodup := (h.rows.map _).nodup_iff.mpr h.ids
  rw [scoresIn_eq hkeys' hids', scoresIn_eq h.keys h.ids]
  exact (h.capabilities.flatMap_right _).trans
    (List.Perm.flatMap_left _ fun p _ => scoresOf_perm h p)

omit [LinearOrder σ] in
theorem find?_scoreAll (k : String × String) :
    (scoreAll S (candidatesOf registry') proposed').find? k =
      (scoreAll S (candidatesOf registry) proposed).find? k := by
  refine Option.ext fun s => ?_
  rw [Table.find?_eq_some_iff, Table.find?_eq_some_iff]
  exact and_congr_left fun _ => (scoresIn_perm h).mem_iff

theorem eligibleIn_perm :
    (eligibleIn S proposed' registry').Perm (eligibleIn S proposed registry) :=
  (scoresIn_perm h).filter _

theorem assignedIn_perm : assignedIn S proposed' registry' = assignedIn S proposed registry :=
  assign_perm (eligibleIn_perm h)

theorem unassignedKeys_perm (assigned : List (String × String)) :
    unassignedKeys assigned proposed' = unassignedKeys assigned proposed :=
  Greedy.insertionSort_eq_of_perm ((h.capabilities.map _).filter _)

omit [LinearOrder σ] in
theorem uncomputableOf_perm : (uncomputableOf S (candidatesOf registry') proposed').Perm
    (uncomputableOf S (candidatesOf registry) proposed) := by
  have hsame : ∀ p, (scoresOf S (candidatesOf registry') p).isEmpty =
      (scoresOf S (candidatesOf registry) p).isEmpty := by
    intro p
    rw [Bool.eq_iff_iff, List.isEmpty_iff, List.isEmpty_iff]
    exact ⟨fun hnil => List.perm_nil.mp (hnil ▸ (scoresOf_perm h p).symm),
      fun hnil => List.perm_nil.mp (hnil ▸ scoresOf_perm h p)⟩
  unfold uncomputableOf
  simp only [hsame]
  exact (h.capabilities.filter _).map _

theorem discoveryAdvisory_perm (claimedIds : List String) (p : ProposedCapability)
    (newId : String) :
    discoveryAdvisory S (scoreAll S (candidatesOf registry') proposed')
        (uncomputableOf S (candidatesOf registry') proposed') claimedIds (candidatesOf registry') p
        newId =
      discoveryAdvisory S (scoreAll S (candidatesOf registry) proposed)
        (uncomputableOf S (candidatesOf registry) proposed) claimedIds (candidatesOf registry) p
        newId := by
  have hlost : ∀ key, lostAboveThreshold S key (scoreAll S (candidatesOf registry') proposed')
      claimedIds = lostAboveThreshold S key (scoreAll S (candidatesOf registry) proposed)
        claimedIds := by
    intro key
    exact congrArg (Option.map Prod.fst) (best_perm (((scoresIn_perm h).filter _).map _))
  have hnear : ∀ key, bestNearMiss key (scoreAll S (candidatesOf registry') proposed') =
      bestNearMiss key (scoreAll S (candidatesOf registry) proposed) :=
    fun key => best_perm (((scoresIn_perm h).filter _).map _)
  have hempty : candidatesOf registry' = [] ↔ candidatesOf registry = [] :=
    ⟨fun hnil => List.perm_nil.mp (hnil ▸ (candidatesOf_perm h).symm),
      fun hnil => List.perm_nil.mp (hnil ▸ candidatesOf_perm h)⟩
  unfold discoveryAdvisory
  simp only [(uncomputableOf_perm h).mem_iff, hlost, hnear, hempty, find?_scoreAll h]

theorem attachIn_perm (minted : List (String × String)) (p : ProposedCapability) :
    attachIn S proposed' registry' minted p = attachIn S proposed registry minted p := by
  unfold attachIn attach
  simp only [assignedIn_perm h, find?_scoreAll h, maybeAmbiguous_perm (eligibleIn_perm h),
    discoveryAdvisory_perm h]

theorem absorbedIn_perm (c : CapabilityIdentity) :
    absorbedIn S proposed' registry' c = absorbedIn S proposed registry c := by
  rw [absorbedIn, absorbedIn, assignedIn_perm h]
  exact congrArg (Option.bind · _) (best_perm (((scoresIn_perm h).filter _).map _))

theorem unclaimedIn_perm :
    (unclaimedIn S proposed' registry').Perm (unclaimedIn S proposed registry) := by
  rw [unclaimedIn, assignedIn_perm h]
  exact (candidatesOf_perm h).filter _

theorem retiredIn_perm : retiredIn S proposed' registry' = retiredIn S proposed registry := by
  unfold retiredIn
  simp only [absorbedIn_perm h]
  exact Greedy.insertionSort_eq_of_perm (((unclaimedIn_perm h).filter _).map _)

theorem mergedIn_perm : mergedIn S proposed' registry' = mergedIn S proposed registry := by
  have hids' : (registry'.map (·.bcId)).Nodup := (h.rows.map _).nodup_iff.mpr h.ids
  refine Dict.ext fun id => Option.ext fun winner => ?_
  rw [get?_mergedIn hids', get?_mergedIn h.ids]
  simp only [absorbedIn_perm h, (unclaimedIn_perm h).mem_iff]

/-- **The order does not matter**: the lists of the result are permuted, and nothing else. -/
theorem resolve_perm (hresult : resolve S proposed registry answers = .ok result) :
    ∃ result', resolve S proposed' registry' answers = .ok result' ∧
      result'.attachments.Perm result.attachments ∧ result'.advisories.Perm result.advisories ∧
      result'.merged = result.merged ∧ result'.retired = result.retired := by
  obtain ⟨hkeys, minted, hminted, attached, hattached, rfl⟩ := resolve_eq_ok_iff.mp hresult
  have hsame : attachIn S proposed' registry' minted = attachIn S proposed registry minted :=
    funext (attachIn_perm h minted)
  obtain ⟨attached', hattached', hperm⟩ := mapM_perm h.capabilities hattached
  have hminted' : mint (unassignedKeys (assignedIn S proposed' registry') proposed') answers =
      some minted := by
    rw [assignedIn_perm h, unassignedKeys_perm h]
    exact hminted
  have hkeys' : (proposed'.map (·.localKey)).Nodup := (h.capabilities.map _).nodup_iff.mpr hkeys
  have hreturns := resolve_eq_ok_iff.mpr
    ⟨hkeys', minted, hminted', attached', hsame ▸ hattached', rfl⟩
  exact ⟨_, hreturns, hperm.map _, hperm.flatMap_right _, mergedIn_perm h, retiredIn_perm h⟩

end Order

/-! ## 2.  The ids of the attachments -/

theorem assignedIn_spec (S : Scoring σ) (proposed : List ProposedCapability)
    (registry : List CapabilityIdentity) :
    ((assignedIn S proposed registry).map (·.1)).Nodup ∧
      ((assignedIn S proposed registry).map (·.2)).Nodup ∧
      ∀ e ∈ assignedIn S proposed registry, ∃ s ∈ scoresIn S proposed registry,
        s.localKey = e.1 ∧ s.bcId = e.2 := by
  obtain ⟨chosen, hsubset, hmap, hassign⟩ := exists_chosen (eligibleIn S proposed registry)
  rw [assignedIn, hassign, List.map_map, List.map_map]
  refine ⟨nodup_side hmap fun p q h => shareSide_iff.mpr (.inr h),
    nodup_side hmap fun p q h => shareSide_iff.mpr (.inl h), fun e he => ?_⟩
  obtain ⟨s, hs, rfl⟩ := List.mem_map.mp he
  exact ⟨s, List.mem_of_mem_filter (hsubset s hs), rfl, rfl⟩

omit [LinearOrder σ] in
theorem exists_of_mem_scoresIn {s : Scored σ} (hs : s ∈ scoresIn S proposed registry) :
    (∃ p ∈ proposed, p.localKey = s.localKey) ∧ ∃ c ∈ candidatesOf registry, c.bcId = s.bcId := by
  obtain ⟨p, hp, hscore⟩ := List.mem_flatMap.mp (Table.mem_of_mem_rows_ofRows hs)
  obtain ⟨c, hc, hgot⟩ := List.mem_filterMap.mp hscore
  obtain ⟨got, -, rfl⟩ := Option.map_eq_some_iff.mp hgot
  exact ⟨⟨p, hp, rfl⟩, c, hc, rfl⟩

theorem exists_assignedTo {entries : List (String × String)} {key : String}
    (hkey : key ∈ entries.map (·.1)) : ∃ id, assignedTo entries key = some id := by
  obtain ⟨e, he, rfl⟩ := List.mem_map.mp hkey
  have hfound : (entries.find? (·.1 = e.1)).isSome = true :=
    List.find?_isSome.mpr ⟨e, he, decide_eq_true rfl⟩
  obtain ⟨e', he'⟩ := Option.isSome_iff_exists.mp hfound
  exact ⟨e'.2, by rw [assignedTo, he']; rfl⟩

theorem assignedTo_of_mem {entries : List (String × String)} {key id : String}
    (hnodup : (entries.map (·.1)).Nodup) (he : (key, id) ∈ entries) :
    assignedTo entries key = some id := by
  obtain ⟨id', hid'⟩ := exists_assignedTo (List.mem_map_of_mem he)
  have hsame : (key, id') = (key, id) :=
    List.inj_on_of_nodup_map hnodup (mem_of_assignedTo hid') he rfl
  rw [hid', (Prod.mk.inj hsame).2]

theorem exists_mint {keys : List String} (henough : keys.length ≤ answers.length) :
    ∃ minted, mint keys answers = some minted ∧ minted.map (·.1) = keys := by
  induction keys generalizing answers with
  | nil => exact ⟨[], rfl, rfl⟩
  | cons key keys ih =>
    cases answers with
    | nil => exact absurd henough (Nat.not_succ_le_zero _)
    | cons answer answers =>
      obtain ⟨minted, hminted, hmap⟩ := ih (Nat.le_of_succ_le_succ henough)
      exact ⟨(key, answer) :: minted, by rw [mint, hminted]; rfl, congrArg (key :: ·) hmap⟩

/-- **The call returns**, with distinct keys and an answer of `allocate` for each. -/
theorem exists_resolve (S : Scoring σ) (registry : List CapabilityIdentity)
    (hkeys : (proposed.map (·.localKey)).Nodup) (henough : proposed.length ≤ answers.length) :
    ∃ result, resolve S proposed registry answers = .ok result := by
  have hlength : (unassignedKeys (assignedIn S proposed registry) proposed).length ≤
      answers.length := by
    rw [unassignedKeys, List.length_insertionSort]
    exact (List.length_filter_le _ _).trans ((List.length_map _).trans_le henough)
  obtain ⟨minted, hminted, hmap⟩ := exists_mint hlength
  have hattach : ∀ p ∈ proposed, (attachIn S proposed registry minted p).isOk = true := by
    intro p hp
    rw [attachIn, attach]
    cases hassigned : assignedTo (assignedIn S proposed registry) p.localKey with
    | some id =>
      obtain ⟨s, hs, hkey, hid⟩ := (assignedIn_spec S proposed registry).2.2 _
        (mem_of_assignedTo hassigned)
      have hfound : (scoreAll S (candidatesOf registry) proposed).find? (p.localKey, id) = some s :=
        Table.find?_eq_some_iff.mpr ⟨hs, Prod.ext hkey hid⟩
      simp only [hfound]
      rfl
    | none =>
      have hmem : p.localKey ∈ unassignedKeys (assignedIn S proposed registry) proposed := by
        rw [unassignedKeys, List.mem_insertionSort, List.mem_filter]
        exact ⟨List.mem_map_of_mem hp, decide_eq_true hassigned⟩
      obtain ⟨id, hid⟩ := exists_assignedTo (hmap ▸ hmem)
      simp only [hid]
      rfl
  have hall := isOk_mapM_iff.mpr hattach
  cases hattached : proposed.mapM (attachIn S proposed registry minted) with
  | error e =>
    rw [hattached] at hall
    cases hall
  | ok attached =>
    exact ⟨_, resolve_eq_ok_iff.mpr ⟨hkeys, minted, hminted, attached, hattached, rfl⟩⟩

theorem attached_cases {minted : List (String × String)} {p : ProposedCapability}
    {r : IdentityAttachment σ × List (Advisory σ)}
    (h : attachIn S proposed registry minted p = .ok r) : r.1.localKey = p.localKey ∧
      ((r.1.localKey, r.1.bcId) ∈ assignedIn S proposed registry ∨
        (r.1.localKey, r.1.bcId) ∈ minted) := by
  rcases attach_cases h with ⟨s, hchosen, rfl⟩ | ⟨-, hmethod, -⟩
  · exact ⟨rfl, .inl (mem_of_assignedTo hchosen.1)⟩
  · obtain ⟨hkey, hminted⟩ := attach_spec h
    exact ⟨hkey, .inr (mem_of_assignedTo (hminted hmethod))⟩

section Ids

variable (hanswers : answers.Nodup) (hfresh : ∀ id ∈ answers, id ∉ registry.map (·.bcId))
  (hresult : resolve S proposed registry answers = .ok result)

include hfresh

theorem not_minted_of_assigned {keys : List String} {minted : List (String × String)}
    (hminted : mint keys answers = some minted) {key key' id : String}
    (hid : (key, id) ∈ assignedIn S proposed registry) : (key', id) ∉ minted := by
  intro hmem
  obtain ⟨s, hs, -, rfl⟩ := (assignedIn_spec S proposed registry).2.2 _ hid
  obtain ⟨-, c, hc, hsame⟩ := exists_of_mem_scoresIn hs
  have hanswer : s.bcId ∈ answers := (mint_sublist hminted).subset (List.mem_map_of_mem hmem)
  exact hfresh _ hanswer (List.mem_map.mpr ⟨c, List.mem_of_mem_filter hc, hsame⟩)

include hresult

include hanswers in
/-- **No two attachments have one id.** -/
theorem nodup_bcIds : (result.attachments.map (·.bcId)).Nodup := by
  obtain ⟨hkeys, minted, hminted, attached, hattached, rfl⟩ := resolve_eq_ok_iff.mp hresult
  have hlocal : ((attached.map (·.1)).map (·.localKey)).Nodup := by
    rw [← (exists_of_resolve hresult).2.1] at hkeys
    exact hkeys
  have hcases : ∀ a ∈ attached.map (·.1),
      (a.localKey, a.bcId) ∈ assignedIn S proposed registry ∨ (a.localKey, a.bcId) ∈ minted := by
    intro a ha
    obtain ⟨r, hr, rfl⟩ := List.mem_map.mp ha
    exact forall_mem_of_mapM_eq_ok hattached (fun p r hr => (attached_cases hr).2) r hr
  have hassigned := (assignedIn_spec S proposed registry).2.1
  have hids : (minted.map (·.2)).Nodup := hanswers.sublist (mint_sublist hminted)
  refine List.Nodup.map_on (fun a ha b hb hsame => ?_) hlocal.of_map
  refine List.inj_on_of_nodup_map hlocal ha hb ?_
  rcases hcases a ha with ha | ha <;> rcases hcases b hb with hb | hb
  · exact congrArg Prod.fst (List.inj_on_of_nodup_map hassigned ha hb hsame)
  · exact absurd (hsame ▸ hb) (not_minted_of_assigned hfresh hminted ha)
  · exact absurd (hsame ▸ ha) (not_minted_of_assigned hfresh hminted hb)
  · exact congrArg Prod.fst (List.inj_on_of_nodup_map hids ha hb hsame)

/-- **A row is attached** exactly if it was assigned. -/
theorem claimed_iff {c : CapabilityIdentity} (hc : c ∈ candidatesOf registry) :
    c.bcId ∈ result.attachments.map (·.bcId) ↔
      c.bcId ∈ (assignedIn S proposed registry).map (·.2) := by
  obtain ⟨hkeys, minted, hminted, attached, hattached, rfl⟩ := resolve_eq_ok_iff.mp hresult
  constructor
  · intro hmem
    obtain ⟨a, ha, hid⟩ := List.mem_map.mp hmem
    obtain ⟨r, hr, rfl⟩ := List.mem_map.mp ha
    obtain ⟨p, -, hp⟩ := (exists_of_mapM_eq_ok hattached).1 r hr
    rcases (attached_cases hp).2 with hassigned | hnew
    · exact List.mem_map.mpr ⟨_, hassigned, hid⟩
    · have hanswer : c.bcId ∈ answers :=
        hid ▸ (mint_sublist hminted).subset (List.mem_map_of_mem hnew)
      exact absurd (List.mem_map_of_mem (List.mem_of_mem_filter hc)) (hfresh _ hanswer)
  · intro hmem
    obtain ⟨⟨key, id⟩, he, rfl⟩ := List.mem_map.mp hmem
    obtain ⟨hnodup, -, hscored⟩ := assignedIn_spec S proposed registry
    obtain ⟨s, hs, hkey, -⟩ := hscored _ he
    obtain ⟨⟨p, hp, hlocal⟩, -⟩ := exists_of_mem_scoresIn hs
    obtain ⟨r, hr, hattach⟩ := (exists_of_mapM_eq_ok hattached).2 p hp
    have hassigned : assignedTo (assignedIn S proposed registry) p.localKey = some c.bcId := by
      rw [hlocal, hkey]
      exact assignedTo_of_mem hnodup he
    rcases attach_cases hattach with ⟨s', hchosen, rfl⟩ | ⟨hnone, -⟩
    · exact List.mem_map.mpr ⟨_, List.mem_map_of_mem hr,
        Option.some.inj (hchosen.1.symm.trans hassigned)⟩
    · cases hnone.symm.trans hassigned

end Ids

/-! ## 3.  What becomes of a candidate -/

/-- The ends of a candidate. -/
inductive Fate where
  | claimed
  | merged
  | retired
  | left

/-- The result brings the candidate to this end. -/
def Fate.Of (result : ResolutionResult σ) (c : CapabilityIdentity) : Fate → Prop
  | .claimed => c.bcId ∈ result.attachments.map (·.bcId)
  | .merged => c.bcId ∈ result.merged
  | .retired => c.bcId ∈ result.retired
  | .left => c.status = .retired ∧ c.bcId ∉ result.attachments.map (·.bcId) ∧
      c.bcId ∉ result.merged ∧ c.bcId ∉ result.retired

theorem mem_retiredIn {id : String} : id ∈ retiredIn S proposed registry ↔
    ∃ c ∈ unclaimedIn S proposed registry, absorbedIn S proposed registry c = none ∧
      c.status = .active ∧ c.bcId = id := by
  rw [retiredIn, List.mem_insertionSort, List.mem_map]
  refine exists_congr fun c => ?_
  rw [List.mem_filter, decide_eq_true_eq]
  tauto

theorem claimed_of_absorbedIn {c : CapabilityIdentity} {winner : String}
    (h : absorbedIn S proposed registry c = some winner) :
    winner ∈ (assignedIn S proposed registry).map (·.2) := by
  obtain ⟨e, -, he⟩ := Option.bind_eq_some_iff.mp h
  exact List.mem_map_of_mem (mem_of_assignedTo he)

section Fates

variable (hids : (registry.map (·.bcId)).Nodup)
  (hfresh : ∀ id ∈ answers, id ∉ registry.map (·.bcId))
  (hresult : resolve S proposed registry answers = .ok result)

include hids hfresh hresult

theorem fate_iff {c : CapabilityIdentity} (hc : c ∈ candidatesOf registry) :
    (c.bcId ∈ result.merged ↔ c.bcId ∉ result.attachments.map (·.bcId) ∧
      absorbedIn S proposed registry c ≠ none) ∧
    (c.bcId ∈ result.retired ↔ c.bcId ∉ result.attachments.map (·.bcId) ∧
      absorbedIn S proposed registry c = none ∧ c.status = .active) := by
  have hunclaimed : c ∈ unclaimedIn S proposed registry ↔
      c.bcId ∉ result.attachments.map (·.bcId) := by
    rw [claimed_iff hfresh hresult hc, unclaimedIn, List.mem_filter, decide_eq_true_eq]
    exact and_iff_right hc
  have hsame : ∀ d ∈ unclaimedIn S proposed registry, d.bcId = c.bcId → d = c :=
    fun d hd hid => List.inj_on_of_nodup_map (nodup_candidates hids) (List.mem_of_mem_filter hd) hc
      hid
  obtain ⟨-, minted, -, attached, -, rfl⟩ := resolve_eq_ok_iff.mp hresult
  rw [← hunclaimed]
  constructor
  · rw [Dict.mem_iff_get?]
    simp only [get?_mergedIn hids]
    constructor
    · rintro ⟨winner, d, hd, hid, hwinner⟩
      obtain rfl := hsame d hd hid
      exact ⟨hd, hwinner ▸ Option.some_ne_none winner⟩
    · rintro ⟨hmem, habsorbed⟩
      obtain ⟨winner, hwinner⟩ := Option.ne_none_iff_exists'.mp habsorbed
      exact ⟨winner, c, hmem, rfl, hwinner⟩
  · rw [mem_retiredIn]
    constructor
    · rintro ⟨d, hd, habsorbed, hactive, hid⟩
      obtain rfl := hsame d hd hid
      exact ⟨hd, habsorbed, hactive⟩
    · rintro ⟨hmem, habsorbed, hactive⟩
      exact ⟨c, hmem, habsorbed, hactive, rfl⟩

/-- **A candidate comes to one end.** -/
theorem exists_unique_fate {c : CapabilityIdentity} (hc : c ∈ candidatesOf registry) :
    ∃! fate : Fate, fate.Of result c := by
  obtain ⟨hmerged, hretired⟩ := fate_iff hids hfresh hresult hc
  have hstatus : c.status = .active ∨ c.status = .retired := by
    have hne := of_decide_eq_true (List.mem_filter.mp hc).2
    cases hs : c.status with
    | active => exact .inl rfl
    | retired => exact .inr rfl
    | merged => exact absurd hs hne
  have hexists : ∃ fate : Fate, fate.Of result c := by
    by_cases hclaimed : c.bcId ∈ result.attachments.map (·.bcId)
    · exact ⟨.claimed, hclaimed⟩
    by_cases habsorbed : absorbedIn S proposed registry c = none
    · rcases hstatus with hactive | hleft
      · exact ⟨.retired, hretired.mpr ⟨hclaimed, habsorbed, hactive⟩⟩
      · refine ⟨.left, hleft, hclaimed, fun h => (hmerged.mp h).2 habsorbed, fun h => ?_⟩
        exact nomatch hleft.symm.trans (hretired.mp h).2.2
    · exact ⟨.merged, hmerged.mpr ⟨hclaimed, habsorbed⟩⟩
  have hunique : ∀ fate : Fate, fate.Of result c → fate =
      if c.bcId ∈ result.attachments.map (·.bcId) then .claimed
      else if absorbedIn S proposed registry c ≠ none then .merged
      else if c.status = .active then .retired
      else .left := by
    intro fate hfate
    cases fate with
    | claimed => exact (if_pos hfate).symm
    | merged =>
      obtain ⟨hclaimed, habsorbed⟩ := hmerged.mp hfate
      rw [if_neg hclaimed, if_pos habsorbed]
    | retired =>
      obtain ⟨hclaimed, habsorbed, hactive⟩ := hretired.mp hfate
      rw [if_neg hclaimed, if_neg (not_not.mpr habsorbed), if_pos hactive]
    | left =>
      obtain ⟨hleft, hclaimed, hnot, -⟩ := hfate
      have habsorbed : ¬ absorbedIn S proposed registry c ≠ none :=
        fun h => hnot (hmerged.mpr ⟨hclaimed, h⟩)
      rw [if_neg hclaimed, if_neg habsorbed, if_neg (hleft ▸ nofun)]
  obtain ⟨fate, hfate⟩ := hexists
  exact ⟨fate, hfate, fun g hg => (hunique g hg).trans (hunique fate hfate).symm⟩

end Fates

/-- **`resolve` partitions identity.**  With distinct keys, ids and fresh answers of `allocate` the
call returns; each capability has one attachment and no two have one id; the order of the arguments
does not matter; and each candidate is claimed, merged into one that is, retired if it was active,
or left as it was. -/
theorem resolve_partitions (S : Scoring σ) (proposed : List ProposedCapability)
    (registry : List CapabilityIdentity) (answers : List String)
    (hkeys : (proposed.map (·.localKey)).Nodup) (hids : (registry.map (·.bcId)).Nodup)
    (henough : proposed.length ≤ answers.length) (hanswers : answers.Nodup)
    (hfresh : ∀ id ∈ answers, id ∉ registry.map (·.bcId)) :
    ∃ result, resolve S proposed registry answers = .ok result ∧
      result.attachments.map (·.localKey) = proposed.map (·.localKey) ∧
      (result.attachments.map (·.bcId)).Nodup ∧
      (∀ proposed' registry', proposed'.Perm proposed → registry'.Perm registry →
        ∃ result', resolve S proposed' registry' answers = .ok result' ∧
          result'.attachments.Perm result.attachments ∧
          result'.advisories.Perm result.advisories ∧
          result'.merged = result.merged ∧ result'.retired = result.retired) ∧
      ∀ c ∈ candidatesOf registry, (∃! fate : Fate, fate.Of result c) ∧
        (c.bcId ∈ result.retired → c.status = .active) ∧
        ∀ winner, result.merged[c.bcId]? = some winner →
          ∃ d ∈ candidatesOf registry, d.bcId = winner ∧ Fate.claimed.Of result d := by
  obtain ⟨result, hresult⟩ := exists_resolve S registry hkeys henough
  refine ⟨result, hresult, (exists_of_resolve hresult).2.1, nodup_bcIds hanswers hfresh hresult,
    fun proposed' registry' hp hr => resolve_perm ⟨hp, hr, hkeys, hids⟩ hresult, fun c hc => ?_⟩
  refine ⟨exists_unique_fate hids hfresh hresult hc,
    fun hmem => ((fate_iff hids hfresh hresult hc).2.mp hmem).2.2, fun winner hwinner => ?_⟩
  have hmerged : result.merged = mergedIn S proposed registry := by
    obtain ⟨-, minted, -, attached, -, rfl⟩ := resolve_eq_ok_iff.mp hresult
    rfl
  rw [hmerged] at hwinner
  obtain ⟨c', -, -, habsorbed⟩ := (get?_mergedIn hids).mp hwinner
  have hassigned := claimed_of_absorbedIn habsorbed
  obtain ⟨e, he, rfl⟩ := List.mem_map.mp hassigned
  obtain ⟨s, hs, -, hid⟩ := (assignedIn_spec S proposed registry).2.2 e he
  obtain ⟨-, d, hd, hsame⟩ := exists_of_mem_scoresIn hs
  have hwinner : d.bcId = e.2 := hsame.trans hid
  exact ⟨d, hd, hwinner, (claimed_iff hfresh hresult hd).mpr (hwinner ▸ hassigned)⟩

theorem resolve_partitions_sample : ∃ result,
    resolve lookedUpScoring [sampleCapability "b", sampleCapability "c"] sampleRegistry
      ["BC-003", "BC-004"] = .ok result ∧
    (result.attachments.map (·.bcId)).Nodup ∧
    ∀ c ∈ candidatesOf sampleRegistry, ∃! fate : Fate, fate.Of result c := by
  obtain ⟨result, hresult, -, hnodup, -, hfates⟩ := resolve_partitions lookedUpScoring
    [sampleCapability "b", sampleCapability "c"] sampleRegistry ["BC-003", "BC-004"]
    (by decide) (by decide) (by decide) (by decide) (by decide)
  exact ⟨result, hresult, hnodup, fun c hc => (hfates c hc).1⟩

end Kroker.Matcher
