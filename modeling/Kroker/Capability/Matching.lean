import Kroker.Capability.Matcher
import Kroker.Library.Greedy
import Mathlib.Data.Prod.Lex

/-!
# The greedy matcher is a stable matching

`assign` of `capability/matcher.py` goes through the scored pairs by falling score, then id, then
key, and claims both sides of each pair that finds them free.

## 1.  As a greedy choice

The order of the pairs is the lexicographic order of `rank`, in which two pairs clash if they share
a side; `assign_eq` says that the entries of `assign` are the greedy choice among the ranks.

## 2.  A stable matching

`assign_stable`: one to one, without a blocking pair, independent of the order of the list, and a
chosen pair is not moved by pairs that come later.

## 3.  A call that returns

`resolve_eq_ok_iff` takes a call of `resolve` apart: the keys are distinct, the ids of the
unassigned keys are minted, and each capability is attached.
-/

namespace Kroker.Matcher

variable {σ : Type} [LinearOrder σ]

/-! ## 1.  As a greedy choice -/

/-- The place of a pair in the order: by falling score, then id, then key. -/
abbrev Rank (σ : Type) := σᵒᵈ ×ₗ String ×ₗ String

def rank (p : Scored σ) : Rank σ := toLex (OrderDual.toDual p.total, toLex (p.bcId, p.localKey))

def Rank.bcId (k : Rank σ) : String := (ofLex (ofLex k).2).1

def Rank.localKey (k : Rank σ) : String := (ofLex (ofLex k).2).2

/-- Two pairs have a side in common. -/
def shareSide (a b : Rank σ) : Bool := a.bcId = b.bcId || a.localKey = b.localKey

omit [LinearOrder σ] in
theorem shareSide_iff {a b : Rank σ} :
    shareSide a b = true ↔ a.bcId = b.bcId ∨ a.localKey = b.localKey := by
  rw [shareSide, Bool.or_eq_true, decide_eq_true_eq, decide_eq_true_eq]

omit [LinearOrder σ] in
theorem shareSide_comm (a b : Rank σ) : shareSide a b = shareSide b a := by
  rw [Bool.eq_iff_iff, shareSide_iff, shareSide_iff]
  exact or_congr eq_comm eq_comm

theorem before_iff {a b : Scored σ} : before a b ↔ rank a ≤ rank b := by
  rw [before, rank, rank, Prod.Lex.toLex_le_toLex, Prod.Lex.toLex_le_toLex]
  refine or_congr Iff.rfl (and_congr ?_ Iff.rfl)
  exact ⟨fun h => congrArg OrderDual.toDual h.symm, fun h => (OrderDual.toDual_inj.mp h).symm⟩

theorem map_rank_insertionSort (pairs : List (Scored σ)) :
    (pairs.insertionSort before).map rank = (pairs.map rank).insertionSort (· ≤ ·) :=
  List.map_insertionSort _ _ _ _ fun _ _ _ _ => before_iff

omit [LinearOrder σ] in
/-- The loop refuses a claim where an earlier one that was taken shares a side. -/
theorem foldl_assignStep (l : List (Scored σ)) (taken : List (Rank σ)) :
    l.foldl assignStep (taken.reverse.map fun k => (k.localKey, k.bcId)) =
      taken.reverse.map (fun k => (k.localKey, k.bcId)) ++
        (Greedy.pick shareSide taken (l.map rank)).map fun k => (k.localKey, k.bcId) := by
  induction l generalizing taken with
  | nil => rw [List.map_nil, Greedy.pick, List.map_nil, List.append_nil, List.foldl_nil]
  | cons p l ih =>
    rw [List.foldl_cons, List.map_cons, Greedy.pick, assignStep]
    have hrefused : (p.bcId ∈ (taken.reverse.map fun k => (k.localKey, k.bcId)).map (·.2) ∨
          p.localKey ∈ (taken.reverse.map fun k => (k.localKey, k.bcId)).map (·.1)) ↔
        taken.any (shareSide (rank p)) = true := by
      rw [List.any_eq_true, List.map_map, List.map_map, List.mem_map, List.mem_map]
      simp only [List.mem_reverse, Function.comp_apply, shareSide_iff]
      rw [← exists_or]
      refine exists_congr fun k => ?_
      rw [← and_or_left]
      exact and_congr_right fun _ => or_congr eq_comm eq_comm
    by_cases h : taken.any (shareSide (rank p)) = true
    · rw [if_pos (hrefused.mpr h), if_pos h]
      exact ih taken
    · rw [if_neg fun h' => h (hrefused.mp h'), if_neg h]
      have hnext := ih (rank p :: taken)
      rw [List.reverse_cons, List.map_append] at hnext
      refine hnext.trans ?_
      rw [List.append_assoc]
      rfl

/-- **`assign` is the greedy choice** among the ranks. -/
theorem assign_eq (pairs : List (Scored σ)) : assign pairs =
    (Greedy.greedy shareSide (pairs.map rank)).map fun k => (k.localKey, k.bcId) := by
  rw [assign, Greedy.greedy, ← map_rank_insertionSort]
  exact foldl_assignStep _ []

theorem assign_perm {pairs pairs' : List (Scored σ)} (h : pairs.Perm pairs') :
    assign pairs = assign pairs' := by
  rw [assign_eq, assign_eq, Greedy.greedy_perm (h.map rank)]

/-! ## 2.  A stable matching -/

theorem exists_chosen (pairs : List (Scored σ)) : ∃ chosen : List (Scored σ),
    (∀ q ∈ chosen, q ∈ pairs) ∧ chosen.map rank = Greedy.greedy shareSide (pairs.map rank) ∧
      assign pairs = chosen.map fun q => (q.localKey, q.bcId) := by
  suffices hchosen : ∃ chosen : List (Scored σ), (∀ q ∈ chosen, q ∈ pairs) ∧
      chosen.map rank = Greedy.greedy shareSide (pairs.map rank) by
    obtain ⟨chosen, hsubset, hmap⟩ := hchosen
    refine ⟨chosen, hsubset, hmap, ?_⟩
    rw [assign_eq, ← hmap, List.map_map]
    rfl
  have hsubset : ∀ k ∈ Greedy.greedy shareSide (pairs.map rank), k ∈ pairs.map rank :=
    (Greedy.stable_greedy shareSide_comm (pairs.map rank)).subset
  generalize Greedy.greedy shareSide (pairs.map rank) = ranks at hsubset
  induction ranks with
  | nil => exact ⟨[], nofun, rfl⟩
  | cons k ranks ih =>
    obtain ⟨hk, hranks⟩ := List.forall_mem_cons.mp hsubset
    obtain ⟨q, hq, rfl⟩ := List.mem_map.mp hk
    obtain ⟨chosen, hchosen, hmap⟩ := ih hranks
    exact ⟨q :: chosen, List.forall_mem_cons.mpr ⟨hq, hchosen⟩, congrArg (rank q :: ·) hmap⟩

theorem nodup_side {chosen : List (Scored σ)} {pairs : List (Scored σ)}
    (hmap : chosen.map rank = Greedy.greedy shareSide (pairs.map rank)) {side : Scored σ → String}
    (hside : ∀ p q : Scored σ, side p = side q → shareSide (rank p) (rank q) = true) :
    (chosen.map side).Nodup := by
  have hpick : (chosen.map rank).Pairwise fun a b => shareSide b a = false :=
    hmap ▸ Greedy.pairwise_pick _ _
  rw [List.pairwise_map] at hpick
  rw [List.Nodup, List.pairwise_map]
  refine hpick.imp fun {p q} hfree hsame => ?_
  exact Bool.false_ne_true (hfree.symm.trans (hside q p hsame.symm))

/-- **`assign` is a stable matching.**  The chosen pairs are one to one; a pair that was not chosen
has a side in a chosen pair that precedes it; the order of the list does not matter; and pairs that
a chosen pair precedes, wherever they are added, leave it chosen. -/
theorem assign_stable (pairs : List (Scored σ)) : ∃ chosen : List (Scored σ),
    (∀ q ∈ chosen, q ∈ pairs) ∧ assign pairs = chosen.map (fun q => (q.localKey, q.bcId)) ∧
    (chosen.map (·.bcId)).Nodup ∧ (chosen.map (·.localKey)).Nodup ∧
    (∀ p ∈ pairs, rank p ∉ chosen.map rank → ∃ q ∈ chosen, rank q < rank p ∧
      (q.bcId = p.bcId ∨ q.localKey = p.localKey)) ∧
    (∀ pairs', pairs'.Perm pairs → assign pairs' = assign pairs) ∧
    ∀ q ∈ chosen, ∀ more all : List (Scored σ), (∀ p ∈ more, rank q ≤ rank p) →
      all.Perm (pairs ++ more) → (q.localKey, q.bcId) ∈ assign all := by
  obtain ⟨chosen, hsubset, hmap, hassign⟩ := exists_chosen pairs
  have hstable : Greedy.Stable shareSide (pairs.map rank) (chosen.map rank) :=
    hmap ▸ Greedy.stable_greedy shareSide_comm (pairs.map rank)
  refine ⟨chosen, hsubset, hassign, nodup_side hmap fun p q h => shareSide_iff.mpr (.inl h),
    nodup_side hmap fun p q h => shareSide_iff.mpr (.inr h), ?_, fun _ h => assign_perm h, ?_⟩
  · intro p hp hnot
    obtain ⟨k, hk, hlt, hshare⟩ := hstable.blocked (rank p) (List.mem_map_of_mem hp) hnot
    obtain ⟨q, hq, rfl⟩ := List.mem_map.mp hk
    exact ⟨q, hq, hlt, (shareSide_iff.mp hshare).imp Eq.symm Eq.symm⟩
  · intro q hq more all hmore hall
    have hchosen : rank q ∈ Greedy.greedy shareSide (pairs.map rank) :=
      hmap ▸ List.mem_map_of_mem hq
    have hkept : rank q ∈ Greedy.greedy shareSide (pairs.map rank ++ more.map rank) :=
      Greedy.mem_greedy_append shareSide_comm hchosen (List.forall_mem_map.mpr hmore)
    rw [assign_perm hall, assign_eq, List.map_append]
    exact List.mem_map.mpr ⟨rank q, hkept, rfl⟩

/-! ## 3.  A call that returns -/

section Call

variable (S : Scoring σ) (proposed : List ProposedCapability) (registry : List CapabilityIdentity)

def scoresIn : List (Scored σ) := (scoreAll S (candidatesOf registry) proposed).rows

def eligibleIn : List (Scored σ) := (scoresIn S proposed registry).filter (S.tMatch ≤ ·.total)

def assignedIn : List (String × String) := assign (eligibleIn S proposed registry)

/-- The round of the attachment loop of a call. -/
def attachIn (minted : List (String × String)) (p : ProposedCapability) :
    Except CapabilityError (IdentityAttachment σ × List (Advisory σ)) :=
  attach S (scoreAll S (candidatesOf registry) proposed) (eligibleIn S proposed registry)
    (uncomputableOf S (candidatesOf registry) proposed) (candidatesOf registry)
    (assignedIn S proposed registry) minted p

def unclaimedIn : List CapabilityIdentity :=
  (candidatesOf registry).filter (·.bcId ∉ (assignedIn S proposed registry).map (·.2))

def absorbedIn (c : CapabilityIdentity) : Option String :=
  absorbedBy S c.bcId (scoreAll S (candidatesOf registry) proposed) (assignedIn S proposed registry)

def mergedIn : Dict String :=
  Dict.ofItems ((unclaimedIn S proposed registry).filterMap fun c =>
    (absorbedIn S proposed registry c).map fun winner => (c.bcId, winner))

def retiredIn : List String :=
  (((unclaimedIn S proposed registry).filter fun c =>
    absorbedIn S proposed registry c = none ∧ c.status = .active).map
      (·.bcId)).insertionSort (· ≤ ·)

theorem firstDuplicate_of_nodup {keys seen : List String} (hkeys : keys.Nodup)
    (hseen : ∀ k ∈ keys, k ∉ seen) : firstDuplicate seen keys = none := by
  induction keys generalizing seen with
  | nil => rfl
  | cons key keys ih =>
    obtain ⟨hkey, hkeys⟩ := List.nodup_cons.mp hkeys
    obtain ⟨hnew, hrest⟩ := List.forall_mem_cons.mp hseen
    rw [firstDuplicate, if_neg hnew]
    refine ih hkeys fun k hk hmem => ?_
    rcases List.mem_cons.mp hmem with rfl | hmem
    · exact hkey hk
    · exact hrest k hk hmem

variable {S proposed registry} {answers : List String} {result : ResolutionResult σ}

/-- **What a call of `resolve` that returns has done.** -/
theorem resolve_eq_ok_iff : resolve S proposed registry answers = .ok result ↔
    (proposed.map (·.localKey)).Nodup ∧ ∃ minted,
      mint (unassignedKeys (assignedIn S proposed registry) proposed) answers = some minted ∧
      ∃ attached, proposed.mapM (attachIn S proposed registry minted) = .ok attached ∧
        result =
          { attachments := attached.map (·.1), advisories := attached.flatMap (·.2),
            merged := mergedIn S proposed registry, retired := retiredIn S proposed registry } := by
  unfold resolve
  simp only
  split
  · rename_i key hduplicate
    refine iff_of_false nofun fun h => ?_
    rw [firstDuplicate_of_nodup h.1 fun _ _ => List.not_mem_nil] at hduplicate
    cases hduplicate
  · rename_i hduplicate
    have hnodup := (nodup_of_firstDuplicate (Option.eq_none_iff_forall_ne_some.mpr hduplicate)).1
    refine Iff.trans ?_ (and_iff_right hnodup).symm
    split
    · rename_i minted hminted
      rw [bind_eq_ok]
      constructor
      · rintro ⟨attached, hattached, hresult⟩
        exact ⟨minted, hminted, attached, hattached, (Except.ok.inj hresult).symm⟩
      · rintro ⟨minted', hminted', attached, hattached, rfl⟩
        obtain rfl := Option.some.inj (hminted.symm.trans hminted')
        exact ⟨attached, hattached, rfl⟩
    · rename_i hnone
      refine iff_of_false nofun ?_
      rintro ⟨minted, hminted, -⟩
      exact hnone minted hminted

end Call

end Kroker.Matcher
