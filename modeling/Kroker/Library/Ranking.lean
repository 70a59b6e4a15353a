import Kroker.Library.Keyed
import Kroker.Library.Members

/-!
# Keeping the best and ranking them

A pass that keeps one row of each class, the first of those with the least rank, and then sorts
what it kept by rank.  The sort is stable, so rows of one rank stand in the order in which their
classes were first met.

## 1.  What is kept

`get?_best_iff` --- the row kept for a class is the `Best` of it.

## 2.  The order

`pairwise_ranked` --- of two rows that are kept, the one with the lesser rank comes first, and of
two with one rank the one whose class is met first.

## 3.  Whether the order of the input matters

The input is a front that stays where it is and blocks that come in any order.  By
`ranked_perm_iff` the result is the same for every order exactly if the blocks agree on every tie
that the front does not decide (`Settled`).
-/

namespace Kroker.Ranking

variable {α κ ρ : Type} [DecidableEq κ] [LinearOrder ρ] (cls : α → κ) (rank : α → ρ)

/-! ## 1.  What is kept -/

def keepBest (kept : List (κ × α)) (a : α) : List (κ × α) :=
  match Members.get? kept (cls a) with
  | none => Members.set kept (cls a) a
  | some b => if rank a < rank b then Members.set kept (cls a) a else kept

/-- The rows kept, by their classes. -/
def best (l : List α) : List (κ × α) := l.foldl (keepBest cls rank) []

/-- The rows kept, in the order of their ranks. -/
def ranked (l : List α) : List α := sortedBy rank ((best cls rank l).map Prod.snd)

/-- The first of the rows of a class that have its least rank. -/
structure Best (l : List α) (a : α) : Prop where
  le : ∀ b ∈ l, cls b = cls a → rank a ≤ rank b
  first : l.find? (fun b => decide (cls b = cls a ∧ rank b = rank a)) = some a

variable {cls rank} {l : List α} {a b : α} {k : κ}

theorem Best.mem (h : Best cls rank l a) : a ∈ l := List.mem_of_find?_eq_some h.first

theorem Best.unique (ha : Best cls rank l a) (hb : Best cls rank l b) (h : cls a = cls b) :
    a = b := by
  have hrank : rank a = rank b := le_antisymm (ha.le b hb.mem h.symm) (hb.le a ha.mem h)
  have hfirst := ha.first
  rw [h, hrank, hb.first] at hfirst
  exact (Option.some.inj hfirst).symm

theorem best_append_singleton (l : List α) (b : α) :
    best cls rank (l ++ [b]) = keepBest cls rank (best cls rank l) b := by
  rw [best, List.foldl_append, List.foldl_cons, List.foldl_nil, ← best]

theorem get?_keepBest (kept : List (κ × α)) (b : α) (k : κ) :
    Members.get? (keepBest cls rank kept b) k = if cls b = k then
      match Members.get? kept k with
      | none => some b
      | some a => if rank b < rank a then some b else some a
    else Members.get? kept k := by
  rw [keepBest]
  by_cases hk : cls b = k
  · subst hk
    rw [if_pos rfl]
    cases hget : Members.get? kept (cls b) with
    | none => exact Members.get?_set_self _ _ _
    | some a =>
      dsimp only
      split_ifs
      · exact Members.get?_set_self _ _ _
      · exact hget
  · rw [if_neg hk]
    cases Members.get? kept (cls b) with
    | none => exact Members.get?_set_of_ne _ _ hk
    | some a =>
      dsimp only
      split_ifs
      · exact Members.get?_set_of_ne _ _ hk
      · rfl

theorem keys_keepBest (kept : List (κ × α)) (b : α) :
    (keepBest cls rank kept b).map Prod.fst =
      if cls b ∈ kept.map Prod.fst then kept.map Prod.fst else kept.map Prod.fst ++ [cls b] := by
  rw [keepBest]
  cases hget : Members.get? kept (cls b) with
  | none => exact Members.keys_set _ _ _
  | some a =>
    have hmem : cls b ∈ kept.map Prod.fst :=
      List.mem_map_of_mem (Members.mem_of_get?_eq_some hget)
    dsimp only
    rw [if_pos hmem]
    split_ifs
    · rw [Members.keys_set, if_pos hmem]
    · rfl

theorem mem_keys_best : k ∈ (best cls rank l).map Prod.fst ↔ ∃ a ∈ l, cls a = k := by
  induction l using List.reverseRecOn with
  | nil => simp [best]
  | append_singleton l b ih =>
    rw [best_append_singleton, keys_keepBest]
    simp only [List.mem_append, List.mem_singleton, or_and_right, exists_or, exists_eq_left]
    split_ifs with hmem
    · rw [ih]
      exact ⟨.inl, fun h => h.elim id fun h => ih.mp (h ▸ hmem)⟩
    · rw [List.mem_append, ih, List.mem_singleton, eq_comm]

theorem nodup_keys_best (l : List α) : ((best cls rank l).map Prod.fst).Nodup := by
  induction l using List.reverseRecOn with
  | nil => exact List.nodup_nil
  | append_singleton l b ih =>
    rw [best_append_singleton, keys_keepBest]
    split_ifs with hmem
    · exact ih
    · exact ih.append (List.nodup_singleton _) (List.disjoint_singleton.mpr hmem)

theorem Best.append (h : Best cls rank l a) (hb : cls b = cls a → rank a ≤ rank b) :
    Best cls rank (l ++ [b]) a := by
  refine ⟨fun c hc => ?_, by rw [List.find?_append, h.first, Option.some_or]⟩
  rcases List.mem_append.mp hc with hc | hc
  · exact h.le c hc
  · rw [List.mem_singleton.mp hc]
    exact hb

theorem best_append_self (h : ∀ c ∈ l, cls c = cls b → rank b < rank c) :
    Best cls rank (l ++ [b]) b := by
  refine ⟨fun c hc hcls => ?_, ?_⟩
  · rcases List.mem_append.mp hc with hc | hc
    · exact (h c hc hcls).le
    · rw [List.mem_singleton.mp hc]
  · have hnone : l.find? (fun c => decide (cls c = cls b ∧ rank c = rank b)) = none := by
      refine List.find?_eq_none.mpr fun c hc hpass => ?_
      obtain ⟨hcls, hrank⟩ := of_decide_eq_true hpass
      exact absurd hrank (h c hc hcls).ne'
    rw [List.find?_append, hnone, Option.none_or, List.find?_singleton,
      if_pos (decide_eq_true ⟨rfl, rfl⟩)]

/-- **The row kept for a class** is the best of it. -/
theorem get?_best_iff : Members.get? (best cls rank l) k = some a ↔
    cls a = k ∧ Best cls rank l a := by
  have hsound : ∀ a, Members.get? (best cls rank l) k = some a →
      cls a = k ∧ Best cls rank l a := by
    induction l using List.reverseRecOn with
    | nil => exact fun a h => nomatch h
    | append_singleton l b ih =>
      intro a h
      rw [best_append_singleton, get?_keepBest] at h
      split_ifs at h with hk
      · subst hk
        cases hget : Members.get? (best cls rank l) (cls b) with
        | none =>
          rw [hget] at h
          obtain rfl := Option.some.inj h
          have hnew := Members.get?_eq_none_iff.mp hget
          rw [mem_keys_best] at hnew
          exact ⟨rfl, best_append_self fun c hc hcls => absurd ⟨c, hc, hcls⟩ hnew⟩
        | some c =>
          obtain ⟨hcls, hbest⟩ := ih c hget
          rw [hget] at h
          dsimp only at h
          split_ifs at h with hlt
          · obtain rfl := Option.some.inj h
            refine ⟨rfl, best_append_self fun d hd hdcls => hlt.trans_le ?_⟩
            exact hbest.le d hd (hdcls.trans hcls.symm)
          · obtain rfl := Option.some.inj h
            exact ⟨hcls, hbest.append fun _ => not_lt.mp hlt⟩
      · obtain ⟨hcls, hbest⟩ := ih a h
        exact ⟨hcls, hbest.append fun hb => absurd (hb.trans hcls) hk⟩
  refine ⟨hsound a, ?_⟩
  rintro ⟨rfl, hbest⟩
  cases hget : Members.get? (best cls rank l) (cls a) with
  | none =>
    have hnew := Members.get?_eq_none_iff.mp hget
    rw [mem_keys_best] at hnew
    exact absurd ⟨a, hbest.mem, rfl⟩ hnew
  | some b =>
    obtain ⟨hcls, hbest'⟩ := hsound b hget
    rw [hbest'.unique hbest hcls]

theorem exists_best (ha : a ∈ l) : ∃ b, Best cls rank l b ∧ cls b = cls a := by
  have hkey : cls a ∈ (best cls rank l).map Prod.fst := mem_keys_best.mpr ⟨a, ha, rfl⟩
  obtain ⟨m, hm, hfst⟩ := List.mem_map.mp hkey
  have hget := Members.get?_eq_some_of_mem (nodup_keys_best l) hm
  obtain ⟨hcls, hbest⟩ := get?_best_iff.mp hget
  exact ⟨m.2, hbest, hcls.trans hfst⟩

theorem mem_kept_iff : a ∈ (best cls rank l).map Prod.snd ↔ Best cls rank l a := by
  constructor
  · intro h
    obtain ⟨m, hm, rfl⟩ := List.mem_map.mp h
    exact (get?_best_iff.mp (Members.get?_eq_some_of_mem (nodup_keys_best l) hm)).2
  · intro h
    have hm := Members.mem_of_get?_eq_some (get?_best_iff.mpr ⟨rfl, h⟩)
    exact List.mem_map_of_mem (f := Prod.snd) hm

theorem map_cls_kept (l : List α) :
    ((best cls rank l).map Prod.snd).map cls = (best cls rank l).map Prod.fst := by
  rw [List.map_map]
  refine List.map_congr_left fun m hm => ?_
  exact (get?_best_iff.mp (Members.get?_eq_some_of_mem (nodup_keys_best l) hm)).1

theorem nodup_kept (l : List α) : ((best cls rank l).map Prod.snd).Nodup := by
  have hkeys : ((best cls rank l).map Prod.fst).Nodup := nodup_keys_best l
  rw [← map_cls_kept] at hkeys
  exact List.Nodup.of_map cls hkeys

/-! ## 2.  The order -/

/-- Of the two classes `k` is met first. -/
def MetFirst (cls : α → κ) (l : List α) (k k' : κ) : Prop :=
  ∃ x, l.find? (fun c => decide (cls c = k ∨ cls c = k')) = some x ∧ cls x = k

theorem MetFirst.append {k k' : κ} (h : MetFirst cls l k k') (m : List α) :
    MetFirst cls (l ++ m) k k' := by
  obtain ⟨x, hx, hcls⟩ := h
  exact ⟨x, by rw [List.find?_append, hx, Option.some_or], hcls⟩

theorem MetFirst.eq_of_swap {k k' : κ} (h : MetFirst cls l k k') (h' : MetFirst cls l k' k) :
    k = k' := by
  obtain ⟨x, hx, hcls⟩ := h
  obtain ⟨y, hy, hcls'⟩ := h'
  have hswap : (fun c => decide (cls c = k' ∨ cls c = k)) =
      fun c => decide (cls c = k ∨ cls c = k') := funext fun c => decide_eq_decide.mpr or_comm
  rw [hswap, hx] at hy
  obtain rfl := Option.some.inj hy
  exact hcls.symm.trans hcls'

/-- **Classes are kept in the order in which they are met.** -/
theorem pairwise_keys_best (l : List α) :
    ((best cls rank l).map Prod.fst).Pairwise (MetFirst cls l) := by
  induction l using List.reverseRecOn with
  | nil => exact List.Pairwise.nil
  | append_singleton l b ih =>
    rw [best_append_singleton, keys_keepBest]
    split_ifs with hmem
    · exact ih.imp fun h => h.append [b]
    · refine List.pairwise_append.mpr
        ⟨ih.imp fun h => h.append [b], List.pairwise_singleton _ _, fun k hk k' hk' => ?_⟩
      rw [List.mem_singleton.mp hk']
      refine MetFirst.append ?_ [b]
      obtain ⟨c, hc, hck⟩ := mem_keys_best.mp hk
      cases hfind : l.find? (fun d => decide (cls d = k ∨ cls d = cls b)) with
      | none => exact absurd (decide_eq_true (.inl hck)) (List.find?_eq_none.mp hfind c hc)
      | some x =>
        have hfound : cls x = k ∨ cls x = cls b := by simpa using List.find?_some hfind
        refine ⟨x, hfind, hfound.resolve_right fun hx => ?_⟩
        exact hmem (mem_keys_best.mpr ⟨x, List.mem_of_find?_eq_some hfind, hx⟩)

theorem pairwise_kept (l : List α) :
    ((best cls rank l).map Prod.snd).Pairwise fun a b => MetFirst cls l (cls a) (cls b) := by
  have hkeys : ((best cls rank l).map Prod.fst).Pairwise (MetFirst cls l) := pairwise_keys_best l
  rw [← map_cls_kept] at hkeys
  exact List.pairwise_map.mp hkeys

theorem ranked_perm (l : List α) :
    (ranked cls rank l).Perm ((best cls rank l).map Prod.snd) :=
  sortedBy_perm rank _

theorem mem_ranked_iff : a ∈ ranked cls rank l ↔ Best cls rank l a := by
  rw [ranked, mem_sortedBy, mem_kept_iff]

theorem nodup_ranked (l : List α) : (ranked cls rank l).Nodup :=
  (ranked_perm l).nodup_iff.mpr (nodup_kept l)

theorem nodup_map_ranked (l : List α) : ((ranked cls rank l).map cls).Nodup := by
  have hkeys : ((best cls rank l).map Prod.fst).Nodup := nodup_keys_best l
  rw [← map_cls_kept] at hkeys
  exact ((ranked_perm l).map cls).nodup_iff.mpr hkeys

theorem pairwise_rank_ranked (l : List α) : (ranked cls rank l).Pairwise (rank · ≤ rank ·) :=
  pairwise_sortedBy rank _

omit [DecidableEq κ] [LinearOrder ρ] in
/-- Of two members of a list one stands before the other. -/
theorem pair_sublist_or (ha : a ∈ l) (hb : b ∈ l) (hne : a ≠ b) :
    [a, b].Sublist l ∨ [b, a].Sublist l := by
  induction l with
  | nil => exact nomatch ha
  | cons c l ih =>
    rcases List.mem_cons.mp ha with rfl | hal
    · have hbl := (List.mem_cons.mp hb).resolve_left hne.symm
      exact .inl (List.Sublist.cons_cons _ (List.singleton_sublist.mpr hbl))
    · rcases List.mem_cons.mp hb with rfl | hbl
      · exact .inr (List.Sublist.cons_cons _ (List.singleton_sublist.mpr hal))
      · exact (ih hal hbl).imp (List.Sublist.cons c) (List.Sublist.cons c)

omit [DecidableEq κ] [LinearOrder ρ] in
theorem not_pair_sublist (hl : l.Nodup) (h : [a, b].Sublist l) : ¬[b, a].Sublist l := by
  intro h'
  induction l with
  | nil => exact nomatch h
  | cons c l ih =>
    obtain ⟨hnew, hl⟩ := List.nodup_cons.mp hl
    rcases List.sublist_cons_iff.mp h with hrest | ⟨r, hr, hsub⟩
    · rcases List.sublist_cons_iff.mp h' with hrest' | ⟨r, hr, -⟩
      · exact ih hl hrest hrest'
      · obtain ⟨rfl, -⟩ := List.cons.inj hr
        exact hnew (hrest.subset (List.mem_cons_of_mem _ List.mem_cons_self))
    · obtain ⟨rfl, rfl⟩ := List.cons.inj hr
      rcases List.sublist_cons_iff.mp h' with hrest' | ⟨r, hr, -⟩
      · exact hnew (hrest'.subset (List.mem_cons_of_mem _ List.mem_cons_self))
      · obtain ⟨rfl, -⟩ := List.cons.inj hr
        exact hnew (hsub.subset List.mem_cons_self)

/-- **The order of the rows**: by rank, and then by which class was met first. -/
theorem pairwise_ranked (l : List α) : (ranked cls rank l).Pairwise fun a b =>
    rank a < rank b ∨ rank a = rank b ∧ MetFirst cls l (cls a) (cls b) := by
  refine List.pairwise_iff_forall_sublist.mpr fun {a b} hab => ?_
  have hle := List.pairwise_iff_forall_sublist.mp (pairwise_rank_ranked l) hab
  refine hle.lt_or_eq.imp_right fun heq => ⟨heq, ?_⟩
  have ha := (ranked_perm l).subset (hab.subset List.mem_cons_self)
  have hb := (ranked_perm l).subset (hab.subset (List.mem_cons_of_mem _ List.mem_cons_self))
  have hne : a ≠ b := by
    have hpair := (nodup_ranked l).sublist hab
    exact fun h => (List.nodup_cons.mp hpair).1 (h ▸ List.mem_singleton_self _)
  rcases pair_sublist_or ha hb hne with h | h
  · exact List.pairwise_iff_forall_sublist.mp (pairwise_kept l) h
  · -- The sort is stable, so `b` would stand before `a`.
    have hsorted : [b, a].Sublist (ranked cls rank l) :=
      List.pair_sublist_insertionSort heq.ge h
    exact absurd hsorted (not_pair_sublist (nodup_ranked l) hab)

/-! ## 3.  Whether the order of the input matters -/

/-- The blocks agree on every tie that the front does not decide: on which of the best rows of a
class comes first, and on which of two classes with one best rank is met first. -/
structure Settled (cls : α → κ) (rank : α → ρ) (front : List α) (blocks : List (List α)) :
    Prop where
  wording : ∀ a, Best cls rank (front ++ blocks.flatten) a →
    front.find? (fun c => decide (cls c = cls a ∧ rank c = rank a)) = none →
    ∀ p ∈ blocks, ∀ q ∈ blocks, ∀ x y,
      p.find? (fun c => decide (cls c = cls a ∧ rank c = rank a)) = some x →
      q.find? (fun c => decide (cls c = cls a ∧ rank c = rank a)) = some y → x = y
  order : ∀ a b, Best cls rank (front ++ blocks.flatten) a →
    Best cls rank (front ++ blocks.flatten) b → rank a = rank b →
    front.find? (fun c => decide (cls c = cls a ∨ cls c = cls b)) = none →
    ∀ p ∈ blocks, ∀ q ∈ blocks, ∀ x y,
      p.find? (fun c => decide (cls c = cls a ∨ cls c = cls b)) = some x →
      q.find? (fun c => decide (cls c = cls a ∨ cls c = cls b)) = some y → cls x = cls y

section Blocks

variable {front : List α} {blocks blocks' : List (List α)}

omit [DecidableEq κ] [LinearOrder ρ] in
/-- What is found first, in the front or in a block. -/
theorem find?_blocks (P : α → Bool) : (front ++ blocks.flatten).find? P =
    (front.find? P).or (blocks.findSome? fun p => p.find? P) := by
  rw [List.find?_append, List.find?_flatten]

omit [DecidableEq κ] [LinearOrder ρ] in
theorem mem_blocks_perm (hperm : blocks'.Perm blocks) {c : α} :
    c ∈ front ++ blocks'.flatten ↔ c ∈ front ++ blocks.flatten :=
  (hperm.flatten.append_left front).mem_iff

omit [DecidableEq κ] [LinearOrder ρ] in
/-- Where the blocks agree on what is found first, their order does not matter. -/
theorem find?_blocks_perm {β : Type} {P : α → Bool} {g : α → β} (hperm : blocks'.Perm blocks)
    (hagree : front.find? P = none → ∀ p ∈ blocks, ∀ q ∈ blocks, ∀ x y,
      p.find? P = some x → q.find? P = some y → g x = g y) :
    ((front ++ blocks'.flatten).find? P).map g = ((front ++ blocks.flatten).find? P).map g := by
  rw [find?_blocks, find?_blocks]
  cases hfront : front.find? P with
  | some z => rfl
  | none =>
    rw [Option.none_or, Option.none_or]
    cases hsome : blocks.findSome? fun p => p.find? P with
    | none =>
      have hnone : (blocks'.findSome? fun p => p.find? P) = none := by
        rw [List.findSome?_eq_none_iff] at hsome ⊢
        exact fun p hp => hsome p (hperm.subset hp)
      rw [hnone]
    | some x =>
      obtain ⟨p, hp, hx⟩ := List.exists_of_findSome?_eq_some hsome
      cases hsome' : blocks'.findSome? fun p => p.find? P with
      | none =>
        rw [List.findSome?_eq_none_iff] at hsome'
        rw [hsome' p (hperm.symm.subset hp)] at hx
        exact nomatch hx
      | some y =>
        obtain ⟨q, hq, hy⟩ := List.exists_of_findSome?_eq_some hsome'
        exact congrArg some (hagree hfront q (hperm.subset hq) p hp y x hy hx)

theorem Settled.best (h : Settled cls rank front blocks) (hperm : blocks'.Perm blocks)
    (ha : Best cls rank (front ++ blocks.flatten) a) :
    Best cls rank (front ++ blocks'.flatten) a := by
  refine ⟨fun b hb => ha.le b ((mem_blocks_perm hperm).mp hb), ?_⟩
  have hsame := find?_blocks_perm (g := id) hperm (h.wording a ha)
  rw [Option.map_id, id, id, ha.first] at hsame
  exact hsame

theorem Settled.metFirst (h : Settled cls rank front blocks) (hperm : blocks'.Perm blocks)
    (ha : Best cls rank (front ++ blocks.flatten) a)
    (hb : Best cls rank (front ++ blocks.flatten) b) (heq : rank a = rank b)
    (hmet : MetFirst cls (front ++ blocks.flatten) (cls a) (cls b)) :
    MetFirst cls (front ++ blocks'.flatten) (cls a) (cls b) := by
  obtain ⟨x, hx, hcls⟩ := hmet
  have hsame := find?_blocks_perm (g := cls) hperm (h.order a b ha hb heq)
  rw [hx, Option.map_some, Option.map_eq_some_iff] at hsame
  obtain ⟨y, hy, hycls⟩ := hsame
  exact ⟨y, hy, hycls.trans hcls⟩

theorem exists_perm_first {p : List α} (hp : p ∈ blocks) : ∃ rest, (p :: rest).Perm blocks := by
  obtain ⟨s, t, rfl⟩ := List.mem_iff_append.mp hp
  exact ⟨s ++ t, List.perm_middle.symm⟩

theorem find?_first {p : List α} {rest : List (List α)} {P : α → Bool} {x : α}
    (hfront : front.find? P = none) (hp : p.find? P = some x) :
    (front ++ (p :: rest).flatten).find? P = some x := by
  rw [List.find?_append, hfront, Option.none_or, List.flatten_cons, List.find?_append, hp,
    Option.some_or]

/-- **The result is the same for every order of the blocks** exactly if they agree on the ties. -/
theorem ranked_perm_iff : (∀ blocks' : List (List α), blocks'.Perm blocks →
      ranked cls rank (front ++ blocks'.flatten) = ranked cls rank (front ++ blocks.flatten)) ↔
    Settled cls rank front blocks := by
  constructor
  · intro hsame
    refine ⟨fun a ha hfront p hp q hq x y hx hy => ?_,
      fun a b ha hb heq hfront p hp q hq x y hx hy => ?_⟩
    · -- A block that comes first has its row kept.
      have hkept : ∀ p ∈ blocks, ∀ x,
          p.find? (fun c => decide (cls c = cls a ∧ rank c = rank a)) = some x →
          cls x = cls a ∧ Best cls rank (front ++ blocks.flatten) x := by
        intro p hp x hx
        obtain ⟨rest, hperm⟩ := exists_perm_first hp
        have hpass : cls x = cls a ∧ rank x = rank a := by simpa using List.find?_some hx
        refine ⟨hpass.1, ?_⟩
        rw [← mem_ranked_iff, ← hsame _ hperm, mem_ranked_iff]
        refine ⟨fun c hc hcls => ?_, ?_⟩
        · rw [hpass.2]
          exact ha.le c ((mem_blocks_perm hperm).mp hc) (hcls.trans hpass.1)
        · rw [hpass.1, hpass.2]
          exact find?_first hfront hx
      obtain ⟨hxcls, hxbest⟩ := hkept p hp x hx
      obtain ⟨hycls, hybest⟩ := hkept q hq y hy
      exact hxbest.unique hybest (hxcls.trans hycls.symm)
    · by_cases hcls : cls a = cls b
      · rw [hcls] at hx hy
        have hpass : cls x = cls b := by simpa using List.find?_some hx
        have hpass' : cls y = cls b := by simpa using List.find?_some hy
        exact hpass.trans hpass'.symm
      · -- The result has one of the two rows first, and so has every block that comes first.
        have hmet : ∀ a b, rank a = rank b →
            [a, b].Sublist (ranked cls rank (front ++ blocks.flatten)) →
            front.find? (fun c => decide (cls c = cls a ∨ cls c = cls b)) = none →
            ∀ p ∈ blocks, ∀ x,
              p.find? (fun c => decide (cls c = cls a ∨ cls c = cls b)) = some x →
              cls x = cls a := by
          intro a b heq hsub hfront p hp x hx
          obtain ⟨rest, hperm⟩ := exists_perm_first hp
          rw [← hsame _ hperm] at hsub
          have hpair := List.pairwise_iff_forall_sublist.mp (pairwise_ranked _) hsub
          obtain ⟨-, z, hz, hzcls⟩ := hpair.resolve_left heq.not_lt
          rw [find?_first hfront hx] at hz
          rw [Option.some.inj hz]
          exact hzcls
        have hne : a ≠ b := fun h => hcls (congrArg cls h)
        rcases pair_sublist_or (mem_ranked_iff.mpr ha) (mem_ranked_iff.mpr hb) hne with h | h
        · rw [hmet a b heq h hfront p hp x hx, hmet a b heq h hfront q hq y hy]
        · have hswap : (fun c => decide (cls c = cls a ∨ cls c = cls b)) =
              fun c => decide (cls c = cls b ∨ cls c = cls a) :=
            funext fun c => decide_eq_decide.mpr or_comm
          rw [hswap] at hfront hx hy
          rw [hmet b a heq.symm h hfront p hp x hx, hmet b a heq.symm h hfront q hq y hy]
  · intro h blocks' hperm
    have hmem : ∀ c, c ∈ ranked cls rank (front ++ blocks'.flatten) ↔
        c ∈ ranked cls rank (front ++ blocks.flatten) := by
      intro c
      rw [mem_ranked_iff, mem_ranked_iff]
      refine ⟨fun hc => ?_, h.best hperm⟩
      obtain ⟨b, hb, hcls⟩ : ∃ b, Best cls rank (front ++ blocks.flatten) b ∧ cls b = cls c :=
        exists_best ((mem_blocks_perm hperm).mp hc.mem)
      rwa [← (h.best hperm hb).unique hc hcls]
    refine ((List.perm_ext_iff_of_nodup (nodup_ranked _) (nodup_ranked _)).mpr hmem).eq_of_pairwise
      ?_ (pairwise_ranked _) ((pairwise_ranked _).imp_of_mem fun {a b} ha hb hab => ?_)
    · intro a b ha hb hab hba
      rcases hab with hlt | ⟨heq, hmet⟩
      · rcases hba with hlt' | ⟨heq', -⟩
        · exact absurd hlt' (lt_asymm hlt)
        · exact absurd heq' hlt.ne'
      · have hmet' := (hba.resolve_left heq.not_gt).2
        have hbesta : Best cls rank (front ++ blocks'.flatten) a := mem_ranked_iff.mp ha
        exact hbesta.unique (mem_ranked_iff.mp ((hmem b).mpr hb)) (hmet.eq_of_swap hmet')
    · have hbesta : Best cls rank (front ++ blocks.flatten) a := mem_ranked_iff.mp ha
      have hbestb : Best cls rank (front ++ blocks.flatten) b := mem_ranked_iff.mp hb
      exact hab.imp_right fun hmet => ⟨hmet.1, h.metFirst hperm hbesta hbestb hmet.1 hmet.2⟩

end Blocks

end Kroker.Ranking
