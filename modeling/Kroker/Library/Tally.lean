import Kroker.Library.Keyed
import Kroker.Library.Members
import Mathlib

/-!
# Counting by a key

A pass over a list that keeps, for each key met, the rows that have it or how many there are.

* `getD_group`, `getD_tally` --- what is kept under a key: the rows of the list that have it, in
  order, and their number;
* `nodup_gather` --- no key is kept twice, so a sum over what is kept is a sum over the keys
  (`sum_count_of_nodup`);
* `flatMap_filter_perm`, `count_flatMap_replicate` --- what a loop over the keys visits.
-/

namespace Kroker

variable {α κ : Type} [DecidableEq κ]

/-! ## 1.  What is kept -/

/-- A pass that keeps one value a key: `d[k] = put(d.get(k, empty), x)`. -/
def gather {β : Type} (key : α → κ) (put : β → α → β) (empty : β) (l : List α) : List (κ × β) :=
  l.foldl (fun ms a => Members.set ms (key a) (put ((Members.get? ms (key a)).getD empty) a)) []

/-- `groups.setdefault(key(x), []).append(x)`, for each `x` in the list. -/
def group (key : α → κ) (l : List α) : List (κ × List α) := gather key (fun xs a => xs ++ [a]) [] l

/-- `Counter(l)`. -/
def tally (l : List κ) : List (κ × ℕ) := gather id (fun n _ => n + 1) 0 l

section Gather

variable {β : Type} {key : α → κ} {put : β → α → β} {empty : β}

theorem gather_append_singleton (l : List α) (a : α) :
    gather key put empty (l ++ [a]) = Members.set (gather key put empty l) (key a)
      (put ((Members.get? (gather key put empty l) (key a)).getD empty) a) := by
  rw [gather, List.foldl_append, List.foldl_cons, List.foldl_nil, ← gather]

/-- **What is kept under a key** is what the rows with this key come to. -/
theorem getD_gather (l : List α) (k : κ) :
    (Members.get? (gather key put empty l) k).getD empty =
      (l.filter (key · = k)).foldl put empty := by
  induction l using List.reverseRecOn with
  | nil => rfl
  | append_singleton l a ih =>
    rw [gather_append_singleton, Members.get?_set, List.filter_append]
    by_cases hk : key a = k
    · rw [if_pos hk, Option.getD_some, hk, ih, List.filter_cons_of_pos (by simpa using hk),
        List.filter_nil, List.foldl_append, List.foldl_cons, List.foldl_nil]
    · rw [if_neg hk, ih, List.filter_cons_of_neg (by simpa using hk), List.filter_nil,
        List.append_nil]

theorem mem_keys_gather {l : List α} {k : κ} :
    k ∈ (gather key put empty l).map Prod.fst ↔ k ∈ l.map key := by
  induction l using List.reverseRecOn with
  | nil => rfl
  | append_singleton l a ih =>
    rw [gather_append_singleton, Members.keys_set, List.map_append, List.mem_append, ← ih]
    split_ifs with hmem
    · refine ⟨.inl, fun h => h.elim id fun h => ?_⟩
      rw [List.mem_singleton.mp h]
      exact hmem
    · rw [List.mem_append]
      rfl

theorem keys_gather (l : List α) :
    (gather key put empty l).map Prod.fst = firstBy id (l.map key) := by
  induction l using List.reverseRecOn with
  | nil => rfl
  | append_singleton l a ih =>
    rw [gather_append_singleton, Members.keys_set, if_congr mem_keys_gather rfl rfl, ih,
      List.map_append, List.map_singleton, firstBy, firstBy, firstFrom_append_singleton, List.map_id]
    simp only [List.not_mem_nil, false_or, id_eq]
    split
    · exact (List.append_nil _).symm
    · rfl

theorem nodup_gather (l : List α) : ((gather key put empty l).map Prod.fst).Nodup := by
  induction l using List.reverseRecOn with
  | nil => exact List.nodup_nil
  | append_singleton l a ih =>
    rw [gather_append_singleton]
    exact Members.nodup_set ih _ _

/-- **What the pass keeps**: a member for each key, in the order in which they were first met. -/
theorem gather_eq (l : List α) :
    gather key put empty l = (firstBy id (l.map key)).map fun k =>
      (k, (l.filter (key · = k)).foldl put empty) := by
  have hkeys : (gather key put empty l).map Prod.fst = firstBy id (l.map key) := keys_gather l
  rw [← hkeys, List.map_map]
  refine (List.map_id _).symm.trans (List.map_congr_left fun m hm => ?_)
  rw [Function.comp_apply, ← getD_gather, Members.get?_eq_some_of_mem (nodup_gather l) hm]
  rfl

end Gather

theorem foldl_append_singleton (l : List α) : l.foldl (fun xs a => xs ++ [a]) [] = l := by
  induction l using List.reverseRecOn with
  | nil => rfl
  | append_singleton l a ih => rw [List.foldl_append, ih, List.foldl_cons, List.foldl_nil]

theorem getD_group (key : α → κ) (l : List α) (k : κ) :
    (Members.get? (group key l) k).getD [] = l.filter (key · = k) := by
  rw [group, getD_gather, foldl_append_singleton]

theorem get?_group (key : α → κ) (l : List α) (k : κ) : Members.get? (group key l) k =
    if k ∈ l.map key then some (l.filter (key · = k)) else none := by
  have hmem : k ∈ (group key l).map Prod.fst ↔ k ∈ l.map key := mem_keys_gather
  split_ifs with hk
  · cases hget : Members.get? (group key l) k with
    | none => exact absurd (hmem.mpr hk) (Members.get?_eq_none_iff.mp hget)
    | some rows => rw [← getD_group, hget, Option.getD_some]
  · exact Members.get?_eq_none_iff.mpr fun h => hk (hmem.mp h)

theorem group_eq (key : α → κ) (l : List α) :
    group key l = (firstBy id (l.map key)).map fun k => (k, l.filter (key · = k)) := by
  refine (gather_eq l).trans (List.map_congr_left fun k _ => ?_)
  rw [foldl_append_singleton]

theorem getD_tally (l : List κ) (k : κ) : (Members.get? (tally l) k).getD 0 = l.count k := by
  rw [tally, getD_gather, List.count_eq_length_filter]
  have hlength : ∀ rows : List κ, rows.foldl (fun n _ => n + 1) 0 = rows.length := by
    intro rows
    induction rows using List.reverseRecOn with
    | nil => rfl
    | append_singleton rows a ih =>
      rw [List.foldl_append, ih, List.foldl_cons, List.foldl_nil, List.length_append]
      rfl
  rw [hlength]
  rfl

theorem eq_count_of_mem_tally {l : List κ} {m : κ × ℕ} (h : m ∈ tally l) : m.2 = l.count m.1 := by
  have hget : Members.get? (tally l) m.1 = some m.2 :=
    Members.get?_eq_some_of_mem (nodup_gather l) h
  rw [← getD_tally, hget, Option.getD_some]

/-! ## 2.  Sums over what is kept -/

variable {keys : List κ}

theorem sum_count_of_nodup (hkeys : keys.Nodup) {s : Multiset κ} (hall : ∀ k ∈ s, k ∈ keys) :
    (keys.map s.count).sum = s.card := by
  rw [← List.sum_toFinset _ hkeys]
  exact Multiset.sum_count_eq_card fun k hk => List.mem_toFinset.mpr (hall k hk)

/-- **The common part**, counted over the keys of one side. -/
theorem card_inter_eq (hkeys : keys.Nodup) {s t : Multiset κ} (hall : ∀ k ∈ s, k ∈ keys) :
    (keys.map fun k => min (s.count k) (t.count k)).sum = (s ∩ t).card := by
  rw [← sum_count_of_nodup hkeys fun k hk => hall k (Multiset.mem_inter.mp hk).1]
  simp only [Multiset.count_inter]

/-- **The difference**, counted over the keys of the side that is diminished. -/
theorem card_sub_eq (hkeys : keys.Nodup) {s t : Multiset κ} (hall : ∀ k ∈ s, k ∈ keys) :
    (keys.map fun k => s.count k - t.count k).sum = (s - t).card := by
  have hpart : ∀ k ∈ s - t, k ∈ keys :=
    fun k hk => hall k (Multiset.mem_of_le (Multiset.sub_le_self s t) hk)
  rw [← sum_count_of_nodup hkeys hpart]
  simp only [Multiset.count_sub]

/-! ## 3.  Going through the keys -/

theorem flatMap_filter_perm {key : α → κ} (hkeys : keys.Nodup) (l : List α) :
    (keys.flatMap fun k => l.filter (key · = k)).Perm (l.filter (key · ∈ keys)) := by
  induction keys with
  | nil => simp
  | cons k keys ih =>
    obtain ⟨hnew, hrest⟩ := List.nodup_cons.mp hkeys
    rw [List.flatMap_cons]
    have hfirst : l.filter (key · = k) =
        (l.filter (key · ∈ k :: keys)).filter (key · = k) := by
      rw [List.filter_filter]
      exact List.filter_congr fun a _ => by by_cases hk : key a = k <;> simp [hk]
    have hothers : l.filter (key · ∈ keys) =
        (l.filter (key · ∈ k :: keys)).filter (fun a => !decide (key a = k)) := by
      rw [List.filter_filter]
      refine List.filter_congr fun a _ => ?_
      by_cases hk : key a = k
      · simp [hk, hnew]
      · simp [hk]
    refine ((ih hrest).append_left _).trans ?_
    rw [hfirst, hothers]
    exact List.filter_append_perm _ _

theorem count_flatMap_replicate (hkeys : keys.Nodup) (f : κ → ℕ) (k : κ) :
    (keys.flatMap fun k => List.replicate (f k) k).count k = if k ∈ keys then f k else 0 := by
  induction keys with
  | nil => simp
  | cons a keys ih =>
    obtain ⟨hnew, hrest⟩ := List.nodup_cons.mp hkeys
    rw [List.flatMap_cons, List.count_append, ih hrest, List.count_replicate]
    by_cases hk : a = k
    · subst hk
      simp [hnew]
    · simp [hk, Ne.symm hk]

end Kroker
