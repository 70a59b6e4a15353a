import Kroker.Library.Tally
import Kroker.Merge.Scoping
import Mathlib.Data.Prod.Lex

/-!
# The diff-scoped delta

`delta` of `change_scope.py` compares the findings at the base of a change with those at its head.
A finding is known by a key, in which the line number does not occur; the paths of the base are
taken through the renames of the change first, so several findings of either side may have one key.

The items are of any type, and `repr` is what they are sorted by under one key.  The keys are the
tuples of the source; they are counted and grouped by `Tally`.
-/

namespace Kroker.ChangeScope

/-! ## 1.  The delta -/

/-- `FindingKey`: a tuple, whose parts are compared from the first to the last. -/
structure FindingKey where
  tool : String
  rule : String
  path : String
  line : String
  deriving DecidableEq

/-- The order of tuples. -/
def FindingKey.rank (k : FindingKey) : String ×ₗ String ×ₗ String ×ₗ String :=
  toLex (k.tool, toLex (k.rule, toLex (k.path, k.line)))

/-- `rename_map` gives one. -/
abbrev RenameMap := Table (Prod.fst : String × String → String)

/-- `renames.get(path, path)`. -/
def RenameMap.apply (renames : RenameMap) (path : String) : String :=
  match renames.find? path with
  | some r => r.2
  | none => path

structure Delta (T : Type) where
  introduced : List T
  preexisting : ℕ
  resolved : ℕ

section Code

variable {T : Type} (base head : List T) (key : T → FindingKey) (repr : T → String)
  (renames : RenameMap)

def baseKey (item : T) : FindingKey := { key item with path := renames.apply (key item).path }

def baseCounts : List (FindingKey × ℕ) := tally (base.map (baseKey key renames))

def byKey : List (FindingKey × List T) := group key head

/-- `by_key[k]`, which is there for every key of the loop. -/
def itemsOf (k : FindingKey) : List T := (Members.get? (byKey head key) k).getD []

/-- How many items under a key are not new. -/
def kept (k : FindingKey) : ℕ :=
  min (itemsOf head key k).length ((Members.get? (baseCounts base key renames) k).getD 0)

/-- What one turn of the loop adds to `introduced` and to `preexisting`. -/
def scopeKey (acc : List T × ℕ) (k : FindingKey) : List T × ℕ :=
  (acc.1 ++ (sortedBy repr (itemsOf head key k)).drop (kept base head key renames k),
    acc.2 + kept base head key renames k)

def keys : List FindingKey := sortedBy FindingKey.rank ((byKey head key).map Prod.fst)

def delta : Delta T :=
  let acc := (keys head key).foldl (scopeKey base head key repr renames) ([], 0)
  { introduced := acc.1
    preexisting := acc.2
    resolved := ((baseCounts base key renames).map fun m =>
      m.2 - (itemsOf head key m.1).length).sum }

end Code

/-! ## 2.  What the loop comes to -/

section Loop

variable {T : Type} {base head : List T} {key : T → FindingKey} {repr : T → String}
  {renames : RenameMap}

theorem itemsOf_eq (k : FindingKey) : itemsOf head key k = head.filter (key · = k) :=
  getD_group key head k

theorem length_itemsOf (k : FindingKey) :
    (itemsOf head key k).length = (head.map key : Multiset FindingKey).count k := by
  rw [itemsOf_eq, Multiset.coe_count, List.count, List.countP_map, List.countP_eq_length_filter]
  rfl

theorem kept_eq (k : FindingKey) : kept base head key renames k =
    min ((head.map key : Multiset FindingKey).count k)
      ((base.map (baseKey key renames) : Multiset FindingKey).count k) := by
  rw [kept, length_itemsOf, baseCounts, getD_tally, Multiset.coe_count]
  rw [Multiset.coe_count]

theorem mem_keys {k : FindingKey} : k ∈ keys head key ↔ k ∈ head.map key := by
  rw [keys, mem_sortedBy, byKey, group, mem_keys_gather]

theorem nodup_keys : (keys head key).Nodup :=
  ((sortedBy_perm FindingKey.rank _).nodup_iff).mpr (by rw [byKey, group]; exact nodup_gather head)

theorem foldl_scopeKey (ks : List FindingKey) (acc : List T × ℕ) :
    ks.foldl (scopeKey base head key repr renames) acc =
      (acc.1 ++ ks.flatMap fun k =>
          (sortedBy repr (itemsOf head key k)).drop (kept base head key renames k),
        acc.2 + (ks.map (kept base head key renames)).sum) := by
  induction ks generalizing acc with
  | nil => simp
  | cons k ks ih =>
    rw [List.foldl_cons, ih, scopeKey, List.flatMap_cons, List.map_cons, List.sum_cons,
      List.append_assoc, Nat.add_assoc]

theorem introduced_eq : (delta base head key repr renames).introduced =
    (keys head key).flatMap fun k =>
      (sortedBy repr (itemsOf head key k)).drop (kept base head key renames k) := by
  rw [delta, foldl_scopeKey, List.nil_append]

/-- **What is preexisting** is the common part of the two multisets of keys. -/
theorem preexisting_eq : (delta base head key repr renames).preexisting =
    ((head.map key : Multiset FindingKey) ∩
      (base.map (baseKey key renames) : Multiset FindingKey)).card := by
  rw [delta, foldl_scopeKey, Nat.zero_add,
    ← card_inter_eq nodup_keys fun k hk => mem_keys.mpr (Multiset.mem_coe.mp hk)]
  exact congrArg List.sum (List.map_congr_left fun k _ => kept_eq k)

/-- **What is resolved** is what the base has more of. -/
theorem resolved_eq : (delta base head key repr renames).resolved =
    ((base.map (baseKey key renames) : Multiset FindingKey) -
      (head.map key : Multiset FindingKey)).card := by
  have hall : ∀ k ∈ (base.map (baseKey key renames) : Multiset FindingKey),
      k ∈ (baseCounts base key renames).map Prod.fst := by
    intro k hk
    rw [baseCounts, tally, mem_keys_gather, List.map_id]
    exact Multiset.mem_coe.mp hk
  have hnodup : ((baseCounts base key renames).map Prod.fst).Nodup := by
    rw [baseCounts, tally]
    exact nodup_gather _
  rw [delta, ← card_sub_eq hnodup hall, List.map_map]
  refine congrArg List.sum (List.map_congr_left fun m hm => ?_)
  rw [length_itemsOf, eq_count_of_mem_tally hm, Function.comp_apply]
  simp only [Multiset.coe_count]

theorem map_introduced : (delta base head key repr renames).introduced.map key =
    (keys head key).flatMap fun k => List.replicate ((head.map key : Multiset FindingKey).count k -
      (base.map (baseKey key renames) : Multiset FindingKey).count k) k := by
  rw [introduced_eq, List.map_flatMap]
  refine List.flatMap_congr fun k _ => ?_
  rw [List.eq_replicate_iff, List.length_map, List.length_drop, (sortedBy_perm _ _).length_eq,
    length_itemsOf, kept_eq]
  refine ⟨by omega, fun k' hk' => ?_⟩
  obtain ⟨item, hitem, rfl⟩ := List.mem_map.mp hk'
  have hmem := mem_sortedBy.mp (List.mem_of_mem_drop hitem)
  rw [itemsOf_eq] at hmem
  exact of_decide_eq_true (List.mem_filter.mp hmem).2

/-- **The keys of what is introduced** are what the head has more of. -/
theorem introduced_keys : ((delta base head key repr renames).introduced.map key :
      Multiset FindingKey) = (head.map key : Multiset FindingKey) -
        (base.map (baseKey key renames) : Multiset FindingKey) := by
  ext k
  rw [map_introduced, Multiset.coe_count, count_flatMap_replicate nodup_keys, Multiset.count_sub]
  split_ifs with hk
  · rfl
  · have hnone : (head.map key : Multiset FindingKey).count k = 0 := by
      rw [Multiset.count_eq_zero, Multiset.mem_coe, ← mem_keys]
      exact hk
    rw [hnone, Nat.zero_sub]

theorem introduced_subperm : (delta base head key repr renames).introduced.Subperm head := by
  have hgroups : ((keys head key).flatMap fun k => sortedBy repr (itemsOf head key k)).Perm
      head := by
    have hall : head.filter (key · ∈ keys head key) = head :=
      List.filter_eq_self.mpr fun item hitem =>
        decide_eq_true (mem_keys.mpr (List.mem_map_of_mem hitem))
    have hvisited : ((keys head key).flatMap fun k => head.filter (key · = k)).Perm
        (head.filter (key · ∈ keys head key)) := flatMap_filter_perm nodup_keys head
    refine (List.Perm.flatMap_left _ fun k _ => ?_).trans (hvisited.trans (.of_eq hall))
    rw [← itemsOf_eq]
    exact sortedBy_perm _ _
  rw [introduced_eq]
  refine List.Subperm.trans (List.Sublist.subperm ?_) hgroups.subperm
  exact List.Sublist.flatMap_right _ fun k _ => List.drop_sublist _ _

end Loop

/-! ## 3.  Both sides are accounted for -/

/-- **The delta is a two-sided multiset difference.** -/
theorem delta_two_sided {T : Type} (base head : List T) (key : T → FindingKey) (repr : T → String)
    (renames : RenameMap) :
    let d := delta base head key repr renames
    d.introduced.length + d.preexisting = head.length ∧
    d.preexisting + d.resolved = base.length ∧
    (∀ k, (d.introduced.map key).count k =
      (head.map key).count k - (base.map (baseKey key renames)).count k) ∧
    d.introduced.Subperm head ∧
    ∀ base' head', base'.Perm base → head'.Perm head →
      ((delta base' head' key repr renames).introduced.map key).Perm (d.introduced.map key) := by
  have hkeys : ∀ base head : List T,
      ((delta base head key repr renames).introduced.map key : Multiset FindingKey) =
        (head.map key : Multiset FindingKey) -
          (base.map (baseKey key renames) : Multiset FindingKey) := fun _ _ => introduced_keys
  have hlength := congrArg Multiset.card (hkeys base head)
  rw [Multiset.coe_card, List.length_map] at hlength
  dsimp only
  refine ⟨?_, ?_, fun k => ?_, introduced_subperm, fun base' head' hbase hhead => ?_⟩
  · rw [hlength, preexisting_eq, ← Multiset.card_add, Multiset.sub_add_inter, Multiset.coe_card,
      List.length_map]
  · rw [preexisting_eq, resolved_eq, Multiset.inter_comm, Nat.add_comm, ← Multiset.card_add,
      Multiset.sub_add_inter, Multiset.coe_card, List.length_map]
  · have hcount := congrArg (Multiset.count k) (hkeys base head)
    simpa only [Multiset.count_sub, Multiset.coe_count] using hcount
  · refine Multiset.coe_eq_coe.mp ?_
    rw [hkeys, hkeys, Multiset.coe_eq_coe.mpr (hhead.map key),
      Multiset.coe_eq_coe.mpr (hbase.map (baseKey key renames))]

end Kroker.ChangeScope
