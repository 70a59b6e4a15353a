import Kroker.Library.Bounded
import Mathlib.Data.String.Basic
import Mathlib.Data.List.Sort

/-!
# Dictionaries and sets with string keys

A Python `dict[str, β]` that is normalised by sorting its items is a finite map, and two such
dictionaries are equal exactly when they hold the same value under every key.  `Std.ExtTreeMap`
is that map: extensional, computable, with its keys listed in increasing order.  `StrSet` is the
same for `tuple(sorted(set(...)))`.

The lemmas here restate the lookups of `Std` with `=` on keys in place of `compare`, which is the
form the proofs of this development rewrite with.
-/

namespace Kroker

/-- A finite map with string keys, listed in increasing order of its keys. -/
abbrev Dict (β : Type) := Std.ExtTreeMap String β

/-- A finite set of strings, listed in increasing order. -/
abbrev StrSet := Std.ExtTreeSet String

def sortedSet (items : List String) : List String := ((∅ : StrSet).insertMany items).toList

namespace Dict

variable {β : Type}

/-- The dictionary of a list of items; of two items with one key the later wins. -/
def ofItems (items : List (String × β)) : Dict β :=
  items.foldl (fun d i => d.insert i.1 i.2) ∅

variable (d : Dict β)

theorem get?_insert (k a : String) (v : β) :
    (d.insert k v)[a]? = if k = a then some v else d[a]? := by
  rw [Std.ExtTreeMap.getElem?_insert]
  simp only [Std.LawfulEqCmp.compare_eq_iff_eq]

theorem get?_insert_self (k : String) (v : β) : (d.insert k v)[k]? = some v := by
  rw [get?_insert, if_pos rfl]

theorem get?_insert_of_ne {k a : String} (v : β) (h : k ≠ a) :
    (d.insert k v)[a]? = d[a]? := by
  rw [get?_insert, if_neg h]

theorem get?_erase (k a : String) :
    (d.erase k)[a]? = if k = a then none else d[a]? := by
  rw [Std.ExtTreeMap.getElem?_erase]
  simp only [Std.LawfulEqCmp.compare_eq_iff_eq]

theorem get?_filter (f : String → β → Bool) (a : String) :
    (d.filter f)[a]? = d[a]?.filter (f a) :=
  Std.ExtTreeMap.getElem?_filter'

theorem get?_empty (a : String) : (∅ : Dict β)[a]? = none :=
  Std.ExtTreeMap.getElem?_empty

theorem mem_iff_get? (a : String) : a ∈ d ↔ ∃ v, d[a]? = some v := by
  rw [Std.ExtTreeMap.mem_iff_isSome_getElem?, Option.isSome_iff_exists]

theorem notMem_iff_get? (a : String) : a ∉ d ↔ d[a]? = none := by
  rw [mem_iff_get?]
  cases d[a]? <;> simp

theorem mem_insert (k a : String) (v : β) : a ∈ d.insert k v ↔ k = a ∨ a ∈ d := by
  rw [Std.ExtTreeMap.mem_insert, Std.LawfulEqCmp.compare_eq_iff_eq]

theorem getD_eq (a : String) (v : β) : d.getD a v = d[a]?.getD v :=
  Std.ExtTreeMap.getD_eq_getD_getElem?

theorem getD_insert (k a : String) (v w : β) :
    (d.insert k v).getD a w = if k = a then v else d.getD a w := by
  rw [getD_eq, get?_insert, getD_eq]
  split <;> rfl

theorem getD_insert_of_ne {k a : String} (v w : β) (h : k ≠ a) :
    (d.insert k v).getD a w = d.getD a w := by
  rw [getD_insert, if_neg h]

theorem ext {d e : Dict β} (h : ∀ k : String, d[k]? = e[k]?) : d = e :=
  Std.ExtTreeMap.ext_getElem? h

theorem eq_empty_iff : d = ∅ ↔ ∀ k : String, d[k]? = none := by
  constructor
  · rintro rfl k
    exact get?_empty k
  · intro h
    exact ext fun k => by rw [h k, get?_empty]

theorem isEmpty_iff : d.isEmpty = true ↔ ∀ k : String, d[k]? = none := by
  rw [Std.ExtTreeMap.isEmpty_iff, eq_empty_iff]

theorem get?_ofItems (items : List (String × β)) (a : String) :
    (ofItems items)[a]? = (items.reverse.find? (fun i => i.1 = a)).map Prod.snd := by
  suffices h : ∀ d : Dict β, (items.foldl (fun d i => d.insert i.1 i.2) d)[a]? =
      ((items.reverse.find? (fun i => i.1 = a)).map Prod.snd).or d[a]? by
    rw [ofItems, h, get?_empty, Option.or_none]
  induction items with
  | nil => simp
  | cons i items ih =>
    intro d
    rw [List.foldl_cons, ih, List.reverse_cons, List.find?_append, Option.map_or, Option.or_assoc]
    congr 1
    rw [get?_insert]
    by_cases h : i.1 = a <;> simp [h]

theorem get?_ofItems_map {α : Type} (l : List α) (f : α → String × β) (a : String) :
    (ofItems (l.map f))[a]? = (l.reverse.find? fun x => (f x).1 = a).map fun x => (f x).2 := by
  rw [get?_ofItems, ← List.map_reverse, List.find?_map, Option.map_map]
  rfl

theorem mem_of_get?_ofItems {items : List (String × β)} {a : String} {v : β}
    (h : (ofItems items)[a]? = some v) : (a, v) ∈ items := by
  rw [get?_ofItems, Option.map_eq_some_iff] at h
  obtain ⟨i, hi, rfl⟩ := h
  have hkey := List.find?_some hi
  simp only [decide_eq_true_eq] at hkey
  exact hkey ▸ List.mem_reverse.mp (List.mem_of_find?_eq_some hi)

theorem exists_of_get?_ofItems_map {α : Type} {l : List α} {f : α → String × β} {a : String}
    {v : β} (h : (ofItems (l.map f))[a]? = some v) : ∃ x ∈ l, f x = (a, v) :=
  List.mem_map.mp (mem_of_get?_ofItems h)

theorem get?_ofItems_map_of_mem {α : Type} {l : List α} {f : α → String × β} {x : α}
    (hx : x ∈ l) : ∃ v, (ofItems (l.map f))[(f x).1]? = some v := by
  have hsome : (l.reverse.find? fun y => (f y).1 = (f x).1).isSome := by
    rw [List.find?_isSome]
    exact ⟨x, List.mem_reverse.mpr hx, by simp⟩
  obtain ⟨y, hy⟩ := Option.isSome_iff_exists.mp hsome
  exact ⟨(f y).2, by rw [get?_ofItems_map, hy]; rfl⟩

theorem get?_ofItems_of_nodup {items : List (String × β)} (hnodup : (items.map Prod.fst).Nodup)
    (a : String) (v : β) : (ofItems items)[a]? = some v ↔ (a, v) ∈ items := by
  rw [get?_ofItems, Option.map_eq_some_iff]
  constructor
  · rintro ⟨i, hi, rfl⟩
    have hmem := List.mem_reverse.mp (List.mem_of_find?_eq_some hi)
    have hkey := List.find?_some hi
    simp only [decide_eq_true_eq] at hkey
    rw [← hkey]
    exact hmem
  · intro hmem
    obtain ⟨i, hi⟩ : ∃ i, items.reverse.find? (fun i => i.1 = a) = some i := by
      rw [← Option.isSome_iff_exists, List.find?_isSome]
      exact ⟨(a, v), List.mem_reverse.mpr hmem, by simp⟩
    have hi' := List.mem_reverse.mp (List.mem_of_find?_eq_some hi)
    have hkey := List.find?_some hi
    simp only [decide_eq_true_eq] at hkey
    have : i = (a, v) := List.inj_on_of_nodup_map hnodup hi' hmem hkey
    exact ⟨i, hi, by rw [this]⟩

end Dict

namespace StrSet

theorem mem_insertMany (s : StrSet) (l : List String) (a : String) :
    a ∈ s.insertMany l ↔ a ∈ s ∨ a ∈ l := by
  rw [Std.ExtTreeSet.mem_insertMany_list, List.contains_iff_mem]

theorem mem_insert (s : StrSet) (k a : String) : a ∈ s.insert k ↔ k = a ∨ a ∈ s := by
  rw [Std.ExtTreeSet.mem_insert, Std.LawfulEqCmp.compare_eq_iff_eq]

theorem mem_erase (s : StrSet) (k a : String) : a ∈ s.erase k ↔ k ≠ a ∧ a ∈ s := by
  rw [Std.ExtTreeSet.mem_erase, ne_eq, ne_eq, Std.LawfulEqCmp.compare_eq_iff_eq]

theorem ext {s t : StrSet} (h : ∀ k : String, k ∈ s ↔ k ∈ t) : s = t :=
  Std.ExtTreeSet.ext_mem h

end StrSet

/-! ## Sorted lists of texts -/

/-- The list has exactly these texts, in increasing order. -/
def Lists (l : List String) (P : String → Prop) : Prop :=
  l.Pairwise (· < ·) ∧ ∀ x, x ∈ l ↔ P x

theorem Lists.congr {l : List String} {P Q : String → Prop} (h : Lists l P)
    (hiff : ∀ x, P x ↔ Q x) : Lists l Q :=
  ⟨h.1, fun x => (h.2 x).trans (hiff x)⟩

theorem Lists.unique {l l' : List String} {P : String → Prop} (h : Lists l P) (h' : Lists l' P) :
    l = l' := by
  have hnodup : ∀ {m : List String}, m.Pairwise (· < ·) → m.Nodup := fun hm =>
    hm.imp fun hlt => ne_of_lt hlt
  have hperm : l.Perm l' := (List.perm_ext_iff_of_nodup (hnodup h.1) (hnodup h'.1)).mpr
    fun x => (h.2 x).trans (h'.2 x).symm
  exact hperm.eq_of_pairwise (fun a b _ _ hab hba => absurd hab (lt_asymm hba)) h.1 h'.1

theorem lists_keys {β : Type} (d : Dict β) : Lists d.keys (· ∈ d) :=
  ⟨Std.ExtTreeMap.ordered_keys.imp compare_lt_iff_lt.mp, fun _ => Std.ExtTreeMap.mem_keys⟩

theorem lists_toList (s : StrSet) : Lists s.toList (· ∈ s) :=
  ⟨Std.ExtTreeSet.ordered_toList.imp compare_lt_iff_lt.mp, fun _ => Std.ExtTreeSet.mem_toList⟩

theorem lists_sortedSet (items : List String) : Lists (sortedSet items) (· ∈ items) := by
  refine (lists_toList _).congr fun x => ?_
  rw [StrSet.mem_insertMany]
  exact or_iff_right Std.ExtTreeSet.not_mem_empty

theorem mem_sortedSet {items : List String} {x : String} : x ∈ sortedSet items ↔ x ∈ items :=
  (lists_sortedSet items).2 x

end Kroker
