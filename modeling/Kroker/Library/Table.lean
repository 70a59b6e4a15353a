import Mathlib.Algebra.BigOperators.Group.List.Basic
import Mathlib.Data.List.Nodup

/-!
# Tables with a primary key

A table is a list of rows with pairwise distinct keys, in the order of their insertion.  The three
writes are those of SQL: `insertNew` is `INSERT ... ON CONFLICT DO NOTHING`, `modify` is
`UPDATE ... WHERE key = k`, and an upsert is a `modify` followed by an `insertNew`.  `find?` is a
`SELECT` by primary key.

`find?_insertNew` and `find?_modify` say what a write does to every lookup, and are all that the
users of a table need.
-/

namespace Kroker

variable {α κ : Type}

structure Table (key : α → κ) where
  rows : List α
  keys_nodup : (rows.map key).Nodup

namespace Table

variable {key : α → κ}

instance : EmptyCollection (Table key) := ⟨⟨[], List.nodup_nil⟩⟩

@[simp] theorem rows_empty : (∅ : Table key).rows = [] := rfl

variable [DecidableEq κ]

def find? (t : Table key) (k : κ) : Option α := t.rows.find? (key · = k)

variable {t : Table key} {a : α}

theorem find?_eq_some_iff {k : κ} :
    t.find? k = some a ↔ a ∈ t.rows ∧ key a = k := by
  constructor
  · intro h
    refine ⟨List.mem_of_find?_eq_some h, ?_⟩
    have := List.find?_some h
    rwa [decide_eq_true_eq] at this
  · rintro ⟨hmem, hkey⟩
    cases h : t.find? k with
    | none =>
      have := List.find?_eq_none.mp h a hmem
      rw [decide_eq_true_eq] at this
      exact absurd hkey this
    | some b =>
      have hb := List.mem_of_find?_eq_some h
      have hbkey := List.find?_some h
      rw [decide_eq_true_eq] at hbkey
      rw [List.inj_on_of_nodup_map t.keys_nodup hb hmem (hbkey.trans hkey.symm)]

theorem find?_eq_none_iff {k : κ} : t.find? k = none ↔ ∀ a ∈ t.rows, key a ≠ k := by
  rw [find?, List.find?_eq_none]
  simp only [decide_eq_true_eq, ne_eq]

theorem find?_key (h : a ∈ t.rows) : t.find? (key a) = some a :=
  find?_eq_some_iff.mpr ⟨h, rfl⟩

@[simp] theorem find?_empty (k : κ) : (∅ : Table key).find? k = none := rfl

def insertNew (t : Table key) (a : α) : Table key :=
  if h : t.find? (key a) = none then
    ⟨t.rows ++ [a], by
      rw [List.map_append, List.nodup_append]
      refine ⟨t.keys_nodup, List.nodup_singleton _, ?_⟩
      intro k hk l hl
      obtain ⟨b, hb, rfl⟩ := List.mem_map.mp hk
      rw [List.map_cons, List.map_nil, List.mem_singleton] at hl
      subst hl
      exact find?_eq_none_iff.mp h b hb⟩
  else t

theorem insertNew_of_none (h : t.find? (key a) = none) :
    (t.insertNew a).rows = t.rows ++ [a] := by
  unfold insertNew
  rw [dif_pos h]

theorem insertNew_of_some {b : α} (h : t.find? (key a) = some b) :
    t.insertNew a = t := by
  unfold insertNew
  rw [dif_neg (by rw [h]; simp)]

theorem find?_insertNew (t : Table key) (a : α) (k : κ) :
    (t.insertNew a).find? k = (t.find? k).or (if key a = k then some a else none) := by
  cases h : t.find? (key a) with
  | some b =>
    rw [insertNew_of_some h]
    split
    · rename_i hk
      subst hk
      rw [h, Option.some_or]
    · rw [Option.or_none]
  | none =>
    rw [find?, insertNew_of_none h, List.find?_append, List.find?_singleton]
    simp only [decide_eq_true_eq]
    rfl

def modify (t : Table key) (k : κ) (f : α → α) (hf : ∀ a, key a = k → key (f a) = k) : Table key :=
  ⟨t.rows.map fun a => if key a = k then f a else a, by
    have hkeys : key ∘ (fun a => if key a = k then f a else a) = key := by
      funext a
      show key (if key a = k then f a else a) = key a
      split
      · rename_i h
        rw [hf a h, h]
      · rfl
    rw [List.map_map, hkeys]
    exact t.keys_nodup⟩

theorem rows_modify (t : Table key) (k : κ) (f : α → α) (hf : ∀ a, key a = k → key (f a) = k) :
    (t.modify k f hf).rows = t.rows.map fun a => if key a = k then f a else a := rfl

theorem find?_modify (t : Table key) (k : κ) (f : α → α) (hf : ∀ a, key a = k → key (f a) = k)
    (j : κ) : (t.modify k f hf).find? j = if k = j then (t.find? j).map f else t.find? j := by
  have hmodified : ∀ b, (t.modify k f hf).find? j = some b ↔
      ∃ a ∈ t.rows, (if key a = k then f a else a) = b ∧ key b = j := by
    intro b
    rw [find?_eq_some_iff, rows_modify, List.mem_map]
    constructor
    · rintro ⟨⟨a, ha, hab⟩, hb⟩
      exact ⟨a, ha, hab, hb⟩
    · rintro ⟨a, ha, hab, hb⟩
      exact ⟨⟨a, ha, hab⟩, hb⟩
  refine Option.ext fun b => ?_
  rw [hmodified]
  by_cases hkj : k = j
  · subst hkj
    rw [if_pos rfl, Option.map_eq_some_iff]
    constructor
    · rintro ⟨a, ha, hab, hb⟩
      by_cases hka : key a = k
      · rw [if_pos hka] at hab
        exact ⟨a, find?_eq_some_iff.mpr ⟨ha, hka⟩, hab⟩
      · rw [if_neg hka] at hab
        exact absurd (hab ▸ hb) hka
    · rintro ⟨a, ha, rfl⟩
      obtain ⟨hmem, hka⟩ := find?_eq_some_iff.mp ha
      exact ⟨a, hmem, if_pos hka, hf a hka⟩
  · rw [if_neg hkj, find?_eq_some_iff]
    constructor
    · rintro ⟨a, ha, hab, hb⟩
      by_cases hka : key a = k
      · rw [if_pos hka] at hab
        subst hab
        exact absurd ((hf a hka).symm.trans hb) hkj
      · rw [if_neg hka] at hab
        exact hab ▸ ⟨ha, hab ▸ hb⟩
    · rintro ⟨ha, hb⟩
      exact ⟨b, ha, if_neg fun hk => hkj (hk.symm.trans hb), hb⟩

/-- `d[key a] = a`: replaces the row with the key of `a`, in its place, or inserts it. -/
def put (t : Table key) (a : α) : Table key :=
  (t.modify (key a) (fun _ => a) fun _ _ => rfl).insertNew a

theorem find?_put (t : Table key) (a : α) (k : κ) :
    (t.put a).find? k = if key a = k then some a else t.find? k := by
  rw [put, find?_insertNew, find?_modify]
  by_cases h : key a = k
  · rw [if_pos h, if_pos h, if_pos h]
    cases t.find? k <;> rfl
  · rw [if_neg h, if_neg h, if_neg h, Option.or_none]

theorem rows_put_of_none (h : t.find? (key a) = none) :
    (t.put a).rows = t.rows ++ [a] := by
  have hsame : (t.modify (key a) (fun _ => a) fun _ _ => rfl).rows = t.rows := by
    rw [rows_modify, List.map_congr_left (g := id), List.map_id]
    exact fun b hb => if_neg (find?_eq_none_iff.mp h b hb)
  have hnone : (t.modify (key a) (fun _ => a) fun _ _ => rfl).find? (key a) = none := by
    rw [find?_modify, if_pos rfl, h]
    rfl
  rw [put, insertNew_of_none hnone, hsame]

/-- `d.setdefault(key a, a)`, and an update of the row found or inserted. -/
def upsert (t : Table key) (a : α) (f : α → α) (hf : ∀ b, key (f b) = key b) : Table key :=
  (t.insertNew a).modify (key a) f fun b h => (hf b).trans h

theorem find?_upsert (t : Table key) (a : α) (f : α → α) (hf : ∀ b, key (f b) = key b) (k : κ) :
    (t.upsert a f hf).find? k =
      if key a = k then some (f ((t.find? k).getD a)) else t.find? k := by
  rw [upsert, find?_modify, find?_insertNew]
  by_cases h : key a = k
  · simp only [if_pos h]
    cases t.find? k <;> rfl
  · simp only [if_neg h, Option.or_none]

theorem sum_map_modify {M : Type} [AddCommMonoid M] {l : List α} (hl : (l.map key).Nodup) {k : κ}
    (hk : k ∈ l.map key) (f : α → α) (g : α → M) {d : M} (hadd : ∀ a, g (f a) = g a + d) :
    ((l.map fun a => if key a = k then f a else a).map g).sum = (l.map g).sum + d := by
  induction l with
  | nil => exact nomatch hk
  | cons a l ih =>
    rw [List.map_cons, List.nodup_cons] at hl
    rw [List.map_cons, List.map_cons, List.sum_cons, List.map_cons, List.sum_cons]
    rcases List.mem_cons.mp hk with rfl | hk
    · have hrest : (l.map fun b => if key b = key a then f b else b) = l := by
        refine (List.map_congr_left fun b hb => if_neg fun h => hl.1 ?_).trans (List.map_id l)
        exact h ▸ List.mem_map_of_mem hb
      rw [hrest, if_pos rfl, hadd, add_right_comm]
    · have hne : key a ≠ k := fun h => hl.1 (h ▸ hk)
      rw [if_neg hne, ih hl.2 hk, add_assoc]

theorem sum_map_set {M : Type} [AddCommMonoid M] {l : List α} {i : ℕ} {a' : α} (hi : l[i]? = some a)
    (f : α → M) {d : M} (hd : f a' = f a + d) :
    ((l.set i a').map f).sum = (l.map f).sum + d := by
  induction l generalizing i with
  | nil => cases hi
  | cons x l ih =>
    cases i with
    | zero =>
      obtain rfl := Option.some.inj hi
      rw [List.set_cons_zero, List.map_cons, List.map_cons, List.sum_cons, List.sum_cons, hd,
        add_right_comm]
    | succ i =>
      rw [List.getElem?_cons_succ] at hi
      rw [List.set_cons_succ, List.map_cons, List.map_cons, List.sum_cons, List.sum_cons, ih hi,
        add_assoc]

theorem sum_upsert {M : Type} [AddCommMonoid M] (t : Table key) {f : α → α}
    (hf : ∀ b, key (f b) = key b) (g : α → M) {d : M} (hzero : g a = 0)
    (hadd : ∀ b, g (f b) = g b + d) :
    ((t.upsert a f hf).rows.map g).sum = (t.rows.map g).sum + d := by
  have hinserted : ((t.insertNew a).rows.map g).sum = (t.rows.map g).sum ∧
      key a ∈ (t.insertNew a).rows.map key := by
    cases h : t.find? (key a) with
    | none =>
      rw [insertNew_of_none h]
      simp [hzero]
    | some b =>
      rw [insertNew_of_some h]
      obtain ⟨hmem, hkey⟩ := find?_eq_some_iff.mp h
      exact ⟨rfl, hkey ▸ List.mem_map_of_mem hmem⟩
  rw [upsert, rows_modify, sum_map_modify (t.insertNew a).keys_nodup hinserted.2 f g hadd,
    hinserted.1]

def erase (t : Table key) (k : κ) : Table key :=
  ⟨t.rows.filter (key · ≠ k), t.keys_nodup.sublist (List.filter_sublist.map key)⟩

theorem mem_rows_erase {k : κ} :
    a ∈ (t.erase k).rows ↔ a ∈ t.rows ∧ key a ≠ k := by
  rw [erase, List.mem_filter, decide_eq_true_eq]

theorem length_rows_erase_lt (h : a ∈ t.rows) :
    (t.erase (key a)).rows.length < t.rows.length :=
  List.length_filter_lt_length_iff_exists.mpr ⟨a, h, by simp⟩

theorem map_rows_modify {β : Type} {k : κ} {f : α → α} {g : α → β}
    (hf : ∀ a, key a = k → key (f a) = k) (h : ∀ a, g (f a) = g a) :
    (t.modify k f hf).rows.map g = t.rows.map g := by
  rw [rows_modify, List.map_map]
  refine List.map_congr_left fun a _ => ?_
  rw [Function.comp_apply]
  split_ifs
  · exact h a
  · rfl

theorem mem_rows_insertNew {b : α} (h : b ∈ (t.insertNew a).rows) :
    b ∈ t.rows ∨ b = a := by
  cases ha : t.find? (key a) with
  | none =>
    rw [insertNew_of_none ha] at h
    exact (List.mem_append.mp h).imp_right List.mem_singleton.mp
  | some c =>
    rw [insertNew_of_some ha] at h
    exact .inl h

theorem rows_perm (h : a ∈ t.rows) :
    t.rows.Perm (a :: (t.erase (key a)).rows) := by
  have hnodup := List.Nodup.of_map key t.keys_nodup
  have hnodup' : (a :: (t.erase (key a)).rows).Nodup := by
    refine List.nodup_cons.mpr ⟨fun hmem => (mem_rows_erase.mp hmem).2 rfl, ?_⟩
    exact hnodup.filter _
  refine (List.perm_ext_iff_of_nodup hnodup hnodup').mpr fun b => ?_
  rw [List.mem_cons, mem_rows_erase]
  constructor
  · intro hb
    by_cases hkey : key b = key a
    · exact .inl (List.inj_on_of_nodup_map t.keys_nodup hb h hkey)
    · exact .inr ⟨hb, hkey⟩
  · rintro (rfl | hb)
    · exact h
    · exact hb.1

theorem sum_erase {M : Type} [AddCommMonoid M] (h : a ∈ t.rows) (g : α → M) :
    (t.rows.map g).sum = g a + ((t.erase (key a)).rows.map g).sum := by
  rw [((rows_perm h).map g).sum_eq, List.map_cons, List.sum_cons]

theorem sum_modify {M : Type} [AddCommMonoid M] (h : a ∈ t.rows) {f : α → α}
    {hf : ∀ b, key b = key a → key (f b) = key a} (g : α → M) :
    ((t.modify (key a) f hf).rows.map g).sum =
      g (f a) + ((t.erase (key a)).rows.map g).sum := by
  have hrest : (t.erase (key a)).rows.map (fun b => if key b = key a then f b else b) =
      (t.erase (key a)).rows :=
    (List.map_congr_left fun b hb => if_neg (mem_rows_erase.mp hb).2).trans (List.map_id _)
  rw [rows_modify, (((rows_perm h).map _).map g).sum_eq, List.map_cons, List.map_cons,
    List.sum_cons, if_pos rfl, hrest]

end Table

end Kroker
