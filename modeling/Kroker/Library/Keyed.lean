import Kroker.Library.Table
import Mathlib.Data.List.Dedup
import Mathlib.Data.List.Sort

/-!
# Rows by a key

Four things programs do with a list of rows that have a key.

## 1.  Indexing

`Table.ofRows l` is `{key(x): x for x in l}`: of two rows with one key the later wins
(`find?_ofRows`).  So a row is lost exactly where a later row has its key, and the rows survive
whenever their keys tell them apart (`find?_ofRows_of_unique`).

## 2.  Refusing a repeated key

`unique key l k` is the row with the key `k` if just one row has it (`unique_eq_some_iff`).  The
order of this refusal and of another filter matters: what survives another filter may be unique
although the list was not.

## 3.  Sorting

`sortedBy key l` lists the rows in increasing order of their keys, and strictly so where the keys
are distinct (`sortedBy_strict`).  Rows that correspond are sorted alike (`forall₂_sortedBy`).

## 4.  Keeping the first

`firstBy key l` keeps the first row of each key.  It loses no value of a finer key exactly where the
keys tell these values apart (`firstBy_keeps_iff`), and the same decides whether rows under distinct
keys can be matched with the values one to one (`exists_rowOf_iff`).
-/

namespace Kroker

variable {α κ : Type}

/-! ## 1.  Indexing -/

namespace Table

variable {key : α → κ} [DecidableEq κ]

/-- `{key(x): x for x in l}`. -/
def ofRows (key : α → κ) (l : List α) : Table key := l.foldl put ∅

theorem find?_foldl_put (l : List α) (t : Table key) (k : κ) :
    (l.foldl put t).find? k = (l.reverse.find? (key · = k)).or (t.find? k) := by
  induction l generalizing t with
  | nil => rfl
  | cons a l ih =>
    rw [List.foldl_cons, ih, find?_put, List.reverse_cons, List.find?_append, Option.or_assoc]
    congr 1
    by_cases h : key a = k
    · rw [if_pos h, List.find?_singleton, if_pos (decide_eq_true h), Option.some_or]
    · rw [if_neg h, List.find?_singleton, if_neg (by simpa using h), Option.none_or]

/-- **A key leads to the last row that has it.** -/
theorem find?_ofRows (l : List α) (k : κ) :
    (ofRows key l).find? k = l.reverse.find? (key · = k) := by
  rw [ofRows, find?_foldl_put, find?_empty, Option.or_none]

variable {l : List α}

theorem find?_ofRows_eq_none_iff {k : κ} :
    (ofRows key l).find? k = none ↔ ∀ a ∈ l, key a ≠ k := by
  rw [find?_ofRows, List.find?_eq_none]
  simp only [List.mem_reverse, decide_eq_true_eq, ne_eq]

theorem mem_of_find?_ofRows {k : κ} {a : α} (h : (ofRows key l).find? k = some a) :
    a ∈ l ∧ key a = k := by
  rw [find?_ofRows] at h
  refine ⟨List.mem_reverse.mp (List.mem_of_find?_eq_some h), ?_⟩
  simpa using List.find?_some h

theorem exists_find?_ofRows {a : α} (h : a ∈ l) :
    ∃ b, (ofRows key l).find? (key a) = some b := by
  cases hfind : (ofRows key l).find? (key a) with
  | none => exact absurd rfl (find?_ofRows_eq_none_iff.mp hfind a h)
  | some b => exact ⟨b, rfl⟩

theorem find?_ofRows_of_unique {a : α} (h : a ∈ l) (hunique : ∀ b ∈ l, key b = key a → b = a) :
    (ofRows key l).find? (key a) = some a := by
  obtain ⟨b, hb⟩ : ∃ b, (ofRows key l).find? (key a) = some b := exists_find?_ofRows h
  obtain ⟨hmem, hkey⟩ := mem_of_find?_ofRows hb
  rw [hb, hunique b hmem hkey]

theorem find?_ofRows_eq_some_iff (hnodup : (l.map key).Nodup) {k : κ} {a : α} :
    (ofRows key l).find? k = some a ↔ a ∈ l ∧ key a = k := by
  constructor
  · exact mem_of_find?_ofRows
  · rintro ⟨hmem, rfl⟩
    exact find?_ofRows_of_unique hmem fun b hb hkey =>
      List.inj_on_of_nodup_map hnodup hb hmem hkey

theorem rows_foldl_put {t : Table key} (hnodup : (l.map key).Nodup)
    (hnew : ∀ a ∈ l, t.find? (key a) = none) : (l.foldl put t).rows = t.rows ++ l := by
  induction l generalizing t with
  | nil => rw [List.foldl_nil, List.append_nil]
  | cons a l ih =>
    rw [List.map_cons, List.nodup_cons] at hnodup
    rw [List.forall_mem_cons] at hnew
    have hput : ∀ b ∈ l, (t.put a).find? (key b) = none := by
      intro b hb
      have hne : key a ≠ key b := fun hsame => hnodup.1 (List.mem_map.mpr ⟨b, hb, hsame.symm⟩)
      rw [find?_put, if_neg hne]
      exact hnew.2 b hb
    rw [List.foldl_cons, ih hnodup.2 hput, rows_put_of_none hnew.1, List.append_assoc,
      List.singleton_append]

theorem rows_ofRows (hnodup : (l.map key).Nodup) : (ofRows key l).rows = l := by
  rw [ofRows, rows_foldl_put hnodup fun a _ => find?_empty (key a), rows_empty, List.nil_append]

theorem mem_of_mem_rows_ofRows {a : α} (h : a ∈ (ofRows key l).rows) : a ∈ l :=
  (mem_of_find?_ofRows (find?_key h)).1

theorem exists_mem_rows_ofRows {a : α} (h : a ∈ l) :
    ∃ b ∈ (ofRows key l).rows, key b = key a := by
  obtain ⟨b, hb⟩ : ∃ b, (ofRows key l).find? (key a) = some b := exists_find?_ofRows h
  obtain ⟨hmem, hkey⟩ := find?_eq_some_iff.mp hb
  exact ⟨b, hmem, hkey⟩

end Table

/-! ## 2.  Refusing a repeated key -/

section Unique

variable [DecidableEq κ] (key : α → κ)

/-- The keys met again in a scan of the rows that has met `seen`. -/
def repeatedFrom : List κ → List α → List κ
  | _, [] => []
  | seen, a :: l =>
    if key a ∈ seen then key a :: repeatedFrom (key a :: seen) l
    else repeatedFrom (key a :: seen) l

/-- The keys that more than one row has. -/
def repeated (l : List α) : List κ := repeatedFrom key [] l

theorem mem_repeatedFrom_iff (seen : List κ) (l : List α) (k : κ) :
    k ∈ repeatedFrom key seen l ↔
      k ∈ seen ∧ k ∈ l.map key ∨ 2 ≤ (l.map key).count k := by
  induction l generalizing seen with
  | nil => simp [repeatedFrom]
  | cons a l ih =>
    have hpos : 0 < (l.map key).count k ↔ k ∈ l.map key := List.count_pos_iff
    rw [List.map_cons, List.mem_cons, List.count_cons]
    by_cases hka : k = key a
    · subst hka
      simp only [beq_self_eq_true, if_true, true_or, and_true]
      by_cases hseen : key a ∈ seen
      · rw [repeatedFrom, if_pos hseen]
        exact iff_of_true List.mem_cons_self (.inl hseen)
      · rw [repeatedFrom, if_neg hseen, ih, List.mem_cons, ← hpos]
        simp only [true_or, true_and, hseen, false_or]
        omega
    · have hne : (key a == k) = false := by simpa using fun h => hka h.symm
      have hmem : k ∈ repeatedFrom key seen (a :: l) ↔ k ∈ repeatedFrom key (key a :: seen) l := by
        rw [repeatedFrom]
        split
        · rw [List.mem_cons, or_iff_right hka]
        · rfl
      rw [hmem, ih, List.mem_cons, hne]
      simp [hka]

theorem mem_repeated_iff (l : List α) (k : κ) : k ∈ repeated key l ↔ 2 ≤ (l.map key).count k := by
  rw [repeated, mem_repeatedFrom_iff]
  simp

def unique (l : List α) (k : κ) : Option α :=
  if k ∈ repeated key l then none else (Table.ofRows key l).find? k

/-- **A key leads to the only row that has it.** -/
theorem unique_eq_some_iff {l : List α} {k : κ} {a : α} :
    unique key l k = some a ↔ a ∈ l ∧ key a = k ∧ (l.map key).count k = 1 := by
  have hcount : ∀ b ∈ l, key b = k → 0 < (l.map key).count k := fun b hb hk =>
    List.count_pos_iff.mpr (hk ▸ List.mem_map_of_mem hb)
  unfold unique
  split
  · rename_i htwo
    rw [mem_repeated_iff] at htwo
    exact iff_of_false (by simp) fun h => by omega
  · rename_i htwo
    rw [mem_repeated_iff] at htwo
    constructor
    · intro h
      obtain ⟨hmem, hkey⟩ := Table.mem_of_find?_ofRows h
      have hpos := hcount a hmem hkey
      exact ⟨hmem, hkey, by omega⟩
    · rintro ⟨hmem, rfl, hone⟩
      refine Table.find?_ofRows_of_unique hmem fun b hb hkey => ?_
      rw [List.count_eq_length_filter, List.filter_map, List.length_map] at hone
      obtain ⟨c, hc⟩ := List.length_eq_one_iff.mp hone
      have hin : ∀ x ∈ l, key x = key a → x = c := by
        intro x hx hxa
        have hxin : x ∈ l.filter ((· == key a) ∘ key) :=
          List.mem_filter.mpr ⟨hx, by simpa using hxa⟩
        rw [hc] at hxin
        exact List.mem_singleton.mp hxin
      rw [hin b hb hkey, hin a hmem rfl]

end Unique

/-! ## 3.  Sorting -/

section Sorting

variable [LinearOrder κ]

/-- `sorted(l, key=key)`. -/
def sortedBy (key : α → κ) (l : List α) : List α := l.insertionSort fun a b => key a ≤ key b

theorem sortedBy_perm (key : α → κ) (l : List α) : (sortedBy key l).Perm l :=
  List.perm_insertionSort _ l

variable {key : α → κ}

@[simp] theorem mem_sortedBy {l : List α} {a : α} : a ∈ sortedBy key l ↔ a ∈ l :=
  List.mem_insertionSort _

theorem pairwise_sortedBy (key : α → κ) (l : List α) :
    (sortedBy key l).Pairwise (key · ≤ key ·) := by
  have htotal : Std.Total (fun a b : α => key a ≤ key b) := ⟨fun a b => le_total (key a) (key b)⟩
  have htrans : IsTrans α (fun a b => key a ≤ key b) := ⟨fun a b c => le_trans⟩
  exact List.pairwise_insertionSort (fun a b : α => key a ≤ key b) l

theorem sortedBy_strict {l : List α} (h : (l.map key).Nodup) :
    ((sortedBy key l).map key).Pairwise (· < ·) := by
  have hsorted : ((sortedBy key l).map key).Pairwise (· ≤ ·) :=
    List.pairwise_map.mpr (pairwise_sortedBy key l)
  have hnodup : ((sortedBy key l).map key).Nodup :=
    ((sortedBy_perm key l).map key).nodup_iff.mpr h
  exact (hsorted.and hnodup).imp fun hpair => lt_of_le_of_ne hpair.1 hpair.2

theorem eq_of_perm_of_pairwise (hkey : Function.Injective key) {l l' : List α}
    (hl : l.Pairwise (key · ≤ key ·)) (hl' : l'.Pairwise (key · ≤ key ·)) (h : l.Perm l') :
    l = l' :=
  h.eq_of_pairwise (fun _ _ _ _ hab hba => hkey (le_antisymm hab hba)) hl hl'

theorem sortedBy_eq_of_perm (hkey : Function.Injective key) {l l' : List α} (h : l'.Perm l) :
    sortedBy key l' = sortedBy key l :=
  eq_of_perm_of_pairwise hkey (pairwise_sortedBy key l') (pairwise_sortedBy key l)
    (((sortedBy_perm key l').trans h).trans (sortedBy_perm key l).symm)

theorem sortedBy_congr {l l' : List α} (h : (l.map key).Nodup) (h' : (l'.map key).Nodup)
    (hmem : ∀ a, a ∈ l ↔ a ∈ l') : sortedBy key l = sortedBy key l' := by
  have hperm : l.Perm l' :=
    (List.perm_ext_iff_of_nodup (List.Nodup.of_map key h) (List.Nodup.of_map key h')).mpr hmem
  refine (((sortedBy_perm key l).trans hperm).trans (sortedBy_perm key l').symm).eq_of_pairwise ?_
    (List.pairwise_map.mp (sortedBy_strict h)) (List.pairwise_map.mp (sortedBy_strict h'))
  exact fun a b _ _ hab hba => absurd hab (lt_asymm hba)

theorem forall₂_sortedBy {β : Type} {key' : β → κ} {R : α → β → Prop}
    (hkey : ∀ a b, R a b → key a = key' b) {l : List α} {m : List β} (h : List.Forall₂ R l m) :
    List.Forall₂ R (sortedBy key l) (sortedBy key' m) := by
  have hinsert : ∀ {a b} {l : List α} {m : List β}, R a b → List.Forall₂ R l m →
      List.Forall₂ R (l.orderedInsert (fun a b => key a ≤ key b) a)
        (m.orderedInsert (fun a b => key' a ≤ key' b) b) := by
    intro a b l m hab h
    induction h with
    | nil => exact .cons hab .nil
    | @cons c d l m hcd hlm ih =>
      rw [List.orderedInsert_cons, List.orderedInsert_cons, hkey a b hab, hkey c d hcd]
      split
      · exact .cons hab (.cons hcd hlm)
      · exact .cons hcd ih
  induction h with
  | nil => exact .nil
  | cons hab hlm ih => exact hinsert hab ih

theorem sortedBy_map {β : Type} {key' : β → κ} {f : α → β} (hf : ∀ a, key' (f a) = key a)
    (l : List α) :
    sortedBy key' (l.map f) = (sortedBy key l).map f := by
  have hmap : List.Forall₂ (fun a b => b = f a) l (l.map f) :=
    List.forall₂_map_right_iff.mpr (List.forall₂_same.mpr fun _ _ => rfl)
  have hsorted : List.Forall₂ (fun a b => b = f a) (sortedBy key l) (sortedBy key' (l.map f)) :=
    forall₂_sortedBy (fun a b hb => by rw [hb, hf]) hmap
  generalize sortedBy key l = rows at hsorted
  generalize sortedBy key' (l.map f) = rows' at hsorted
  induction hsorted with
  | nil => rfl
  | cons hb _ ih => rw [hb, ih, List.map_cons]

theorem head?_sortedBy_congr {l l' : List κ} (hmem : ∀ a, a ∈ l ↔ a ∈ l') :
    (sortedBy id l).head? = (sortedBy id l').head? := by
  have hmem' : ∀ a, a ∈ sortedBy id l ↔ a ∈ sortedBy id l' := fun a =>
    mem_sortedBy.trans ((hmem a).trans mem_sortedBy.symm)
  have hsorted := pairwise_sortedBy id l
  have hsorted' := pairwise_sortedBy id l'
  revert hmem' hsorted hsorted'
  cases sortedBy id l with
  | nil =>
    intro hmem' _ _
    rw [List.eq_nil_iff_forall_not_mem.mpr fun a ha => List.not_mem_nil ((hmem' a).mpr ha)]
  | cons a as =>
    cases sortedBy id l' with
    | nil => exact fun hmem' _ _ => absurd ((hmem' a).mp List.mem_cons_self) List.not_mem_nil
    | cons b bs =>
      intro hmem' hsorted hsorted'
      have hab : a ≤ b := by
        rcases List.mem_cons.mp ((hmem' b).mpr List.mem_cons_self) with rfl | hb
        · exact le_refl _
        · exact List.rel_of_pairwise_cons hsorted hb
      have hba : b ≤ a := by
        rcases List.mem_cons.mp ((hmem' a).mp List.mem_cons_self) with rfl | ha
        · exact le_refl _
        · exact List.rel_of_pairwise_cons hsorted' ha
      exact congrArg some (le_antisymm hab hba)

end Sorting

theorem nodup_of_strict [LinearOrder κ] {l : List κ} (h : l.Pairwise (· < ·)) : l.Nodup :=
  h.imp fun hlt => ne_of_lt hlt

/-! ## 4.  Keeping the first -/

section First

variable [DecidableEq κ] {β ρ : Type}

/-- The rows whose key has not been met, when `seen` has been. -/
def firstFrom (key : α → κ) : List κ → List α → List α
  | _, [] => []
  | seen, a :: l =>
    if key a ∈ seen then firstFrom key seen l else a :: firstFrom key (key a :: seen) l

def firstBy (key : α → κ) (l : List α) : List α := firstFrom key [] l

theorem mem_of_mem_firstFrom {key : α → κ} {l : List α} {seen : List κ} {a : α}
    (h : a ∈ firstFrom key seen l) : a ∈ l ∧ key a ∉ seen := by
  induction l generalizing seen with
  | nil => exact nomatch h
  | cons b l ih =>
    rw [firstFrom] at h
    split at h
    · obtain ⟨hmem, hseen⟩ := ih h
      exact ⟨List.mem_cons_of_mem b hmem, hseen⟩
    · rename_i hb
      rcases List.mem_cons.mp h with rfl | h
      · exact ⟨List.mem_cons_self, hb⟩
      · obtain ⟨hmem, hseen⟩ := ih h
        exact ⟨List.mem_cons_of_mem b hmem, fun hin => hseen (List.mem_cons_of_mem _ hin)⟩

theorem nodup_firstFrom (key : α → κ) (l : List α) (seen : List κ) :
    ((firstFrom key seen l).map key).Nodup := by
  induction l generalizing seen with
  | nil => exact List.nodup_nil
  | cons a l ih =>
    rw [firstFrom]
    split
    · exact ih seen
    · rw [List.map_cons, List.nodup_cons]
      refine ⟨fun hmem => ?_, ih _⟩
      obtain ⟨b, hb, hkey⟩ := List.mem_map.mp hmem
      exact (mem_of_mem_firstFrom hb).2 (hkey ▸ List.mem_cons_self)

theorem exists_mem_firstFrom {key : α → κ} {l : List α} {seen : List κ} {a : α} (h : a ∈ l)
    (hseen : key a ∉ seen) : ∃ b ∈ firstFrom key seen l, key b = key a := by
  induction l generalizing seen with
  | nil => exact nomatch h
  | cons b l ih =>
    rw [firstFrom]
    split
    · rename_i hb
      rcases List.mem_cons.mp h with rfl | h
      · exact absurd hb hseen
      · exact ih h hseen
    · by_cases hkey : key b = key a
      · exact ⟨b, List.mem_cons_self, hkey⟩
      · rcases List.mem_cons.mp h with rfl | h
        · exact absurd rfl hkey
        · have hfresh : key a ∉ key b :: seen := by
            rw [List.mem_cons, not_or]
            exact ⟨Ne.symm hkey, hseen⟩
          obtain ⟨c, hc, hsame⟩ := ih h hfresh
          exact ⟨c, List.mem_cons_of_mem b hc, hsame⟩

theorem firstFrom_append_singleton (key : α → κ) (l : List α) (seen : List κ) (a : α) :
    firstFrom key seen (l ++ [a]) = firstFrom key seen l ++
      if key a ∈ seen ∨ key a ∈ l.map key then [] else [a] := by
  induction l generalizing seen with
  | nil =>
    rw [List.nil_append, firstFrom, firstFrom, firstFrom, List.map_nil]
    simp only [List.not_mem_nil, or_false]
    split
    · rfl
    · rfl
  | cons b l ih =>
    rw [List.cons_append, firstFrom, firstFrom, ih, ih, List.map_cons]
    split
    · rename_i hb
      have hiff : key a ∈ seen ∨ key a ∈ key b :: l.map key ↔ key a ∈ seen ∨ key a ∈ l.map key := by
        rw [List.mem_cons]
        refine ⟨?_, Or.imp_right .inr⟩
        rintro (h | h | h)
        · exact .inl h
        · exact .inl (h ▸ hb)
        · exact .inr h
      rw [if_congr hiff rfl rfl]
    · have hiff : key a ∈ seen ∨ key a ∈ key b :: l.map key ↔
          key a ∈ key b :: seen ∨ key a ∈ l.map key := by
        rw [List.mem_cons, List.mem_cons, or_assoc, or_left_comm]
      rw [if_congr hiff rfl rfl, List.cons_append]

theorem firstFrom_map [DecidableEq β] {f : κ → β} (hf : Function.Injective f) (seen l : List κ) :
    firstFrom id (seen.map f) (l.map f) = (firstFrom id seen l).map f := by
  induction l generalizing seen with
  | nil => rfl
  | cons k l ih =>
    rw [List.map_cons, firstFrom, firstFrom, id_eq, id_eq,
      if_congr (List.mem_map_of_injective hf) rfl rfl, apply_ite (List.map f), List.map_cons, ih,
      ← List.map_cons, ih]

theorem mem_of_mem_firstBy {key : α → κ} {l : List α} {a : α} (h : a ∈ firstBy key l) : a ∈ l :=
  (mem_of_mem_firstFrom h).1

/-- **Keeping the first of each key keeps every value `g` exactly where the key tells the values
apart.** -/
theorem firstBy_keeps_iff {key : α → κ} {g : α → β} {f : β → κ} (hkey : ∀ a, key a = f (g a))
    {l : List α} :
    (∀ a ∈ l, ∃ b ∈ firstBy key l, g b = g a) ↔
      ∀ a ∈ l, ∀ b ∈ l, key a = key b → g a = g b := by
  constructor
  · intro hkeeps a ha b hb hsame
    obtain ⟨a', ha', hga⟩ := hkeeps a ha
    obtain ⟨b', hb', hgb⟩ := hkeeps b hb
    have heq : key a' = key b' := by rw [hkey, hkey, hga, hgb, ← hkey, ← hkey, hsame]
    rw [← hga, ← hgb, List.inj_on_of_nodup_map (nodup_firstFrom key l []) ha' hb' heq]
  · intro hapart a ha
    obtain ⟨b, hb, hsame⟩ : ∃ b ∈ firstBy key l, key b = key a :=
      exists_mem_firstFrom ha List.not_mem_nil
    exact ⟨b, hb, hapart b (mem_of_mem_firstBy hb) a ha hsame⟩

omit [DecidableEq κ] in
/-- **Rows under distinct keys match the values one to one exactly where the keys tell the values
apart.**  The rows are those of the values' keys. -/
theorem exists_rowOf_iff [DecidableEq β] [Nonempty ρ] {values : List β} {rows : List ρ}
    {f : β → κ} {key : ρ → κ} (hnodup : (rows.map key).Nodup)
    (hmem : ∀ k, k ∈ rows.map key ↔ k ∈ values.map f) :
    (∃ row : β → ρ, rows.Perm (values.dedup.map row) ∧ ∀ x ∈ values, key (row x) = f x) ↔
      ∀ x ∈ values, ∀ y ∈ values, f x = f y → x = y := by
  constructor
  · rintro ⟨row, hperm, hkey⟩ x hx y hy hsame
    have hvalues : (values.dedup.map fun x => key (row x)).Nodup := by
      have hrows := (hperm.map key).nodup_iff.mp hnodup
      rwa [List.map_map] at hrows
    refine List.inj_on_of_nodup_map hvalues (List.mem_dedup.mpr hx) (List.mem_dedup.mpr hy) ?_
    rw [hkey x hx, hkey y hy, hsame]
  · intro hapart
    have hrow : ∀ x ∈ values, ∃ r ∈ rows, key r = f x := fun x hx =>
      List.mem_map.mp ((hmem _).mpr (List.mem_map_of_mem hx))
    choose! row hin hkey using hrow
    refine ⟨row, ?_, hkey⟩
    have hvalues : (values.dedup.map row).Nodup := by
      refine List.Nodup.map_on (fun x hx y hy hsame => ?_) (List.nodup_dedup values)
      rw [List.mem_dedup] at hx hy
      exact hapart x hx y hy (by rw [← hkey x hx, ← hkey y hy, hsame])
    refine (List.perm_ext_iff_of_nodup (List.Nodup.of_map key hnodup) hvalues).mpr fun r => ?_
    constructor
    · intro hr
      obtain ⟨x, hx, hfx⟩ := List.mem_map.mp ((hmem _).mp (List.mem_map_of_mem hr))
      refine List.mem_map.mpr ⟨x, List.mem_dedup.mpr hx, ?_⟩
      exact List.inj_on_of_nodup_map hnodup (hin x hx) hr ((hkey x hx).trans hfx)
    · intro hr
      obtain ⟨x, hx, rfl⟩ := List.mem_map.mp hr
      exact hin x (List.mem_dedup.mp hx)

end First

end Kroker
