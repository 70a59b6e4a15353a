import Mathlib.Data.List.Induction
import Mathlib.Data.List.Nodup

/-!
# Members in order

A dictionary that keeps the order in which its keys were set: the list of its members, of which the
first with a key is the one it has.  Setting a key that is there leaves it where it is; a new one
goes to the end.  `Nodup` of the keys is what every operation keeps.
-/

namespace Kroker.Members

variable {κ α : Type} [DecidableEq κ]

/-- The value of a key. -/
def get? : List (κ × α) → κ → Option α
  | [], _ => none
  | m :: ms, k => if m.1 = k then some m.2 else get? ms k

/-- `d[k] = v`. -/
def set : List (κ × α) → κ → α → List (κ × α)
  | [], k, v => [(k, v)]
  | m :: ms, k, v => if m.1 = k then (k, v) :: ms else m :: set ms k v

/-- `d.pop(k, None)`. -/
def erase (ms : List (κ × α)) (k : κ) : List (κ × α) := ms.filter (·.1 ≠ k)

/-- `d.update(e)`. -/
def update (ms es : List (κ × α)) : List (κ × α) := es.foldl (fun ms e => set ms e.1 e.2) ms

def firsts {β : Type} (key : β → κ) (l : List β) : List (κ × β) :=
  l.foldl (fun ms b => if get? ms (key b) = none then set ms (key b) b else ms) []

theorem get?_set (ms : List (κ × α)) (k a : κ) (v : α) :
    get? (set ms k v) a = if k = a then some v else get? ms a := by
  induction ms with
  | nil => rfl
  | cons m ms ih =>
    rw [set]
    split_ifs with hk ha
    · rw [get?, if_pos ha]
    · rw [get?, if_neg ha, get?, if_neg fun h => ha (hk.symm.trans h)]
    · rw [get?, if_neg fun h => hk (h.trans (Eq.symm ‹k = a›)), ih, if_pos ‹k = a›]
    · rw [get?, ih, if_neg ‹¬k = a›, get?]

theorem get?_set_self (ms : List (κ × α)) (k : κ) (v : α) : get? (set ms k v) k = some v := by
  rw [get?_set, if_pos rfl]

theorem get?_set_of_ne (ms : List (κ × α)) {k a : κ} (v : α) (h : k ≠ a) :
    get? (set ms k v) a = get? ms a := by
  rw [get?_set, if_neg h]

theorem get?_firsts {β : Type} (key : β → κ) (l : List β) (k : κ) :
    get? (firsts key l) k = l.find? (key · = k) := by
  induction l using List.reverseRecOn with
  | nil => rfl
  | append_singleton l b ih =>
    have hstep : firsts key (l ++ [b]) =
        if get? (firsts key l) (key b) = none then set (firsts key l) (key b) b
        else firsts key l := by
      rw [firsts, List.foldl_append]
      rfl
    have hone : [b].find? (key · = k) = if key b = k then some b else none := by
      by_cases hb : key b = k <;> simp [List.find?, hb]
    rw [hstep, List.find?_append, ← ih, hone]
    by_cases hb : key b = k
    · rw [if_pos hb, hb]
      cases hget : get? (firsts key l) k with
      | none => rw [if_pos rfl, get?_set_self]; rfl
      | some c => rw [if_neg (by simp)]; exact hget
    · rw [if_neg hb, Option.or_none]
      split_ifs
      · exact get?_set_of_ne _ _ hb
      · rfl

theorem get?_erase (ms : List (κ × α)) (k a : κ) :
    get? (erase ms k) a = if k = a then none else get? ms a := by
  induction ms with
  | nil => simp [erase, get?]
  | cons m ms ih =>
    unfold erase at ih ⊢
    by_cases hm : m.1 = k
    · rw [List.filter_cons_of_neg (by simpa using hm), ih, get?]
      by_cases ha : k = a
      · rw [if_pos ha, if_pos ha]
      · rw [if_neg ha, if_neg ha, if_neg fun h => ha (hm.symm.trans h)]
    · rw [List.filter_cons_of_pos (by simpa using hm), get?, ih, get?]
      by_cases ha : k = a
      · rw [if_pos ha, if_pos ha, if_neg fun h => hm (h.trans ha.symm)]
      · rw [if_neg ha, if_neg ha]

variable {ms : List (κ × α)}

theorem mem_of_get?_eq_some {k : κ} {v : α} (h : get? ms k = some v) :
    (k, v) ∈ ms := by
  induction ms with
  | nil => exact nomatch h
  | cons m ms ih =>
    rw [get?] at h
    split_ifs at h with hm
    · obtain rfl := Option.some.inj h
      exact hm ▸ List.mem_cons_self
    · exact List.mem_cons_of_mem _ (ih h)

theorem get?_eq_some_of_mem (hnodup : (ms.map Prod.fst).Nodup) {m : κ × α} (h : m ∈ ms) :
    get? ms m.1 = some m.2 := by
  induction ms with
  | nil => exact nomatch h
  | cons n ms ih =>
    obtain ⟨hnew, hrest⟩ := List.nodup_cons.mp hnodup
    rw [get?]
    rcases List.mem_cons.mp h with rfl | h
    · rw [if_pos rfl]
    · rw [if_neg, ih hrest h]
      exact fun heq => hnew (heq ▸ List.mem_map_of_mem h)

theorem get?_eq_some_iff (hnodup : (ms.map Prod.fst).Nodup) {k : κ} {v : α} :
    get? ms k = some v ↔ (k, v) ∈ ms :=
  ⟨mem_of_get?_eq_some, fun h => get?_eq_some_of_mem hnodup h⟩

theorem get?_perm {ms' : List (κ × α)} (h : ms.Perm ms') (hnodup : (ms.map Prod.fst).Nodup) (k : κ) :
    get? ms k = get? ms' k := by
  have hnodup' : (ms'.map Prod.fst).Nodup := (h.map Prod.fst).nodup_iff.mp hnodup
  ext v
  rw [get?_eq_some_iff hnodup, get?_eq_some_iff hnodup', h.mem_iff]

theorem get?_map {β : Type} (ms : List (κ × α)) (f : α → β) (k : κ) :
    get? (ms.map fun m => (m.1, f m.2)) k = (get? ms k).map f := by
  induction ms with
  | nil => rfl
  | cons m ms ih =>
    rw [List.map_cons, get?, get?]
    split_ifs
    · rfl
    · exact ih

theorem get?_eq_none_iff {k : κ} : get? ms k = none ↔ k ∉ ms.map Prod.fst := by
  induction ms with
  | nil => simp [get?]
  | cons m ms ih =>
    rw [get?, List.map_cons, List.mem_cons, not_or]
    by_cases hm : m.1 = k
    · rw [if_pos hm]
      exact iff_of_false (Option.some_ne_none _) fun h => h.1 hm.symm
    · rw [if_neg hm, ih]
      exact ⟨fun h => ⟨fun hk => hm hk.symm, h⟩, fun h => h.2⟩

theorem keys_set (ms : List (κ × α)) (k : κ) (v : α) :
    (set ms k v).map Prod.fst =
      if k ∈ ms.map Prod.fst then ms.map Prod.fst else ms.map Prod.fst ++ [k] := by
  induction ms with
  | nil => rfl
  | cons m ms ih =>
    rw [set]
    by_cases hm : m.1 = k
    · rw [if_pos hm, if_pos (by rw [List.map_cons, hm]; exact List.mem_cons_self), List.map_cons,
        List.map_cons, hm]
    · rw [if_neg hm, List.map_cons, ih]
      by_cases hk : k ∈ ms.map Prod.fst
      · have hmem : k ∈ (m :: ms).map Prod.fst := List.mem_cons_of_mem _ hk
        rw [if_pos hk, if_pos hmem, List.map_cons]
      · have hnot : k ∉ (m :: ms).map Prod.fst := by
          rw [List.map_cons, List.mem_cons, not_or]
          exact ⟨fun h => hm h.symm, hk⟩
        rw [if_neg hk, if_neg hnot, List.map_cons, List.cons_append]

theorem nodup_set (h : (ms.map Prod.fst).Nodup) (k : κ) (v : α) :
    ((set ms k v).map Prod.fst).Nodup := by
  rw [keys_set]
  split_ifs with hk
  · exact h
  · exact h.append (List.nodup_singleton k) (List.disjoint_singleton.mpr hk)

theorem get?_update (ms : List (κ × α)) {es : List (κ × α)} (h : (es.map Prod.fst).Nodup) (k : κ) :
    get? (update ms es) k = (get? es k).or (get? ms k) := by
  induction es generalizing ms with
  | nil => rfl
  | cons e es ih =>
    obtain ⟨hnew, hrest⟩ := List.nodup_cons.mp h
    change get? (update (set ms e.1 e.2) es) k = _
    rw [ih _ hrest, get?_set, get?]
    by_cases hk : e.1 = k
    · rw [if_pos hk, if_pos hk, get?_eq_none_iff.mpr (hk ▸ hnew)]
      rfl
    · rw [if_neg hk, if_neg hk]

end Kroker.Members
