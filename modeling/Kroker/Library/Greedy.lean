import Mathlib.Data.Finset.Card
import Mathlib.Data.List.Pairwise
import Mathlib.Data.List.Sort

/-!
# Greedy choice in an order

From a list of claims the first is taken, and each next one that clashes with none that was taken.

## 1.  Stable choices

A choice is `Stable` if no two of its claims clash and every claim that was left out clashes with an
earlier one that was taken.  What a stable choice takes up to some claim depends on the claims up to
there only (`Stable.agree`), so there is at most one.

## 2.  The greedy choice

`greedy clash l` is stable (`stable_greedy`), whatever the order of `l`, and equal for lists that
are permutations of each other (`greedy_perm`).  Further claims that come later take nothing from it
(`mem_greedy_append`).
-/

namespace Kroker.Greedy

variable {κ : Type} [LinearOrder κ] {clash : κ → κ → Bool}

/-! ## 1.  Stable choices -/

/-- A choice without a clash, and every claim left out is blocked by an earlier one. -/
structure Stable (clash : κ → κ → Bool) (l chosen : List κ) : Prop where
  subset : ∀ a ∈ chosen, a ∈ l
  free : ∀ a ∈ chosen, ∀ b ∈ chosen, a ≠ b → clash a b = false
  blocked : ∀ a ∈ l, a ∉ chosen → ∃ b ∈ chosen, b < a ∧ clash a b = true

theorem card_below_lt {l : List κ} {a b : κ} (hb : b ∈ l) (hlt : b < a) :
    (l.toFinset.filter (· < b)).card < (l.toFinset.filter (· < a)).card := by
  refine Finset.card_lt_card (Finset.ssubset_iff_subset_ne.mpr ⟨fun x hx => ?_, fun heq => ?_⟩)
  · rw [Finset.mem_filter] at hx ⊢
    exact ⟨hx.1, hx.2.trans hlt⟩
  · have hmem : b ∈ l.toFinset.filter (· < a) :=
      Finset.mem_filter.mpr ⟨List.mem_toFinset.mpr hb, hlt⟩
    rw [← heq, Finset.mem_filter] at hmem
    exact lt_irrefl b hmem.2

/-- **Stable choices agree** as far as the lists do. -/
theorem Stable.agree {l l' chosen chosen' : List κ} (h : Stable clash l chosen)
    (h' : Stable clash l' chosen') {P : κ → Prop} (hdown : ∀ a b, b < a → P a → P b)
    (hsame : ∀ a, P a → (a ∈ l ↔ a ∈ l')) : ∀ a, P a → (a ∈ chosen ↔ a ∈ chosen') := by
  have hall : ∀ n a, ((l ++ l').toFinset.filter (· < a)).card = n → P a →
      (a ∈ chosen ↔ a ∈ chosen') := by
    intro n
    induction n using Nat.strongRecOn with
    | ind n ih =>
      rintro a rfl ha
      have hbelow : ∀ b ∈ l ++ l', b < a → (b ∈ chosen ↔ b ∈ chosen') :=
        fun b hb hlt => ih _ (card_below_lt hb hlt) b rfl (hdown a b hlt ha)
      constructor
      · intro hmem
        by_contra hnot
        obtain ⟨b, hb, hlt, hclash⟩ := h'.blocked a ((hsame a ha).mp (h.subset a hmem)) hnot
        have hold := (hbelow b (List.mem_append_right _ (h'.subset b hb)) hlt).mpr hb
        exact Bool.false_ne_true ((h.free a hmem b hold hlt.ne').symm.trans hclash)
      · intro hmem
        by_contra hnot
        obtain ⟨b, hb, hlt, hclash⟩ := h.blocked a ((hsame a ha).mpr (h'.subset a hmem)) hnot
        have hold := (hbelow b (List.mem_append_left _ (h.subset b hb)) hlt).mp hb
        exact Bool.false_ne_true ((h'.free a hmem b hold hlt.ne').symm.trans hclash)
  exact fun a ha => hall _ a rfl ha

/-! ## 2.  The greedy choice -/

/-- The loop: a claim that clashes with one that was taken is passed over. -/
def pick (clash : κ → κ → Bool) : List κ → List κ → List κ
  | _, [] => []
  | taken, a :: l => if taken.any (clash a) then pick clash taken l else a :: pick clash (a :: taken) l

/-- The claims that are taken, in their order. -/
def greedy (clash : κ → κ → Bool) (l : List κ) : List κ := pick clash [] (l.insertionSort (· ≤ ·))

omit [LinearOrder κ] in
theorem mem_of_mem_pick {l taken : List κ} {a : κ} (h : a ∈ pick clash taken l) :
    a ∈ l ∧ ∀ t ∈ taken, clash a t = false := by
  induction l generalizing taken with
  | nil => cases h
  | cons b l ih =>
    rw [pick] at h
    split_ifs at h with hb
    · exact ⟨List.mem_cons_of_mem _ (ih h).1, (ih h).2⟩
    · rcases List.mem_cons.mp h with rfl | h
      · rw [Bool.not_eq_true, List.any_eq_false] at hb
        exact ⟨List.mem_cons_self, fun t ht => Bool.eq_false_iff.mpr (hb t ht)⟩
      · exact ⟨List.mem_cons_of_mem _ (ih h).1,
          fun t ht => (ih h).2 t (List.mem_cons_of_mem _ ht)⟩

omit [LinearOrder κ] in
/-- A later claim that is taken clashes with no earlier one. -/
theorem pairwise_pick (l taken : List κ) :
    (pick clash taken l).Pairwise fun a b => clash b a = false := by
  induction l generalizing taken with
  | nil => exact List.Pairwise.nil
  | cons b l ih =>
    rw [pick]
    split_ifs
    · exact ih taken
    · exact List.Pairwise.cons (fun a ha => (mem_of_mem_pick ha).2 b List.mem_cons_self) (ih _)

theorem blocked_pick {l taken : List κ} (hl : l.Pairwise (· ≤ ·)) {a : κ} (ha : a ∈ l) :
    a ∈ pick clash taken l ∨ (∃ t ∈ taken, clash a t = true) ∨
      ∃ b ∈ pick clash taken l, b ≤ a ∧ clash a b = true := by
  induction l generalizing taken with
  | nil => cases ha
  | cons b l ih =>
    obtain ⟨hfirst, hl⟩ := List.pairwise_cons.mp hl
    rw [pick]
    split_ifs with hb
    · rcases List.mem_cons.mp ha with rfl | ha
      · exact .inr (.inl (List.any_eq_true.mp hb))
      · exact ih hl ha
    · rcases List.mem_cons.mp ha with rfl | hrest
      · exact .inl List.mem_cons_self
      · have hlater : a ∈ pick clash (b :: taken) l ∨ (∃ t ∈ b :: taken, clash a t = true) ∨
            ∃ c ∈ pick clash (b :: taken) l, c ≤ a ∧ clash a c = true := ih hl hrest
        rcases hlater with hmem | ⟨t, ht, hclash⟩ | ⟨c, hc, hle, hclash⟩
        · exact .inl (List.mem_cons_of_mem _ hmem)
        · rcases List.mem_cons.mp ht with heq | ht
          · exact .inr (.inr ⟨b, List.mem_cons_self, hfirst a hrest, heq ▸ hclash⟩)
          · exact .inr (.inl ⟨t, ht, hclash⟩)
        · exact .inr (.inr ⟨c, List.mem_cons_of_mem _ hc, hle, hclash⟩)

variable (hsymm : ∀ a b, clash a b = clash b a)

include hsymm in
/-- **The greedy choice is stable.** -/
theorem stable_greedy (l : List κ) : Stable clash l (greedy clash l) where
  subset a ha := (List.mem_insertionSort _).mp (mem_of_mem_pick ha).1
  free a ha b hb hne := by
    have hpairs : (greedy clash l).Pairwise fun a b => clash a b = false :=
      (pairwise_pick _ _).imp fun {a b} h => (hsymm a b).trans h
    have hflip : Std.Symm fun a b => clash a b = false := ⟨fun a b h => (hsymm b a).trans h⟩
    exact hpairs.forall ha hb hne
  blocked a ha hnot := by
    have hsorted : (l.insertionSort (· ≤ ·)).Pairwise (· ≤ ·) := List.pairwise_insertionSort _ _
    have hcases : a ∈ greedy clash l ∨ (∃ t ∈ [], clash a t = true) ∨
        ∃ b ∈ greedy clash l, b ≤ a ∧ clash a b = true :=
      blocked_pick hsorted ((List.mem_insertionSort _).mpr ha)
    rcases hcases with hmem | ⟨t, ht, -⟩ | ⟨b, hb, hle, hclash⟩
    · exact absurd hmem hnot
    · cases ht
    · refine ⟨b, hb, lt_of_le_of_ne hle ?_, hclash⟩
      rintro rfl
      exact hnot hb

theorem insertionSort_eq_of_perm {α : Type} {r : α → α → Prop} [DecidableRel r] [Std.Antisymm r]
    [Std.Total r] [IsTrans α r] {l l' : List α} (h : l.Perm l') :
    l.insertionSort r = l'.insertionSort r :=
  List.Perm.eq_of_pairwise' (List.pairwise_insertionSort r l) (List.pairwise_insertionSort r l')
    (((List.perm_insertionSort r l).trans h).trans (List.perm_insertionSort r l').symm)

theorem greedy_perm {l l' : List κ} (h : l.Perm l') : greedy clash l = greedy clash l' := by
  rw [greedy, greedy, insertionSort_eq_of_perm h]

include hsymm in
/-- **Claims that come later take nothing.** -/
theorem mem_greedy_append {l more : List κ} {q : κ} (hq : q ∈ greedy clash l)
    (hmore : ∀ a ∈ more, q ≤ a) : q ∈ greedy clash (l ++ more) := by
  have hstable := stable_greedy hsymm l
  refine (hstable.agree (stable_greedy hsymm (l ++ more)) (P := (· ≤ q))
    (fun a b hlt hle => (hlt.trans_le hle).le) (fun a hle => ?_) q le_rfl).mp hq
  rw [List.mem_append]
  refine ⟨.inl, fun h => h.elim id fun hnew => ?_⟩
  exact le_antisymm hle (hmore a hnew) ▸ hstable.subset q hq

end Kroker.Greedy
