import Mathlib.Tactic.Common

/-!
# Keys that are registered to who holds them

A lock file, a lease or a slot registers a key to one owner.  As long as whoever holds a key is the
one it is registered to (`Owned`), no two hold one key.  The rules say which changes keep that: a
free key is acquired, a key is released, and a key that nobody holds changes hands.
-/

namespace Kroker

variable {ι κ : Type}

/-- Whoever holds a key is the one it is registered to. -/
def Owned (owner : κ → Option ι) (holds : ι → κ → Prop) : Prop :=
  ∀ i k, holds i k → owner k = some i

namespace Owned

variable {owner owner' : κ → Option ι} {holds holds' : ι → κ → Prop}

/-- **No two hold one key.** -/
theorem exclusive (h : Owned owner holds) {i j : ι} {k : κ} (hi : holds i k) (hj : holds j k) :
    i = j :=
  Option.some.inj ((h i k hi).symm.trans (h j k hj))

theorem mono (h : Owned owner holds) (hholds : ∀ i k, holds' i k → holds i k) :
    Owned owner holds' :=
  fun i k hik => h i k (hholds i k hik)

theorem acquire (h : Owned owner holds) {i : ι} {k : κ} (hfree : owner k = none)
    (howner : owner' k = some i) (hother : ∀ l, l ≠ k → owner' l = owner l)
    (hholds : ∀ j l, holds' j l → holds j l ∨ j = i ∧ l = k) : Owned owner' holds' := by
  intro j l hjl
  rcases hholds j l hjl with hold | ⟨rfl, rfl⟩
  · have hne : l ≠ k := by
      rintro rfl
      rw [h j l hold] at hfree
      cases hfree
    rw [hother l hne]
    exact h j l hold
  · exact howner

theorem hand (h : Owned owner holds) {k : κ} (hother : ∀ l, l ≠ k → owner' l = owner l)
    (hholds : ∀ j l, holds' j l → holds j l) (hnobody : ∀ j, ¬holds' j k) :
    Owned owner' holds' := by
  intro j l hjl
  have hne : l ≠ k := by
    rintro rfl
    exact hnobody j hjl
  rw [hother l hne]
  exact h j l (hholds j l hjl)

theorem release (h : Owned owner holds) {i : ι} {k : κ} (hik : holds i k)
    (hother : ∀ l, l ≠ k → owner' l = owner l) (hholds : ∀ j l, holds' j l → holds j l)
    (hreleased : ¬holds' i k) : Owned owner' holds' := by
  refine h.hand hother hholds fun j hjk => ?_
  obtain rfl := h.exclusive hik (hholds j k hjk)
  exact hreleased hjk

end Owned

end Kroker
