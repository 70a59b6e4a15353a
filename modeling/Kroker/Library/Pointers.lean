import Mathlib.Logic.Relation

/-!
# Following pointers

A forest of forward pointers is a partial function `next`: an element either points at another or is
a head.  `Ends next a b` says that following the pointers from `a` stops, after finitely many steps,
at the head `b`.

Two facts carry everything that is proved with it.  Where every element ends, no element is
reachable from itself (`not_transGen_self`), so acyclicity needs no counting.  And pointers may be
redirected at will as long as each new one leads to a head (`Ends.redirect`): an element that
pointed on may become a head, and an element may be pointed at a head, but nothing may be pointed at
an element that itself points on.
-/

namespace Kroker

variable {α : Type}

/-- Following the pointers from `a` stops at the head `b`. -/
inductive Ends (next : α → Option α) : α → α → Prop
  | here {a : α} (h : next a = none) : Ends next a a
  | step {a b c : α} (h : next a = some b) (rest : Ends next b c) : Ends next a c

namespace Ends

variable {next next' : α → Option α}

/-- **Redirecting pointers to heads keeps every path finite.** -/
theorem redirect (hredirect : ∀ a, next' a = next a ∨ next' a = none ∨
    ∃ b, next' a = some b ∧ next' b = none) {a b : α} (h : Ends next a b) :
    ∃ c, Ends next' a c := by
  induction h with
  | @here a ha =>
    rcases hredirect a with hkept | hnone | ⟨b, hab, hb⟩
    · exact ⟨a, here (hkept.trans ha)⟩
    · exact ⟨a, here hnone⟩
    · exact ⟨b, step hab (here hb)⟩
  | @step a b c hab _ ih =>
    rcases hredirect a with hkept | hnone | ⟨d, had, hd⟩
    · obtain ⟨e, he⟩ := ih
      exact ⟨e, step (hkept.trans hab) he⟩
    · exact ⟨a, here hnone⟩
    · exact ⟨d, step had (here hd)⟩

theorem not_transGen_self {a b : α} (h : Ends next a b) :
    ¬Relation.TransGen (fun x y => next x = some y) a a := by
  induction h with
  | here ha =>
    intro hcycle
    obtain ⟨b, hab, -⟩ := Relation.TransGen.head'_iff.mp hcycle
    exact absurd (ha.symm.trans hab) (by simp)
  | @step a b c hab _ ih =>
    intro hcycle
    obtain ⟨d, had, hda⟩ := Relation.TransGen.head'_iff.mp hcycle
    obtain rfl : b = d := Option.some.inj (hab.symm.trans had)
    exact ih (Relation.TransGen.tail'_iff.mpr ⟨a, hda, hab⟩)

end Ends

end Kroker
