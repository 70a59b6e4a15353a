import Mathlib.Data.Set.Basic

/-!
# Strongly connected components

Two points of a relation are connected where each is reached from the other.

A search that keeps the points it has entered on a stack meets a component at once when it leaves
the first point of it that it entered, the *root*.  What makes a root is local: no edge leads from
its part of the stack to the part below, and what has left the stack leads nowhere but to what has
left it too (`connected_iff_of_root`).
-/

namespace Kroker

variable {α : Type} {E : α → α → Prop}

/-- Each of the two is reached from the other. -/
def Connected (E : α → α → Prop) (a b : α) : Prop :=
  Relation.ReflTransGen E a b ∧ Relation.ReflTransGen E b a

theorem Connected.refl (a : α) : Connected E a a := ⟨.refl, .refl⟩

theorem Connected.symm {a b : α} (h : Connected E a b) : Connected E b a := ⟨h.2, h.1⟩

theorem Connected.trans {a b c : α} (h : Connected E a b) (h' : Connected E b c) :
    Connected E a c :=
  ⟨h.1.trans h'.1, h'.2.trans h.2⟩

theorem Connected.iff {a b : α} (h : Connected E a b) (c : α) :
    Connected E a c ↔ Connected E b c :=
  ⟨fun hac => h.symm.trans hac, fun hbc => h.trans hbc⟩

theorem mem_of_reaches {C : Set α} (hclosed : ∀ a ∈ C, ∀ b, E a b → b ∈ C) {a b : α} (ha : a ∈ C)
    (h : Relation.ReflTransGen E a b) : b ∈ C := by
  induction h with
  | refl => exact ha
  | tail _ hedge ih => exact hclosed _ ih _ hedge

/-- **The component of a root.**  `S` is reached from its root, leads only to itself and to what is
done, and each point of it reaches an open point that is the root or not in `S`. -/
theorem connected_iff_of_root {S done : Set α} {root : α} (hroot : root ∈ S)
    (hdisjoint : ∀ a ∈ S, a ∉ done) (hdone : ∀ a ∈ done, ∀ b, E a b → b ∈ done)
    (hleads : ∀ a ∈ S, ∀ b, E a b → b ∈ S ∨ b ∈ done)
    (hfrom : ∀ a ∈ S, Relation.ReflTransGen E root a)
    (hback : ∀ a ∈ S, ∃ b, b ∉ done ∧ (b ∈ S → b = root) ∧ Relation.ReflTransGen E a b) (a : α) :
    Connected E root a ↔ a ∈ S := by
  have hunion : ∀ a ∈ S ∪ done, ∀ b, E a b → b ∈ S ∪ done := by
    rintro a (ha | ha) b hedge
    · exact hleads a ha b hedge
    · exact .inr (hdone a ha b hedge)
  constructor
  · rintro ⟨hto, hfro⟩
    rcases mem_of_reaches hunion (.inl hroot) hto with ha | ha
    · exact ha
    · exact absurd (mem_of_reaches hdone ha hfro) (hdisjoint root hroot)
  · intro ha
    obtain ⟨b, hopen, hsame, hreach⟩ := hback a ha
    rcases mem_of_reaches hunion (.inl ha) hreach with hb | hb
    · exact ⟨hfrom a ha, hsame hb ▸ hreach⟩
    · exact absurd hb hopen

end Kroker
