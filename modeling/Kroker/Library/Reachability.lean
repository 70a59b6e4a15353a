import Kroker.Library.Dict
import Mathlib.Order.WellFoundedSet

/-!
# Searching a finite graph

A graph on string-named nodes is a successor function `succs`.  `searchLoop` is the usual worklist
search with a stack and a set of seen nodes; `mem_search_iff` says that with enough fuel it finds
exactly the nodes reachable from where it started, and `unseen` measures how much fuel is enough:
one unit for each node that can still be seen.

The search is stated for any successor function, so that a caller only has to say what its
adjacency is.
-/

namespace Kroker

namespace Search

variable (succs : String → List String)

/-- `b` is a successor of `a`. -/
def Edge (a b : String) : Prop := b ∈ succs a

/-- `b` is reachable from `a`, possibly in no steps. -/
def Reach : String → String → Prop := Relation.ReflTransGen (Edge succs)

/-- Push the successors that were not seen before, and see them. -/
def pushUnseen : List String → List String → StrSet → List String × StrSet
  | [], stack, seen => (stack, seen)
  | s :: ss, stack, seen =>
    if s ∈ seen then pushUnseen ss stack seen else pushUnseen ss (s :: stack) (seen.insert s)

/-- The worklist search: pop a node, push its unseen successors. -/
def searchLoop : ℕ → List String → StrSet → StrSet
  | 0, _, seen => seen
  | _ + 1, [], seen => seen
  | fuel + 1, n :: stack, seen =>
    searchLoop fuel (pushUnseen (succs n) stack seen).1 (pushUnseen (succs n) stack seen).2

/-- Everything seen by a search from `start`. -/
def search (fuel : ℕ) (start : String) : StrSet :=
  searchLoop succs fuel [start] ((∅ : StrSet).insert start)

/-! ## One push -/

theorem mem_pushUnseen_seen (ss stack : List String) (seen : StrSet) (x : String) :
    x ∈ (pushUnseen ss stack seen).2 ↔ x ∈ seen ∨ x ∈ ss := by
  induction ss generalizing stack seen with
  | nil => simp [pushUnseen]
  | cons s ss ih =>
    rw [pushUnseen]
    split
    · next hs =>
      rw [ih, List.mem_cons]
      refine ⟨fun h => h.imp_right Or.inr, fun h => ?_⟩
      rcases h with h | rfl | h
      · exact Or.inl h
      · exact Or.inl hs
      · exact Or.inr h
    · rw [ih, StrSet.mem_insert, List.mem_cons, eq_comm]
      tauto

theorem mem_pushUnseen_stack (ss stack : List String) (seen : StrSet) (x : String) :
    x ∈ (pushUnseen ss stack seen).1 ↔ x ∈ stack ∨ (x ∈ ss ∧ x ∉ seen) := by
  induction ss generalizing stack seen with
  | nil => simp [pushUnseen]
  | cons s ss ih =>
    rw [pushUnseen]
    split
    · next hs =>
      rw [ih, List.mem_cons]
      refine or_congr_right ⟨fun h => ⟨Or.inr h.1, h.2⟩, fun h => ⟨?_, h.2⟩⟩
      exact h.1.resolve_left fun hx => h.2 (hx ▸ hs)
    · next hs =>
      rw [ih, StrSet.mem_insert, List.mem_cons, List.mem_cons]
      constructor
      · rintro ((rfl | h) | ⟨h, hx⟩)
        · exact Or.inr ⟨Or.inl rfl, hs⟩
        · exact Or.inl h
        · exact Or.inr ⟨Or.inr h, fun h' => hx (Or.inr h')⟩
      · rintro (h | ⟨rfl | h, hx⟩)
        · exact Or.inl (Or.inr h)
        · exact Or.inl (Or.inl rfl)
        · by_cases hsx : s = x
          · exact Or.inl (Or.inl hsx.symm)
          · exact Or.inr ⟨h, fun h' => h'.elim hsx hx⟩

variable {univ : Finset String}

theorem card_filter_not_succ {p q : String → Prop} [DecidablePred p] [DecidablePred q] {s : String}
    (hq : ∀ x, q x ↔ s = x ∨ p x) (hs : s ∈ univ) (hp : ¬p s) :
    (univ.filter fun x => ¬q x).card + 1 = (univ.filter fun x => ¬p x).card := by
  have hmem : s ∈ univ.filter fun x => ¬p x := Finset.mem_filter.mpr ⟨hs, hp⟩
  have herase : (univ.filter fun x => ¬q x) = (univ.filter fun x => ¬p x).erase s := by
    ext x
    simp only [Finset.mem_filter, Finset.mem_erase, hq, not_or]
    constructor
    · rintro ⟨hu, hne, hx⟩
      exact ⟨fun h => hne h.symm, hu, hx⟩
    · rintro ⟨hne, hu, hx⟩
      exact ⟨hu, fun h => hne h.symm, hx⟩
  rw [herase, Finset.card_erase_of_mem hmem]
  have := Finset.card_pos.mpr ⟨s, hmem⟩
  omega

/-- How many nodes of a finite universe are still unseen. -/
def unseen (univ : Finset String) (seen : StrSet) : ℕ := (univ.filter fun x => x ∉ seen).card

theorem unseen_insert {seen : StrSet} {s : String} (hs : s ∈ univ) (hseen : s ∉ seen) :
    unseen univ (seen.insert s) + 1 = unseen univ seen :=
  card_filter_not_succ (fun x => StrSet.mem_insert seen s x) hs hseen

theorem length_pushUnseen {ss : List String} (hss : ∀ s ∈ ss, s ∈ univ) (stack : List String)
    (seen : StrSet) :
    (pushUnseen ss stack seen).1.length + unseen univ (pushUnseen ss stack seen).2 =
      stack.length + unseen univ seen := by
  induction ss generalizing stack seen with
  | nil => rfl
  | cons s ss ih =>
    have hss' : ∀ s ∈ ss, s ∈ univ := fun x hx => hss x (List.mem_cons_of_mem _ hx)
    rw [pushUnseen]
    split
    · exact ih hss' stack seen
    · next hs =>
      rw [ih hss', List.length_cons, ← unseen_insert (hss s List.mem_cons_self) hs]
      omega

/-! ## The whole search -/

/-- What holds of the stack and the seen set throughout a search from `start`: every seen node is
reachable, every stacked node is seen, and a seen node off the stack has all its successors
seen. -/
structure Inv (start : String) (stack : List String) (seen : StrSet) : Prop where
  start_seen : start ∈ seen
  reach : ∀ x ∈ seen, Reach succs start x
  stack_seen : ∀ x ∈ stack, x ∈ seen
  closed : ∀ x ∈ seen, x ∉ stack → ∀ y ∈ succs x, y ∈ seen

variable {succs}

theorem Inv.pop {start n : String} {stack : List String} {seen : StrSet}
    (h : Inv succs start (n :: stack) seen) :
    Inv succs start (pushUnseen (succs n) stack seen).1 (pushUnseen (succs n) stack seen).2 where
  start_seen := (mem_pushUnseen_seen _ _ _ _).mpr (Or.inl h.start_seen)
  reach := by
    intro x hx
    rcases (mem_pushUnseen_seen _ _ _ _).mp hx with hx | hx
    · exact h.reach x hx
    · exact (h.reach n (h.stack_seen n List.mem_cons_self)).tail hx
  stack_seen := by
    intro x hx
    rw [mem_pushUnseen_seen]
    rcases (mem_pushUnseen_stack _ _ _ _).mp hx with hx | hx
    · exact Or.inl (h.stack_seen x (List.mem_cons_of_mem _ hx))
    · exact Or.inr hx.1
  closed := by
    intro x hx hstack y hy
    rw [mem_pushUnseen_stack, not_or] at hstack
    rw [mem_pushUnseen_seen]
    rcases (mem_pushUnseen_seen _ _ _ _).mp hx with hx | hx
    · by_cases hxn : x = n
      · exact Or.inr (hxn ▸ hy)
      · exact Or.inl (h.closed x hx (fun hm => (List.mem_cons.mp hm).elim hxn hstack.1) y hy)
    · by_cases hxs : x ∈ seen
      · by_cases hxn : x = n
        · exact Or.inr (hxn ▸ hy)
        · exact Or.inl (h.closed x hxs (fun hm => (List.mem_cons.mp hm).elim hxn hstack.1) y hy)
      · exact absurd ⟨hx, hxs⟩ hstack.2

theorem Inv.mem_of_reach {start : String} {seen : StrSet} (h : Inv succs start [] seen)
    {x : String} (hx : Reach succs start x) : x ∈ seen := by
  induction hx with
  | refl => exact h.start_seen
  | tail _ hyz ih => exact h.closed _ ih List.not_mem_nil _ hyz

theorem mem_searchLoop_iff (huniv : ∀ a, ∀ b ∈ succs a, b ∈ univ) {start : String} (fuel : ℕ)
    {stack : List String} {seen : StrSet} (h : Inv succs start stack seen)
    (hfuel : stack.length + unseen univ seen ≤ fuel) (x : String) :
    x ∈ searchLoop succs fuel stack seen ↔ Reach succs start x := by
  induction fuel generalizing stack seen with
  | zero =>
    have hstack : stack = [] := List.eq_nil_of_length_eq_zero (by omega)
    subst hstack
    exact ⟨h.reach x, h.mem_of_reach⟩
  | succ fuel ih =>
    cases stack with
    | nil => exact ⟨h.reach x, h.mem_of_reach⟩
    | cons n stack =>
      rw [searchLoop]
      refine ih h.pop ?_
      rw [length_pushUnseen (huniv n), ← Nat.add_le_add_iff_right (n := 1)]
      rw [List.length_cons] at hfuel
      omega

theorem inv_start (start : String) :
    Inv succs start [start] ((∅ : StrSet).insert start) where
  start_seen := by rw [StrSet.mem_insert]; exact Or.inl rfl
  reach := by
    intro x hx
    rw [StrSet.mem_insert] at hx
    rcases hx with rfl | hx
    · exact Relation.ReflTransGen.refl
    · simp at hx
  stack_seen := by
    intro x hx
    rw [List.mem_singleton] at hx
    rw [StrSet.mem_insert]
    exact Or.inl hx.symm
  closed := by
    intro x hx hstack
    rw [StrSet.mem_insert] at hx
    rcases hx with rfl | hx
    · exact absurd List.mem_cons_self hstack
    · simp at hx

/-- **The search finds exactly the reachable nodes**, given fuel for every node it can see. -/
theorem mem_search_iff (huniv : ∀ a, ∀ b ∈ succs a, b ∈ univ) {fuel : ℕ}
    (hfuel : univ.card + 1 ≤ fuel) (start x : String) :
    x ∈ search succs fuel start ↔ Reach succs start x := by
  refine mem_searchLoop_iff huniv fuel (inv_start start) ?_ x
  have : unseen univ ((∅ : StrSet).insert start) ≤ univ.card := Finset.card_filter_le _ _
  rw [List.length_singleton]
  omega

/-! ## Acyclicity -/

theorem wellFounded_of_flip {r : String → String → Prop} (univ : Set String)
    (huniv : univ.Finite) (hr : ∀ a b, r a b → a ∈ univ ∧ b ∈ univ)
    (hwf : WellFounded fun b a => r a b) : WellFounded r := by
  have hirrefl : ∀ x, ¬Relation.TransGen r x x := by
    intro x hx
    have hswap : Relation.TransGen (fun b a => r a b) x x := Relation.transGen_swap.mp hx
    exact hwf.transGen.asymmetric x x hswap hswap
  have : IsStrictOrder String (Relation.TransGen r) :=
    { irrefl := hirrefl, trans := fun _ _ _ => Relation.TransGen.trans }
  have hon : univ.WellFoundedOn (Relation.TransGen r) := huniv.wellFoundedOn
  refine Subrelation.wf ?_ (Set.wellFoundedOn_iff.mp hon)
  exact fun {a b} hab => ⟨Relation.TransGen.single hab, hr a b hab⟩

end Search

end Kroker
