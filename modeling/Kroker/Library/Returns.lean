import Kroker.Library.Except

/-!
# Computations that return on a condition

`Returns x p y` says of a computation that may raise when it does not, and what it then returns.  It is
found for a computation from what it is made of: one lemma for each way to put computations together.

A loop carries a state, so whether a round returns may depend on the rounds before it: `Throughout` is
the condition of a loop, stated of the items that stand before each item.
-/

namespace Kroker

variable {ε α β σ : Type}

/-- The computation returns `y` where `p` holds, and raises where it does not. -/
def Returns (x : Except ε α) (p : Prop) (y : α) : Prop := ∀ z, x = .ok z ↔ p ∧ z = y

namespace Returns

variable {x : Except ε α} {p q : Prop} {y z : α}

theorem eq_ok (h : Returns x p y) (hp : p) : x = .ok y := (h y).mpr ⟨hp, rfl⟩

theorem congr (h : Returns x p y) (hpq : p ↔ q) (hyz : p → y = z) : Returns x q z := by
  intro r
  rw [h r, ← hpq]
  exact and_congr_right fun hp => by rw [hyz hp]

protected theorem pure (y : α) : Returns (pure y : Except ε α) True y := by
  intro z
  rw [true_and]
  exact ⟨fun h => (Except.ok.inj h).symm, fun h => congrArg Except.ok h.symm⟩

theorem raises {e : ε} (hx : x = .error e) (hp : ¬p) : Returns x p y :=
  fun _ => ⟨fun h => (nomatch hx.symm.trans h), fun h => absurd h.1 hp⟩

theorem bind (hx : Returns x p y) {f : α → Except ε β} {b : β} (hf : Returns (f y) q b) :
    Returns (x >>= f) (p ∧ q) b := by
  intro z
  rw [bind_eq_ok]
  constructor
  · rintro ⟨a, ha, hz⟩
    obtain ⟨hp, rfl⟩ := (hx a).mp ha
    obtain ⟨hq, rfl⟩ := (hf z).mp hz
    exact ⟨⟨hp, hq⟩, rfl⟩
  · rintro ⟨⟨hp, hq⟩, rfl⟩
    exact ⟨y, hx.eq_ok hp, hf.eq_ok hq⟩

protected theorem map (hx : Returns x p y) (f : α → β) : Returns (x.map f) p (f y) := by
  intro z
  rw [map_eq_ok]
  constructor
  · rintro ⟨a, ha, rfl⟩
    obtain ⟨hp, rfl⟩ := (hx a).mp ha
    exact ⟨hp, rfl⟩
  · rintro ⟨hp, rfl⟩
    exact ⟨y, hx.eq_ok hp, rfl⟩

theorem ite {c : Prop} [Decidable c] {x' : Except ε α} {p' : Prop} {y' : α}
    (h : Returns x p y) (h' : Returns x' p' y') :
    Returns (if c then x else x') ((c → p) ∧ (¬c → p')) (if c then y else y') := by
  by_cases hc : c
  · rw [if_pos hc, if_pos hc]
    exact h.congr ⟨fun hp => ⟨fun _ => hp, fun hn => absurd hc hn⟩, fun hboth => hboth.1 hc⟩
      fun _ => rfl
  · rw [if_neg hc, if_neg hc]
    exact h'.congr ⟨fun hp => ⟨fun hn => absurd hn hc, fun _ => hp⟩, fun hboth => hboth.2 hc⟩
      fun _ => rfl

protected theorem mapM {f : α → Except ε β} {P : α → Prop} {g : α → β}
    (h : ∀ a, Returns (f a) (P a) (g a)) (xs : List α) :
    Returns (xs.mapM f) (∀ a ∈ xs, P a) (xs.map g) := by
  induction xs with
  | nil =>
    rw [List.mapM_nil, List.map_nil]
    exact (Returns.pure []).congr (iff_of_true trivial nofun)
      fun _ => rfl
  | cons a xs ih =>
    rw [List.mapM_cons, List.map_cons]
    refine ((h a).bind (ih.bind (Returns.pure (g a :: xs.map g)))).congr ?_ fun _ => rfl
    rw [List.forall_mem_cons, and_true]

end Returns

/-! ## Loops -/

/-- The condition holds at each item, in the state that the items before it leave. -/
def Throughout (P : σ → α → Prop) (g : σ → α → σ) (s : σ) (xs : List α) : Prop :=
  ∀ earlier x later, xs = earlier ++ x :: later → P (earlier.foldl g s) x

theorem throughout_cons {P : σ → α → Prop} {g : σ → α → σ} {s : σ} {x : α} {xs : List α} :
    Throughout P g s (x :: xs) ↔ P s x ∧ Throughout P g (g s x) xs := by
  constructor
  · intro h
    refine ⟨h [] x xs rfl, fun earlier y later hxs => ?_⟩
    exact h (x :: earlier) y later (by rw [hxs, List.cons_append])
  · rintro ⟨hx, hxs⟩ earlier y later h
    cases earlier with
    | nil =>
      obtain ⟨rfl, -⟩ := List.cons.inj h
      exact hx
    | cons z earlier =>
      obtain ⟨rfl, hrest⟩ := List.cons.inj h
      exact hxs earlier y later hrest

theorem throughout_const {P : α → Prop} {g : σ → α → σ} {s : σ} {xs : List α} :
    Throughout (fun _ => P) g s xs ↔ ∀ x ∈ xs, P x := by
  constructor
  · intro h x hx
    obtain ⟨earlier, later, rfl⟩ := List.append_of_mem hx
    exact h earlier x later rfl
  · rintro h earlier x later rfl
    exact h x (List.mem_append_right _ List.mem_cons_self)

end Kroker
