import Mathlib.Tactic.Common

/-!
# Boards that show what is owed

A board shows under each key at most one notice, of some kind, and things of these kinds are owed
under the keys.  It is exact where what it shows is what is owed (`ExactAt`).  A change to the
board, or to what is owed, touches some keys: the board stays exact exactly when it is exact at
those (`Exact.iff_of_frame`), and at a key that shows nothing, a notice, or what it showed before,
this says what is owed there.

What is owed is owed by parties that wait, one of which goes on at a time: `exists_mem_iff` and
`exists_mem_set_iff` part the one that goes on from the others.
-/

namespace Kroker

variable {κ τ : Type}

def ExactAt (board : κ → Option τ) (owed : τ → κ → Prop) (k : κ) : Prop :=
  ∀ t, board k = some t ↔ owed t k

def Exact (board : κ → Option τ) (owed : τ → κ → Prop) : Prop :=
  ∀ k, ExactAt board owed k

variable {board board' : κ → Option τ} {owed owed' : τ → κ → Prop} {k : κ}

namespace ExactAt

theorem congr (hboard : board' k = board k) (howed : ∀ t, owed' t k ↔ owed t k) :
    ExactAt board' owed' k ↔ ExactAt board owed k := by
  unfold ExactAt
  simp only [hboard, howed]

theorem iff_of_none (h : board k = none) : ExactAt board owed k ↔ ∀ t, ¬owed t k := by
  unfold ExactAt
  simp [h]

theorem iff_of_some {t : τ} (h : board k = some t) :
    ExactAt board owed k ↔ owed t k ∧ ∀ u, u ≠ t → ¬owed u k := by
  unfold ExactAt
  rw [h]
  constructor
  · intro hexact
    refine ⟨(hexact t).mp rfl, fun u hu howed => hu ?_⟩
    exact (Option.some.inj ((hexact u).mpr howed)).symm
  · rintro ⟨howed, hothers⟩ u
    by_cases hu : u = t
    · subst hu
      exact iff_of_true rfl howed
    · exact iff_of_false (fun h => hu (Option.some.inj h).symm) (hothers u hu)

theorem iff_of_kept (h : ExactAt board owed k) (hboard : board' k = board k) :
    ExactAt board' owed' k ↔ ∀ t, owed' t k ↔ owed t k := by
  unfold ExactAt
  refine forall_congr' fun t => ?_
  rw [hboard, h t]
  exact iff_comm

end ExactAt

/-- **The frame rule**: a board that is exact stays so exactly when it is exact at the keys that a
change touches. -/
theorem Exact.iff_of_frame (h : Exact board owed) (touched : κ → Prop)
    (hboard : ∀ k, ¬touched k → board' k = board k)
    (howed : ∀ k, ¬touched k → ∀ t, owed' t k ↔ owed t k) :
    Exact board' owed' ↔ ∀ k, touched k → ExactAt board' owed' k := by
  constructor
  · exact fun hexact k _ => hexact k
  · intro hexact k
    by_cases hk : touched k
    · exact hexact k hk
    · exact (ExactAt.congr (hboard k hk) (howed k hk)).mpr (h k)

section

variable (h : Exact board owed) (touched : κ → Prop)
  (hboard : ∀ k, ¬touched k → board' k = board k)
  (howed : ∀ k, ¬touched k → ∀ t, owed' t k ↔ owed t k)

include h hboard howed

theorem Exact.erase_iff (hnone : ∀ k, touched k → board' k = none) :
    Exact board' owed' ↔ ∀ k, touched k → ∀ t, ¬owed' t k := by
  rw [h.iff_of_frame touched hboard howed]
  exact forall₂_congr fun k hk => ExactAt.iff_of_none (hnone k hk)

theorem Exact.enter_iff {t : τ} (hsome : ∀ k, touched k → board' k = some t) :
    Exact board' owed' ↔ ∀ k, touched k → owed' t k ∧ ∀ u, u ≠ t → ¬owed' u k := by
  rw [h.iff_of_frame touched hboard howed]
  exact forall₂_congr fun k hk => ExactAt.iff_of_some (hsome k hk)

end

theorem Exact.keep_iff (h : Exact board owed) (hboard : ∀ k, board' k = board k) :
    Exact board' owed' ↔ ∀ k t, owed' t k ↔ owed t k :=
  forall_congr' fun k => ExactAt.iff_of_kept (h k) (hboard k)

/-! ## The party that goes on, and the others -/

variable {α : Type} {l : List α} {i : ℕ} {x : α}

theorem exists_mem_iff (hx : l[i]? = some x) (p : α → Prop) :
    (∃ z ∈ l, p z) ↔ p x ∨ ∃ z ∈ l.eraseIdx i, p z := by
  induction l generalizing i with
  | nil => cases hx
  | cons y l ih =>
    cases i with
    | zero =>
      obtain rfl := Option.some.inj hx
      simp
    | succ i =>
      have hrest := ih (i := i) hx
      simp only [List.eraseIdx_cons_succ, List.mem_cons, exists_eq_or_imp, hrest]
      exact or_left_comm

theorem exists_mem_set_iff (hx : l[i]? = some x) (y : α) (p : α → Prop) :
    (∃ z ∈ l.set i y, p z) ↔ p y ∨ ∃ z ∈ l.eraseIdx i, p z := by
  have hi : i < l.length := (List.getElem?_eq_some_iff.mp hx).1
  have hy : (l.set i y)[i]? = some y := by
    rw [List.getElem?_set_self hi]
  rw [exists_mem_iff hy, List.eraseIdx_set_eq]

end Kroker
