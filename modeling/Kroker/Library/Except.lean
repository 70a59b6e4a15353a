import Mathlib.Data.List.Perm.Basic

/-!
# Computations that may raise

A function of the program that raises returns an `Except`.  `bind_eq_ok` takes a sequence of such
calls apart, and the other rules do it for the loops: `forall₂_of_mapM_eq_ok` for a comprehension,
`of_foldlM_eq_ok` and `forall_mem_of_foldlM_eq_ok` for a loop over an accumulator.  A comprehension
over a permutation permutes the results (`mapM_perm`).
-/

namespace Kroker

variable {α β ε : Type}

variable {f : α → Except ε β}

theorem bind_eq_ok {x : Except ε α} {b : β} :
    (x >>= f) = .ok b ↔ ∃ a, x = .ok a ∧ f a = .ok b := by
  cases x with
  | error e =>
    constructor
    · intro h
      cases h
    · rintro ⟨a, h, -⟩
      cases h
  | ok a =>
    constructor
    · exact fun h => ⟨a, rfl, h⟩
    · rintro ⟨a', h, hf⟩
      cases h
      exact hf

theorem map_eq_ok {x : Except ε α} {f : α → β} {b : β} :
    x.map f = .ok b ↔ ∃ a, x = .ok a ∧ f a = b := by
  cases x with
  | error e =>
    constructor
    · intro h
      cases h
    · rintro ⟨a, h, -⟩
      cases h
  | ok a =>
    constructor
    · exact fun h => ⟨a, rfl, Except.ok.inj h⟩
    · rintro ⟨a', h, hf⟩
      cases h
      exact congrArg Except.ok hf

variable {l : List α}

theorem forall₂_of_mapM_eq_ok {r : List β} (h : l.mapM f = .ok r) :
    List.Forall₂ (fun a b => f a = .ok b) l r := by
  induction l generalizing r with
  | nil =>
    rw [List.mapM_nil] at h
    obtain rfl := Except.ok.inj h
    exact List.Forall₂.nil
  | cons a l ih =>
    rw [List.mapM_cons] at h
    obtain ⟨b, hb, hrest⟩ := bind_eq_ok.mp h
    obtain ⟨bs, hbs, hr⟩ := bind_eq_ok.mp hrest
    obtain rfl := Except.ok.inj hr
    exact List.Forall₂.cons hb (ih hbs)

theorem exists_of_mapM_eq_ok {r : List β} (h : l.mapM f = .ok r) :
    (∀ b ∈ r, ∃ a ∈ l, f a = .ok b) ∧ ∀ a ∈ l, ∃ b ∈ r, f a = .ok b := by
  have hall := forall₂_of_mapM_eq_ok h
  clear h
  induction hall with
  | nil => exact ⟨nofun, nofun⟩
  | @cons a b l r hab _ ih =>
    refine ⟨fun c hc => ?_, fun c hc => ?_⟩
    · rcases List.mem_cons.mp hc with rfl | hc
      · exact ⟨a, List.mem_cons_self, hab⟩
      · obtain ⟨d, hd, hf⟩ := ih.1 c hc
        exact ⟨d, List.mem_cons_of_mem _ hd, hf⟩
    · rcases List.mem_cons.mp hc with rfl | hc
      · exact ⟨b, List.mem_cons_self, hab⟩
      · obtain ⟨d, hd, hf⟩ := ih.2 c hc
        exact ⟨d, List.mem_cons_of_mem _ hd, hf⟩

theorem isOk_mapM_iff :
    (l.mapM f).isOk = true ↔ ∀ a ∈ l, (f a).isOk = true := by
  induction l with
  | nil => exact iff_of_true rfl nofun
  | cons a l ih =>
    rw [List.mapM_cons, List.forall_mem_cons, ← ih]
    cases f a with
    | error e => exact iff_of_false Bool.false_ne_true fun h => Bool.false_ne_true h.1
    | ok b =>
      cases l.mapM f with
      | error e => exact iff_of_false Bool.false_ne_true fun h => Bool.false_ne_true h.2
      | ok bs => exact iff_of_true rfl ⟨rfl, rfl⟩

theorem mapM_eq_ok_map {g : α → β} (h : ∀ a ∈ l, f a = .ok (g a)) : l.mapM f = .ok (l.map g) := by
  induction l with
  | nil => rfl
  | cons a l ih =>
    rw [List.forall_mem_cons] at h
    rw [List.mapM_cons, h.1, ih h.2, List.map_cons]
    rfl

theorem mapM_eq_ok_of_forall₂ {r : List β} (h : List.Forall₂ (fun a b => f a = .ok b) l r) :
    l.mapM f = .ok r := by
  induction h with
  | nil => rfl
  | cons hb _ ih =>
    rw [List.mapM_cons, hb, ih]
    rfl

theorem mapM_perm {l' : List α} {r : List β} (h : l'.Perm l) (hr : l.mapM f = .ok r) :
    ∃ r', l'.mapM f = .ok r' ∧ r'.Perm r := by
  obtain ⟨r', hr', hperm⟩ := List.perm_comp_forall₂ h (forall₂_of_mapM_eq_ok hr)
  exact ⟨r', mapM_eq_ok_of_forall₂ hr', hperm⟩

theorem isOk_map (x : Except ε α) (f : α → β) : (x.map f).isOk = x.isOk := by
  cases x <;> rfl

theorem forall_mem_of_mapM_eq_ok {P : β → Prop} {r : List β} (h : l.mapM f = .ok r)
    (hf : ∀ a b, f a = .ok b → P b) : ∀ b ∈ r, P b := by
  intro b hb
  obtain ⟨a, -, hab⟩ := (exists_of_mapM_eq_ok h).1 b hb
  exact hf a b hab

theorem of_foldlM_eq_ok {f : β → α → Except ε β} {P : β → Prop} {b r : β}
    (hstep : ∀ a ∈ l, ∀ b b', P b → f b a = .ok b' → P b') (hb : P b) (h : l.foldlM f b = .ok r) :
    P r := by
  induction l generalizing b with
  | nil =>
    rw [List.foldlM_nil] at h
    obtain rfl := Except.ok.inj h
    exact hb
  | cons a l ih =>
    rw [List.foldlM_cons] at h
    obtain ⟨b', hb', hrest⟩ := bind_eq_ok.mp h
    exact ih (fun a ha => hstep a (List.mem_cons_of_mem _ ha))
      (hstep a List.mem_cons_self b b' hb hb') hrest

theorem forall_mem_of_foldlM_eq_ok {f : β → α → Except ε β} {Q : α → β → Prop} {b r : β}
    (hround : ∀ a ∈ l, ∀ b b', f b a = .ok b' → Q a b')
    (hkeep : ∀ a ∈ l, ∀ c b b', Q c b → f b a = .ok b' → Q c b') (h : l.foldlM f b = .ok r) :
    ∀ a ∈ l, Q a r := by
  induction l generalizing b with
  | nil => exact nofun
  | cons a l ih =>
    rw [List.foldlM_cons] at h
    obtain ⟨b', hb', hrest⟩ := bind_eq_ok.mp h
    intro c hc
    rcases List.mem_cons.mp hc with rfl | hc
    · exact of_foldlM_eq_ok (P := Q c)
        (fun a ha b b' => hkeep a (List.mem_cons_of_mem _ ha) c b b')
        (hround c List.mem_cons_self b b' hb') hrest
    · exact ih (fun a ha => hround a (List.mem_cons_of_mem _ ha))
        (fun a ha => hkeep a (List.mem_cons_of_mem _ ha)) hrest c hc

end Kroker
