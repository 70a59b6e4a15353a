import Mathlib.Tactic.Common

/-!
# Scripts

A script acts on a world.  It ends with a value or an error, leaves the world as it has made it, and
what it did on the way is its trace.  An error ends a script, unless it is attempted.

A property of each thing that is done is `Emits`, a property of what a script returns and leaves is
`Ensures`, and what it returns is read off its result; all are taken apart at a bind (`emits_bind`,
`ensures_bind`, `exists_of_bind_ok`).  A `Triple` also says what an error leaves behind.
-/

namespace Kroker

structure Script.Outcome (σ κ ε α : Type) where
  result : Except ε α
  world : σ
  trace : List κ

/-- A program that acts on a world, and records what it does. -/
def Script (σ κ ε α : Type) : Type := σ → Script.Outcome σ κ ε α

namespace Script

variable {σ κ ε α β : Type}

instance : Monad (Script σ κ ε) where
  pure a := fun s => ⟨.ok a, s, []⟩
  bind p f := fun s =>
    match p s with
    | ⟨.ok a, s', trace⟩ => ⟨(f a s').result, (f a s').world, trace ++ (f a s').trace⟩
    | ⟨.error e, s', trace⟩ => ⟨.error e, s', trace⟩

def throw (e : ε) : Script σ κ ε α := fun s => ⟨.error e, s, []⟩

/-- What can be seen of the world. -/
def look (f : σ → α) : Script σ κ ε α := fun s => ⟨.ok (f s), s, []⟩

/-- The world is changed. -/
def update (f : σ → σ) : Script σ κ ε Unit := fun s => ⟨.ok (), f s, []⟩

/-- Something is done that leaves the world as it is. -/
def tell (k : κ) : Script σ κ ε Unit := fun s => ⟨.ok (), s, [k]⟩

/-- A script whose error is caught. -/
def attempt (p : Script σ κ ε α) : Script σ κ ε (Except ε α) :=
  fun s => ⟨.ok (p s).result, (p s).world, (p s).trace⟩

/-! ## 1.  What a script leaves -/

section Outcomes

variable {s : σ} {p : Script σ κ ε α} {f : α → Script σ κ ε β} {a : α} {e : ε}

@[simp] theorem pure_run : (pure a : Script σ κ ε α) s = ⟨.ok a, s, []⟩ := rfl

@[simp] theorem throw_run : (throw e : Script σ κ ε α) s = ⟨.error e, s, []⟩ := rfl

@[simp] theorem look_run {g : σ → α} : (look g : Script σ κ ε α) s = ⟨.ok (g s), s, []⟩ := rfl

@[simp] theorem update_run {g : σ → σ} : (update g : Script σ κ ε Unit) s = ⟨.ok (), g s, []⟩ := rfl

@[simp] theorem tell_run {k : κ} : (tell k : Script σ κ ε Unit) s = ⟨.ok (), s, [k]⟩ := rfl

@[simp] theorem attempt_run : attempt p s = ⟨.ok (p s).result, (p s).world, (p s).trace⟩ := rfl

theorem bind_of_ok (h : (p s).result = .ok a) :
    (p >>= f) s = ⟨(f a (p s).world).result, (f a (p s).world).world,
      (p s).trace ++ (f a (p s).world).trace⟩ := by
  change (match p s with
    | ⟨.ok a, s', trace⟩ => (⟨(f a s').result, (f a s').world, trace ++ (f a s').trace⟩ : Outcome ..)
    | ⟨.error e, s', trace⟩ => ⟨.error e, s', trace⟩) = _
  cases hp : p s with
  | mk result world trace =>
    rw [hp] at h
    cases h
    rfl

theorem bind_of_eq {s' : σ} {trace : List κ} (h : p s = ⟨.ok a, s', trace⟩) :
    (p >>= f) s = ⟨(f a s').result, (f a s').world, trace ++ (f a s').trace⟩ := by
  have hresult : (p s).result = .ok a := by rw [h]
  rw [bind_of_ok hresult, h]

theorem bind_of_error (h : (p s).result = .error e) :
    (p >>= f) s = ⟨.error e, (p s).world, (p s).trace⟩ := by
  change (match p s with
    | ⟨.ok a, s', trace⟩ => (⟨(f a s').result, (f a s').world, trace ++ (f a s').trace⟩ : Outcome ..)
    | ⟨.error e, s', trace⟩ => ⟨.error e, s', trace⟩) = _
  cases hp : p s with
  | mk result world trace =>
    rw [hp] at h
    cases h
    rfl

theorem throw_bind : (throw e >>= f) = throw e := rfl

/-- **A sequence returns** what its second part does, where the first has returned. -/
theorem exists_of_bind_ok {b : β} (h : ((p >>= f) s).result = .ok b) :
    ∃ a, (p s).result = .ok a ∧ (f a (p s).world).result = .ok b ∧
      ((p >>= f) s).world = (f a (p s).world).world ∧
      ((p >>= f) s).trace = (p s).trace ++ (f a (p s).world).trace := by
  cases hp : (p s).result with
  | ok a =>
    rw [bind_of_ok hp] at h ⊢
    exact ⟨a, rfl, h, rfl, rfl⟩
  | error e =>
    rw [bind_of_error hp] at h
    cases h

instance : LawfulMonad (Script σ κ ε) := .mk' _
  (fun p => funext fun s => by
    change (p >>= fun a => pure a) s = p s
    cases h : (p s).result with
    | ok a =>
      rw [bind_of_ok h, pure_run, List.append_nil, ← h]
    | error e => rw [bind_of_error h, ← h])
  (fun a f => funext fun s => by
    rw [bind_of_ok (p := pure a) (a := a) rfl]
    rfl)
  (fun p f g => funext fun s => by
    cases h : (p s).result with
    | error e =>
      rw [bind_of_error h, bind_of_error]
      · rw [bind_of_error h]
      · rw [bind_of_error h]
    | ok a =>
      rw [bind_of_ok (p := p) h]
      cases hf : (f a (p s).world).result with
      | error e =>
        rw [bind_of_error (p := p >>= f) (e := e) (by rw [bind_of_ok h, hf]), bind_of_error hf,
          bind_of_ok h]
      | ok b =>
        rw [bind_of_ok (p := p >>= f) (a := b) (by rw [bind_of_ok h, hf]), bind_of_ok hf,
          bind_of_ok h, List.append_assoc])

end Outcomes

/-! ## 2.  What a script does -/

/-- Each thing that the script does has the property. -/
def Emits (E : κ → Prop) (p : Script σ κ ε α) (s : σ) : Prop := ∀ k ∈ (p s).trace, E k

section Emits

variable {E : κ → Prop} {s : σ} {p : Script σ κ ε α} {f : α → Script σ κ ε β}

@[simp] theorem emits_pure {a : α} : Emits E (pure a : Script σ κ ε α) s := nofun

@[simp] theorem emits_throw {e : ε} : Emits E (throw e : Script σ κ ε α) s := nofun

@[simp] theorem emits_look {g : σ → α} : Emits E (look g : Script σ κ ε α) s := nofun

/-- **A sequence does** what its first part does, and then the second where the first has
returned. -/
theorem emits_bind :
    Emits E (p >>= f) s ↔
      Emits E p s ∧ ∀ a, (p s).result = .ok a → Emits E (f a) (p s).world := by
  cases h : (p s).result with
  | ok a =>
    rw [Emits, bind_of_ok h]
    change (∀ k ∈ (p s).trace ++ (f a (p s).world).trace, E k) ↔ _
    rw [List.forall_mem_append]
    refine and_congr_right fun _ => ⟨fun hrest b hb => ?_, fun hrest => hrest a rfl⟩
    cases hb
    exact hrest
  | error e =>
    rw [Emits, bind_of_error h]
    exact ⟨fun hp => ⟨hp, nofun⟩, fun hp => hp.1⟩

theorem emits_look_bind {g : σ → α} : Emits E (look g >>= f) s ↔ Emits E (f (g s)) s := by
  rw [emits_bind]
  exact ⟨fun h => h.2 (g s) rfl, fun h => ⟨emits_look, fun a ha => Except.ok.inj ha ▸ h⟩⟩

theorem emits_attempt_bind {f : Except ε α → Script σ κ ε β} :
    Emits E (attempt p >>= f) s ↔ Emits E p s ∧ Emits E (f (p s).result) (p s).world := by
  rw [emits_bind]
  exact ⟨fun h => ⟨h.1, h.2 _ rfl⟩, fun h => ⟨h.1, fun a ha => Except.ok.inj ha ▸ h.2⟩⟩

/-- **An invariant of the world** that a script keeps, doing under it only what has the property. -/
def Keeps (inv : σ → Prop) (E : κ → Prop) (p : Script σ κ ε α) : Prop :=
  ∀ s, inv s → Emits E p s ∧ inv (p s).world

variable {inv : σ → Prop}

theorem keeps_pure {a : α} : Keeps inv E (pure a : Script σ κ ε α) := fun _ h => ⟨emits_pure, h⟩

theorem keeps_throw {e : ε} : Keeps inv E (throw e : Script σ κ ε α) := fun _ h => ⟨emits_throw, h⟩

theorem keeps_look {g : σ → α} : Keeps inv E (look g : Script σ κ ε α) :=
  fun _ h => ⟨emits_look, h⟩

theorem keeps_update {g : σ → σ} (h : ∀ s, inv s → inv (g s)) :
    Keeps inv E (update g : Script σ κ ε Unit) :=
  fun s hs => ⟨nofun, h s hs⟩

theorem keeps_tell {k : κ} (h : E k) : Keeps inv E (tell k : Script σ κ ε Unit) :=
  fun _ hs => ⟨fun _ hk => List.mem_singleton.mp hk ▸ h, hs⟩

theorem Keeps.attempt (hp : Keeps inv E p) : Keeps inv E (attempt p) := fun s hs => hp s hs

theorem Keeps.bind (hp : Keeps inv E p) (hf : ∀ a, Keeps inv E (f a)) : Keeps inv E (p >>= f) := by
  intro s hs
  obtain ⟨hemits, hafter⟩ := hp s hs
  refine ⟨emits_bind.mpr ⟨hemits, fun a _ => (hf a _ hafter).1⟩, ?_⟩
  cases h : (p s).result with
  | ok a =>
    rw [bind_of_ok h]
    exact (hf a _ hafter).2
  | error e =>
    rw [bind_of_error h]
    exact hafter

theorem keeps_ite {c : Prop} [Decidable c] {p q : Script σ κ ε α} (hp : Keeps inv E p)
    (hq : Keeps inv E q) : Keeps inv E (if c then p else q) := by
  split
  · exact hp
  · exact hq

end Emits

/-! ## 3.  What a script returns -/

section Ensures

variable {s : σ} {p : Script σ κ ε α} {f : α → Script σ κ ε β} {Q : α → σ → List κ → Prop}
  {R : β → σ → List κ → Prop} {before : List κ}

/-- Whatever the script returns, with the world it leaves and all that has been done, has the
property; `before` is what was done before it. -/
def Ensures (Q : α → σ → List κ → Prop) (before : List κ) (p : Script σ κ ε α) (s : σ) : Prop :=
  ∀ a, (p s).result = .ok a → Q a (p s).world (before ++ (p s).trace)

theorem ensures_pure {a : α} (h : Q a s before) :
    Ensures Q before (pure a : Script σ κ ε α) s := by
  intro b hb
  obtain rfl : a = b := Except.ok.inj hb
  rw [pure_run, List.append_nil]
  exact h

theorem ensures_throw {e : ε} : Ensures Q before (throw e : Script σ κ ε α) s := nofun

/-- **A sequence ensures** what its second part does, where the first has returned. -/
theorem ensures_bind
    (h : ∀ a, (p s).result = .ok a → Ensures R (before ++ (p s).trace) (f a) (p s).world) :
    Ensures R before (p >>= f) s := by
  intro b hb
  obtain ⟨a, ha, hrest, hworld, htrace⟩ := exists_of_bind_ok hb
  rw [hworld, htrace, ← List.append_assoc]
  exact h a ha b hrest

end Ensures

/-! ## 4.  What holds also where an error is raised -/

section Triples

variable {P P' : σ → List κ → Prop} {Q Q' : α → σ → List κ → Prop} {R : β → σ → List κ → Prop}
  {X X' : σ → List κ → Prop} {p : Script σ κ ε α} {f : α → Script σ κ ε β}

/-- **A triple.**  Begun where `P` holds of the world and of what was done before, the script leaves
`Q` where it returns and `X` where it raises an error. -/
def Triple (P : σ → List κ → Prop) (p : Script σ κ ε α) (Q : α → σ → List κ → Prop)
    (X : σ → List κ → Prop) : Prop :=
  ∀ s before, P s before →
    match (p s).result with
    | .ok a => Q a (p s).world (before ++ (p s).trace)
    | .error _ => X (p s).world (before ++ (p s).trace)

theorem triple_pure {a : α} (h : ∀ s before, P s before → Q a s before) :
    Triple P (pure a : Script σ κ ε α) Q X := by
  intro s before hs
  rw [pure_run]
  show Q a s (before ++ [])
  rw [List.append_nil]
  exact h s before hs

theorem triple_throw {e : ε} (h : ∀ s before, P s before → X s before) :
    Triple P (throw e : Script σ κ ε α) Q X := by
  intro s before hs
  rw [throw_run]
  show X s (before ++ [])
  rw [List.append_nil]
  exact h s before hs

theorem triple_look {g : σ → α} (h : ∀ s before, P s before → Q (g s) s before) :
    Triple P (look g : Script σ κ ε α) Q X := by
  intro s before hs
  rw [look_run]
  show Q (g s) s (before ++ [])
  rw [List.append_nil]
  exact h s before hs

theorem triple_update {g : σ → σ} {Q : Unit → σ → List κ → Prop}
    (h : ∀ s before, P s before → Q () (g s) before) :
    Triple P (update g : Script σ κ ε Unit) Q X := by
  intro s before hs
  rw [update_run]
  show Q () (g s) (before ++ [])
  rw [List.append_nil]
  exact h s before hs

theorem triple_tell {k : κ} {Q : Unit → σ → List κ → Prop}
    (h : ∀ s before, P s before → Q () s (before ++ [k])) :
    Triple P (tell k : Script σ κ ε Unit) Q X :=
  fun s before hs => h s before hs

/-- **The rule of consequence.** -/
theorem Triple.weaken (h : Triple P p Q X) (hpre : ∀ s before, P' s before → P s before)
    (hpost : ∀ a s log, Q a s log → Q' a s log) (herr : ∀ s log, X s log → X' s log) :
    Triple P' p Q' X' := by
  intro s before hs
  have hrun := h s before (hpre s before hs)
  split at hrun
  · exact hpost _ _ _ hrun
  · exact herr _ _ hrun

/-- **The rule of sequence.** -/
theorem Triple.bind (hp : Triple P p Q X) (hf : ∀ a, Triple (Q a) (f a) R X) :
    Triple P (p >>= f) R X := by
  intro s before hs
  have hfirst := hp s before hs
  cases h : (p s).result with
  | ok a =>
    rw [h] at hfirst
    rw [bind_of_ok h]
    have hsecond := hf a _ _ hfirst
    rw [List.append_assoc] at hsecond
    exact hsecond
  | error e =>
    rw [h] at hfirst
    rw [bind_of_error h]
    exact hfirst

theorem triple_ite {c : Prop} [Decidable c] {p q : Script σ κ ε α}
    (hp : c → Triple P p Q X) (hq : ¬c → Triple P q Q X) : Triple P (if c then p else q) Q X := by
  split
  · rename_i hc
    exact hp hc
  · rename_i hc
    exact hq hc

end Triples

end Script

end Kroker
