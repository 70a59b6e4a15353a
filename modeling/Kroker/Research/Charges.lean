import Kroker.Library.Ownership
import Kroker.Library.Table
import Kroker.Research.BudgetStore
import Mathlib.Tactic.Positivity

/-!
# Charges under lock files that are stolen

## 1.  What the locks are for

A caller is inside the critical section of a lock from the step that creates its file to the step
that unlinks it (`Caller.held`).  Where at most one caller is inside, what it has read of a counter
is what the counter still is when it publishes (`Consistent`), so a counter is the sum of what has
been published to it (`balanced`), and no charge is lost.

## 2.  When they hold

A lock file that is judged stale is unlinked in a later step, whatever has become of it, and a
holder that is merely slow is inside all the while.
-/

namespace Kroker.Research

/-! ## Being inside -/

/-- The locks a caller is inside of, by its next operation. -/
def heldIn (c : Call) : Phase → List String
  | .opening k _ => (c.parts.take k).map (·.counter)
  | .checking k _ => (c.parts.take k).map (·.counter)
  | .stealing k _ => (c.parts.take k).map (·.counter)
  | .reading _ => c.parts.map (·.counter)
  | .publishing _ => c.parts.map (·.counter)
  | .releasing k _ => (c.parts.take k).map (·.counter)
  | .finished _ => []
  | .crashed => []

/-- The locks a caller is inside of. -/
def Caller.held (c : Caller) : List String := heldIn c.call c.phase

theorem drop_eq_cons {α : Type} {l : List α} {n : ℕ} {a : α} (h : l[n]? = some a) :
    l.drop n = a :: l.drop (n + 1) := by
  obtain ⟨hlt, rfl⟩ := List.getElem?_eq_some_iff.mp h
  exact List.drop_eq_getElem_cons hlt

namespace Call

variable (c : Call)

theorem nodup_counters : (c.parts.map (·.counter)).Nodup := by
  cases c with
  | chargePersisted caps search fetch scope => simp [parts]
  | chargeScoped caps search fetch scope runMax =>
    unfold parts
    by_cases h : scope = "run" <;> simp [h]

variable {c}

theorem notMem_take {k : ℕ} {p : Part} (hk : c.parts[k]? = some p) :
    p.counter ∉ (c.parts.take k).map (·.counter) := by
  have hnodup := c.nodup_counters
  rw [← List.take_append_drop k c.parts, drop_eq_cons hk, List.map_append, List.map_cons,
    List.nodup_append] at hnodup
  exact fun hmem => hnodup.2.2 _ hmem _ List.mem_cons_self rfl

theorem notMem_drop {k : ℕ} {p : Part} (hk : c.parts[k]? = some p) :
    p.counter ∉ (c.parts.drop (k + 1)).map (·.counter) := by
  have hnodup := c.nodup_counters
  rw [← List.take_append_drop k c.parts, drop_eq_cons hk, List.map_append, List.map_cons,
    List.nodup_append, List.nodup_cons] at hnodup
  exact hnodup.2.1.1

theorem take_succ {k : ℕ} {p : Part} (hk : c.parts[k]? = some p) :
    (c.parts.take (k + 1)).map (·.counter) = (c.parts.take k).map (·.counter) ++ [p.counter] := by
  rw [List.take_add_one, hk, List.map_append]
  rfl

end Call

@[simp] theorem heldIn_unwind (c : Call) (k : ℕ) (o : Outcome) :
    heldIn c (unwind k o) = (c.parts.take k).map (·.counter) := by
  unfold unwind
  split
  · rename_i h
    rw [h, List.take_zero]
    rfl
  · rfl

namespace Store

/-- A caller is inside of a lock. -/
def Holds (s : Store) (i : ℕ) (L : String) : Prop := ∃ c, s.callers[i]? = some c ∧ L ∈ c.held

/-- Who has created the file of a lock. -/
def owner (s : Store) (L : String) : Option ℕ := (s.locks[L]?).map (·.owner)

/-! ## What a step does -/

/-- What a caller does without touching a file, or only reading one: it goes on to a phase. -/
inductive Quiet (s : Store) (c : Caller) : Phase → Prop
  | contended {k : ℕ} {d : ℚ} (h : c.phase = .opening k d) : Quiet s c (.checking k d)
  | stale {k : ℕ} {d : ℚ} (h : c.phase = .checking k d) : Quiet s c (.stealing k d)
  | expired {k : ℕ} {d : ℚ} (L : String) (h : c.phase = .checking k d) :
    Quiet s c (unwind k (.timedOut L))
  | polling {k : ℕ} {d : ℚ} (h : c.phase = .checking k d) : Quiet s c (.opening k d)
  | read {got : List Budget} {p : Part} (h : c.phase = .reading got)
    (hp : c.call.parts[got.length]? = some p) (hmore : got.length + 1 < c.call.parts.length) :
    Quiet s c (.reading (got ++ [s.counter p.counter]))
  | decided {got : List Budget} {p : Part} (h : c.phase = .reading got)
    (hp : c.call.parts[got.length]? = some p) (hlast : c.call.parts.length = got.length + 1) :
    Quiet s c (decided c (got ++ [s.counter p.counter]))
  | failed {phase : Phase} (h : failed c = some phase) : Quiet s c phase
  | crashed : Quiet s c .crashed

/-- What an operation of caller `i` does. -/
inductive Operates (s : Store) (i : ℕ) (c : Caller) : Store → Prop
  | quiet {phase : Phase} (h : Quiet s c phase) : Operates s i c (s.setPhase i c phase)
  /-- A lock is taken, and then the next, or the counters are read. -/
  | acquire {k : ℕ} {d : ℚ} {p : Part} {phase : Phase} (h : c.phase = .opening k d)
    (hp : c.call.parts[k]? = some p) (hfree : s.locks[p.counter]? = none)
    (hphase : (∃ d', k + 1 < c.call.parts.length ∧ phase = .opening (k + 1) d') ∨
      c.call.parts.length = k + 1 ∧ phase = .reading []) :
    Operates s i c (({ s with
      locks := s.locks.insert p.counter { mtime := s.now, owner := i } } : Store).setPhase i c phase)
  | steal {k : ℕ} {d : ℚ} {p : Part} (h : c.phase = .stealing k d)
    (hp : c.call.parts[k]? = some p) :
    Operates s i c ((s.unlink p.counter).setPhase i c (.opening k d))
  | publish {new : List Budget} {p : Part} {b : Budget} {phase : Phase}
    (h : c.phase = .publishing new) (hp : c.call.parts[c.published]? = some p)
    (hb : new[c.published]? = some b)
    (hphase : c.published + 1 < c.call.parts.length ∧ phase = .publishing new ∨
      c.call.parts.length = c.published + 1 ∧
        phase = unwind c.call.parts.length .charged) :
    Operates s i c { s with
      counters := s.counters.insert p.counter b
      callers := s.callers.set i { c with phase, published := c.published + 1 } }
  | release {k : ℕ} {o : Outcome} {p : Part} (h : c.phase = .releasing k o)
    (hp : c.call.parts[k - 1]? = some p) :
    Operates s i c ((s.unlink p.counter).setPhase i c (unwind (k - 1) o))

variable {s s' : Store} {i : ℕ} {c : Caller}

theorem lt_of_parts {n : ℕ} {p : Part} (hp : c.call.parts[n]? = some p) :
    n + 1 < c.call.parts.length ∨ c.call.parts.length = n + 1 := by
  have := (List.getElem?_eq_some_iff.mp hp).1
  omega

/-- **Every step of a caller is one of these operations.** -/
theorem operates_of_advance (h : s.advance i c = some s') : Operates s i c s' := by
  unfold advance at h
  cases hphase : c.phase with
  | opening k d =>
    rw [hphase] at h
    obtain ⟨p, hp, rfl⟩ := Option.map_eq_some_iff.mp h
    unfold openLock
    cases hlock : s.locks[p.counter]? with
    | some f => exact .quiet (.contended hphase)
    | none =>
      dsimp only
      split
      · rename_i hmore
        exact .acquire hphase hp hlock (Or.inl ⟨_, hmore, rfl⟩)
      · rename_i hlast
        exact .acquire hphase hp hlock (Or.inr ⟨(lt_of_parts hp).resolve_left hlast, rfl⟩)
  | checking k d =>
    rw [hphase] at h
    obtain ⟨p, hp, rfl⟩ := Option.map_eq_some_iff.mp h
    unfold checkLock
    split
    · exact .quiet (.stale hphase)
    · split
      · exact .quiet (.expired _ hphase)
      · exact .quiet (.polling hphase)
  | stealing k d =>
    rw [hphase] at h
    obtain ⟨p, hp, rfl⟩ := Option.map_eq_some_iff.mp h
    exact .steal hphase hp
  | reading got =>
    rw [hphase] at h
    obtain ⟨p, hp, rfl⟩ := Option.map_eq_some_iff.mp h
    unfold readCounter
    simp only [List.length_append, List.length_singleton]
    split
    · rename_i hmore
      exact .quiet (.read hphase hp hmore)
    · rename_i hlast
      exact .quiet (.decided hphase hp ((lt_of_parts hp).resolve_left hlast))
  | publishing new =>
    rw [hphase] at h
    cases hp : c.call.parts[c.published]? with
    | none => simp [hp] at h
    | some p =>
      cases hb : new[c.published]? with
      | none => simp [hp, hb] at h
      | some b =>
        simp only [hp, hb, Option.some.injEq] at h
        subst h
        unfold publish
        dsimp only
        split
        · rename_i hmore
          exact .publish hphase hp hb (Or.inl ⟨hmore, rfl⟩)
        · rename_i hlast
          exact .publish hphase hp hb (Or.inr ⟨(lt_of_parts hp).resolve_left hlast, rfl⟩)
  | releasing k o =>
    rw [hphase] at h
    obtain ⟨p, hp, rfl⟩ := Option.map_eq_some_iff.mp h
    exact .release hphase hp
  | finished o =>
    rw [hphase] at h
    cases h
  | crashed =>
    rw [hphase] at h
    cases h

/-! ## Exclusion -/

theorem holds_set {callers : List Caller} (hcallers : s'.callers = callers.set i c)
    {j : ℕ} {L : String} (h : s'.Holds j L) :
    j = i ∧ L ∈ c.held ∨ j ≠ i ∧ ∃ c', callers[j]? = some c' ∧ L ∈ c'.held := by
  obtain ⟨c', hc', hL⟩ := h
  rw [hcallers, List.getElem?_set] at hc'
  split at hc'
  · rename_i hij
    split at hc'
    · obtain rfl := Option.some.inj hc'
      exact Or.inl ⟨hij.symm, hL⟩
    · cases hc'
  · rename_i hij
    exact Or.inr ⟨fun h => hij h.symm, c', hc', hL⟩

theorem holds_set_of_subset (c' : Caller) (hi : s.callers[i]? = some c)
    (hcallers : s'.callers = s.callers.set i c') (hsub : ∀ L, L ∈ c'.held → L ∈ c.held) {j : ℕ}
    {L : String} (h : s'.Holds j L) : s.Holds j L := by
  rcases holds_set hcallers h with ⟨rfl, hL⟩ | ⟨-, hheld⟩
  · exact ⟨c, hi, hsub L hL⟩
  · exact hheld

theorem Quiet.held_subset {phase : Phase} (h : Quiet s c phase) :
    ∀ L, L ∈ heldIn c.call phase → L ∈ c.held := by
  intro L hL
  unfold Caller.held
  cases h with
  | contended h =>
    rw [h]
    exact hL
  | stale h =>
    rw [h]
    exact hL
  | expired L' h =>
    rw [heldIn_unwind] at hL
    rw [h]
    exact hL
  | polling h =>
    rw [h]
    exact hL
  | read h hp hmore =>
    rw [h]
    exact hL
  | @decided got p h hp hlast =>
    rw [h]
    unfold Store.decided at hL
    split at hL
    · exact hL
    · rw [heldIn_unwind, List.take_length] at hL
      exact hL
  | failed h =>
    unfold Store.failed at h
    cases hphase : c.phase <;> simp only [hphase, Option.some.injEq, reduceCtorEq] at h <;>
      subst h <;> rw [heldIn_unwind] at hL
    · exact hL
    · exact hL
    · exact hL
    · rwa [List.take_length] at hL
    · rwa [List.take_length] at hL
    · exact List.map_subset _ (List.take_subset_take_left _ (Nat.sub_le _ 1)) hL
  | crashed => cases hL

/-- The step does not unlink, as stale, a lock that some caller is inside of. -/
def fair (s : Store) : StoreEvent → Bool
  | .step i =>
    match s.callers[i]? with
    | some c =>
      match c.phase with
      | .stealing k _ =>
        ((c.call.parts[k]?).map fun p => s.callers.all fun x => p.counter ∉ x.held).getD true
      | _ => true
    | none => true
  | _ => true

theorem not_holds_of_fair {k : ℕ} {d : ℚ} {p : Part} (hfair : s.fair (.step i) = true)
    (hi : s.callers[i]? = some c) (hphase : c.phase = .stealing k d)
    (hp : c.call.parts[k]? = some p) (j : ℕ) : ¬s.Holds j p.counter := by
  rintro ⟨x, hx, hheld⟩
  simp only [fair, hi, hphase, hp, Option.map_some, Option.getD_some, List.all_eq_true,
    decide_eq_true_eq] at hfair
  exact hfair x (List.mem_of_getElem? hx) hheld

theorem owner_unlink (s : Store) (k : String) : ∀ L, L ≠ k → (s.unlink k).owner L = s.owner L := by
  intro L hL
  simp only [owner, unlink]
  rw [Dict.get?_erase, if_neg (Ne.symm hL)]

theorem owned_of_quiet {phase : Phase} (h : Owned s.owner s.Holds) (hi : s.callers[i]? = some c)
    (hquiet : Quiet s c phase) :
    Owned (s.setPhase i c phase).owner (s.setPhase i c phase).Holds :=
  h.mono fun _ _ => holds_set_of_subset { c with phase } hi rfl hquiet.held_subset

/-- **An operation keeps the callers apart**, if it does not steal a lock that is held. -/
theorem owned_of_operates (h : Owned s.owner s.Holds) (hi : s.callers[i]? = some c)
    (hrelease : ∀ k o, c.phase = .releasing k o → k ≠ 0) (hop : Operates s i c s')
    (hfair : s.fair (.step i) = true) : Owned s'.owner s'.Holds := by
  cases hop with
  | @quiet phase hquiet =>
    exact owned_of_quiet h hi hquiet
  | @acquire k d p phase hphase hp hfree hnext =>
    refine h.acquire (k := p.counter) (i := i) ?_ ?_ ?_ ?_
    · simp [owner, hfree]
    · simp [owner, setPhase]
    · intro L hL
      simp only [owner, setPhase]
      rw [Dict.get?_insert_of_ne _ _ (Ne.symm hL)]
    · intro j L hj
      rcases holds_set rfl hj with ⟨rfl, hL⟩ | ⟨-, hheld⟩
      · have hnew : heldIn c.call phase = c.held ++ [p.counter] := by
          unfold Caller.held
          rw [hphase]
          rcases hnext with ⟨d', -, rfl⟩ | ⟨hlast, rfl⟩
          · exact Call.take_succ hp
          · have htake : c.call.parts.take (k + 1) = c.call.parts := by
              rw [← hlast, List.take_length]
            have hsucc := Call.take_succ hp
            rw [htake] at hsucc
            exact hsucc
        have hmem : L ∈ c.held ++ [p.counter] := hnew ▸ hL
        rw [List.mem_append, List.mem_singleton] at hmem
        rcases hmem with hold | rfl
        · exact Or.inl ⟨c, hi, hold⟩
        · exact Or.inr ⟨rfl, rfl⟩
      · exact Or.inl hheld
  | @steal k d p hphase hp =>
    have hheld : ∀ j L, ((s.unlink p.counter).setPhase i c (.opening k d)).Holds j L →
        s.Holds j L := fun j L => holds_set_of_subset _ hi rfl (by
      intro L hL
      unfold Caller.held
      rw [hphase]
      exact hL)
    exact h.hand (owner_unlink s p.counter) hheld
      fun j hj => not_holds_of_fair hfair hi hphase hp j (hheld j _ hj)
  | @publish new p b phase hphase hp hb hnext =>
    refine h.mono fun j L => holds_set_of_subset _ hi rfl fun L hL => ?_
    unfold Caller.held at hL ⊢
    rw [hphase]
    rcases hnext with ⟨-, rfl⟩ | ⟨-, rfl⟩
    · exact hL
    · rw [heldIn_unwind, List.take_length] at hL
      exact hL
  | @release k o p hphase hp =>
    have hk : k - 1 + 1 = k := by
      have := hrelease k o hphase
      omega
    have hheld : c.held = (c.call.parts.take (k - 1)).map (·.counter) ++ [p.counter] := by
      unfold Caller.held
      rw [hphase, ← Call.take_succ hp, hk]
      rfl
    have hnew : ({ c with phase := unwind (k - 1) o } : Caller).held =
        (c.call.parts.take (k - 1)).map (·.counter) := heldIn_unwind _ _ _
    have hinside : s.Holds i p.counter := ⟨c, hi, by rw [hheld]; simp⟩
    refine h.release hinside (owner_unlink s p.counter) (fun j L => holds_set_of_subset _ hi rfl ?_)
      fun hj => ?_
    · intro L hL
      rw [hnew] at hL
      rw [hheld]
      exact List.mem_append_left _ hL
    · rcases holds_set rfl hj with ⟨-, hL⟩ | ⟨hne, -⟩
      · rw [hnew] at hL
        exact Call.notMem_take hp hL
      · exact hne rfl

/-! ## What has been read is what is there -/

end Store

/-- What `charge` makes of a counter it accepts: the amount is added, within the caps of what is
charged. -/
structure Charged (c : Call) (p : Part) (old new : Budget) : Prop where
  added : new = old + c.amount
  searches : c.search = 0 ∨ new.searches ≤ p.caps.maxSearches
  fetches : c.fetch = 0 ∨ new.fetches ≤ p.caps.maxFetches
  cost : new.costUsd ≤ p.caps.maxCostUsd

theorem charged_of_charge {c : Call} {p : Part} {b b' : Budget}
    (h : charge p.caps c.search c.fetch b = .ok b') : Charged c p b b' := by
  unfold charge at h
  split at h
  · cases h
  · rename_i hsearch
    split at h
    · cases h
    · rename_i hfetch
      dsimp only at h
      split at h
      · cases h
      · rename_i hcost
        obtain rfl := Except.ok.inj h
        refine ⟨?_, ?_, ?_, not_lt.mp hcost⟩
        · ext
          · rfl
          · rfl
          · exact add_assoc _ _ _
        · by_contra hnot
          rw [not_or, not_le] at hnot
          exact hsearch hnot
        · by_contra hnot
          rw [not_or, not_le] at hnot
          exact hfetch hnot

theorem Call.forall₂_of_chargeAll {c : Call} {l : List (Part × Budget)} {new : List Budget}
    (h : c.chargeAll l = .ok new) : List.Forall₂ (fun pb b => Charged c pb.1 pb.2 b) l new := by
  induction l generalizing new with
  | nil =>
    obtain rfl := Except.ok.inj h
    exact .nil
  | cons pb rest ih =>
    unfold chargeAll at h
    obtain ⟨later, hlater, h⟩ := bind_eq_ok.mp h
    obtain ⟨b, hb, h⟩ := bind_eq_ok.mp h
    obtain rfl := Except.ok.inj h
    refine .cons (charged_of_charge ?_) (ih hlater)
    cases hcharge : charge pb.1.caps c.search c.fetch pb.2 with
    | error e =>
      rw [hcharge] at hb
      cases hb
    | ok b' =>
      rw [hcharge] at hb
      exact congrArg _ (Except.ok.inj hb)

def Pending (counter : String → Budget) (c : Caller) (new : List Budget) : Prop :=
  List.Forall₂ (fun p b => Charged c.call p (counter p.counter) b)
    (c.call.parts.drop c.published) (new.drop c.published)

theorem Pending.congr {f g : String → Budget} {c : Caller} {new : List Budget}
    (h : Pending f c new)
    (heq : ∀ p ∈ c.call.parts.drop c.published, f p.counter = g p.counter) : Pending g c new := by
  have hboth := (List.forall₂_and_left (p := fun q => f q.counter = g q.counter) _ _).mpr ⟨heq, h⟩
  exact hboth.imp fun q b hq => hq.1 ▸ hq.2

/-- What a caller has read and computed is up to date, and it has published what its phase says. -/
def Consistent (counter : String → Budget) (c : Caller) : Prop :=
  match c.phase with
  | .opening _ _ => c.published = 0
  | .checking _ _ => c.published = 0
  | .stealing _ _ => c.published = 0
  | .reading got =>
    c.published = 0 ∧ got = (c.call.parts.take got.length).map fun p => counter p.counter
  | .publishing new => Pending counter c new
  | .releasing k o => k ≠ 0 ∧ (∀ L e, o = .refused L e → c.published = 0) ∧
      (o = .charged → c.published = c.call.parts.length)
  | .finished o => (∀ L e, o = .refused L e → c.published = 0) ∧
      (o = .charged → c.published = c.call.parts.length)
  | .crashed => True

theorem Consistent.congr {f g : String → Budget} {c : Caller} (h : Consistent f c)
    (heq : ∀ L ∈ c.held, f L = g L) : Consistent g c := by
  unfold Consistent at h ⊢
  unfold Caller.held at heq
  cases hphase : c.phase with
  | reading got =>
    rw [hphase] at h heq
    refine ⟨h.1, h.2.trans (List.map_congr_left fun p hp => heq p.counter ?_)⟩
    exact List.mem_map_of_mem (List.mem_of_mem_take hp)
  | publishing new =>
    rw [hphase] at h heq
    exact Pending.congr h fun p hp =>
      heq p.counter (List.mem_map_of_mem (List.mem_of_mem_drop hp))
  | _ =>
    rw [hphase] at h
    exact h

theorem consistent_unwind {counter : String → Budget} {c : Caller} {k : ℕ} {o : Outcome}
    (hrefused : ∀ L e, o = .refused L e → c.published = 0)
    (hcharged : o = .charged → c.published = c.call.parts.length) :
    Consistent counter { c with phase := unwind k o } := by
  by_cases hk : k = 0
  · rw [unwind, if_pos hk]
    exact ⟨hrefused, hcharged⟩
  · rw [unwind, if_neg hk]
    exact ⟨hk, hrefused, hcharged⟩

namespace Store

variable {s s' : Store} {i : ℕ} {c : Caller}

theorem consistent_decided {got : List Budget} (hpublished : c.published = 0)
    (hgot : got = c.call.parts.map fun p => s.counter p.counter) :
    Consistent s.counter { c with phase := decided c got } := by
  unfold decided
  cases hcharge : c.call.chargeAll (c.call.parts.zip got) with
  | error e =>
    exact consistent_unwind (fun _ _ _ => hpublished) fun h => nomatch h
  | ok new =>
    show Pending s.counter _ new
    unfold Pending
    dsimp only
    rw [hpublished, List.drop_zero, List.drop_zero]
    have hall := Call.forall₂_of_chargeAll hcharge
    rw [hgot] at hall
    rw [← List.map_prod_left_eq_zip, List.forall₂_map_left_iff] at hall
    exact hall

/-- **What an operation changes.**  It changes one caller, which stays consistent; and no counter,
or the one that the caller publishes next, from within its lock. -/
structure Changes (s : Store) (i : ℕ) (c : Caller) (s' : Store) (c' : Caller) : Prop where
  callers : s'.callers = s.callers.set i c'
  call : c'.call = c.call
  consistent : Consistent s'.counter c'
  counter : (s'.counter = s.counter ∧ c'.published = c.published) ∨
    ∃ p b, c.call.parts[c.published]? = some p ∧ p.counter ∈ c.held ∧
      Charged c.call p (s.counter p.counter) b ∧ c'.published = c.published + 1 ∧
      ∀ L, s'.counter L = if p.counter = L then b else s.counter L

theorem Quiet.consistent {phase : Phase} (h : Quiet s c phase) (hc : Consistent s.counter c) :
    Consistent s.counter { c with phase } := by
  unfold Consistent at hc
  cases h with
  | contended h =>
    rw [h] at hc
    exact hc
  | stale h =>
    rw [h] at hc
    exact hc
  | expired L h =>
    rw [h] at hc
    exact consistent_unwind (fun _ _ h => nomatch h) fun h => nomatch h
  | polling h =>
    rw [h] at hc
    exact hc
  | @read got p h hp hmore =>
    rw [h] at hc
    refine ⟨hc.1, ?_⟩
    rw [List.length_append, List.length_singleton, List.take_add_one, hp, List.map_append, ← hc.2]
    rfl
  | @decided got p h hp hlast =>
    rw [h] at hc
    refine consistent_decided hc.1 ?_
    have htake : c.call.parts.take (got.length + 1) = c.call.parts := by
      rw [← hlast, List.take_length]
    rw [← htake, List.take_add_one, hp, List.map_append, ← hc.2]
    rfl
  | failed h =>
    unfold Store.failed at h
    have hraised : ∀ k, Consistent s.counter { c with phase := unwind k .raised } := fun k =>
      consistent_unwind (fun _ _ h => nomatch h) fun h => nomatch h
    cases hphase : c.phase <;> simp only [hphase, Option.some.injEq, reduceCtorEq] at h <;>
      subst h <;> exact hraised _
  | crashed => trivial

/-- **Every operation changes one caller**, and at most the counter it publishes. -/
theorem changes_of_operates (hop : Operates s i c s') (hc : Consistent s.counter c) :
    ∃ c', Changes s i c s' c' := by
  cases hop with
  | @quiet phase hquiet =>
    exact ⟨{ c with phase }, rfl, rfl, hquiet.consistent hc, Or.inl ⟨rfl, rfl⟩⟩
  | @acquire k d p phase hphase hp hfree hnext =>
    refine ⟨{ c with phase }, rfl, rfl, ?_, Or.inl ⟨rfl, rfl⟩⟩
    unfold Consistent at hc
    rw [hphase] at hc
    rcases hnext with ⟨d', -, rfl⟩ | ⟨-, rfl⟩
    · exact hc
    · exact ⟨hc, rfl⟩
  | @steal k d p hphase hp =>
    refine ⟨{ c with phase := .opening k d }, rfl, rfl, ?_, Or.inl ⟨rfl, rfl⟩⟩
    unfold Consistent at hc
    rw [hphase] at hc
    exact hc
  | @release k o p hphase hp =>
    refine ⟨{ c with phase := unwind (k - 1) o }, rfl, rfl, ?_, Or.inl ⟨rfl, rfl⟩⟩
    unfold Consistent at hc
    rw [hphase] at hc
    exact consistent_unwind hc.2.1 hc.2.2
  | @publish new p b phase hphase hp hb hnext =>
    have hpending : Pending s.counter c new := by
      unfold Consistent at hc
      rwa [hphase] at hc
    -- The next part is published, and the rest is still pending: its counters are other counters.
    obtain ⟨hcharged, hrest⟩ : Charged c.call p (s.counter p.counter) b ∧
        List.Forall₂ (fun q b => Charged c.call q (s.counter q.counter) b)
          (c.call.parts.drop (c.published + 1)) (new.drop (c.published + 1)) := by
      unfold Pending at hpending
      rwa [drop_eq_cons hp, drop_eq_cons hb, List.forall₂_cons] at hpending
    have hcounter : ∀ L, ({ s with
        counters := s.counters.insert p.counter b
        callers := s.callers.set i { c with phase, published := c.published + 1 } } : Store).counter
          L = if p.counter = L then b else s.counter L := by
      intro L
      unfold counter
      rw [Dict.get?_insert]
      split <;> rfl
    refine ⟨{ c with phase, published := c.published + 1 }, rfl, rfl, ?_,
      Or.inr ⟨p, b, hp, ?_, hcharged, rfl, hcounter⟩⟩
    · rcases hnext with ⟨-, rfl⟩ | ⟨hlast, rfl⟩
      · refine Pending.congr (f := s.counter) hrest fun q hq => ?_
        have hne : p.counter ≠ q.counter := fun heq => Call.notMem_drop hp
          (heq ▸ List.mem_map_of_mem hq)
        rw [hcounter, if_neg hne]
      · exact consistent_unwind (c := { c with published := c.published + 1 })
          (fun _ _ h => nomatch h) fun _ => hlast.symm
    · unfold Caller.held
      rw [hphase]
      exact List.mem_map_of_mem (List.mem_of_getElem? hp)

/-! ## The invariant -/

end Store

def Caller.paid (c : Caller) (L : String) : Budget :=
  if L ∈ (c.call.parts.take c.published).map (·.counter) then c.call.amount else 0

namespace Store

/-- The calls that have been made. -/
def calls (s : Store) : List Call := s.callers.map (·.call)

/-- **The invariant.**  Callers exclude each other, what they have read is what is there, and a
counter is the sum of what has been added to it. -/
structure Inv (s : Store) : Prop where
  owned : Owned s.owner s.Holds
  consistent : ∀ (i : ℕ) (c : Caller), s.callers[i]? = some c → Consistent s.counter c
  balanced : ∀ L, s.counter L = (s.callers.map (·.paid L)).sum

/-- A counter is within every bound of the caps it is charged under, unless nothing has been added
to it. -/
structure Within (s : Store) : Prop where
  searches : ∀ L n, (∀ c ∈ s.calls, ∀ p ∈ c.parts, p.counter = L → p.caps.maxSearches ≤ n) →
    (s.counter L).searches ≤ n
  fetches : ∀ L n, (∀ c ∈ s.calls, ∀ p ∈ c.parts, p.counter = L → p.caps.maxFetches ≤ n) →
    (s.counter L).fetches ≤ n
  cost : ∀ L q, (∀ c ∈ s.calls, ∀ p ∈ c.parts, p.counter = L → p.caps.maxCostUsd ≤ q) →
    s.counter L = 0 ∨ (s.counter L).costUsd ≤ q

namespace Changes

variable {c' : Caller}

theorem calls_eq (h : Changes s i c s' c') (hi : s.callers[i]? = some c) : s'.calls = s.calls := by
  unfold calls
  rw [h.callers, List.map_set, h.call]
  obtain ⟨hlt, rfl⟩ := List.getElem?_eq_some_iff.mp hi
  apply List.ext_getElem?
  intro j
  rw [List.getElem?_set]
  split
  · rename_i hij
    subst hij
    simp [hlt]
  · rfl

theorem paid_eq (h : Changes s i c s' c') (L : String) :
    ∃ d, c'.paid L = c.paid L + d ∧ s'.counter L = s.counter L + d := by
  rcases h.counter with ⟨hcounter, hpublished⟩ | ⟨p, b, hp, -, hcharged, hpublished, hcounter⟩
  · refine ⟨0, ?_, ?_⟩
    · rw [Caller.paid, Caller.paid, h.call, hpublished, add_zero]
    · rw [hcounter, add_zero]
  · refine ⟨if p.counter = L then c.call.amount else 0, ?_, ?_⟩
    · rw [Caller.paid, Caller.paid, h.call, hpublished, Call.take_succ hp]
      by_cases hL : p.counter = L
      · subst hL
        rw [if_pos (by simp), if_neg (Call.notMem_take hp), if_pos rfl, zero_add]
      · have hne : L ≠ p.counter := fun h => hL h.symm
        simp only [List.mem_append, List.mem_singleton, hL, hne, or_false, if_false, add_zero]
    · rw [hcounter]
      by_cases hL : p.counter = L
      · subst hL
        rw [if_pos rfl, if_pos rfl, hcharged.added]
      · rw [if_neg hL, if_neg hL, add_zero]

/-- **An operation that keeps the callers apart keeps the invariant.** -/
theorem inv (h : Changes s i c s' c') (hi : s.callers[i]? = some c) (hinv : s.Inv)
    (howned : Owned s'.owner s'.Holds) : s'.Inv := by
  refine ⟨howned, fun j x hx => ?_, fun L => ?_⟩
  · rw [h.callers, List.getElem?_set] at hx
    split at hx
    · split at hx
      · obtain rfl := Option.some.inj hx
        exact h.consistent
      · cases hx
    · rename_i hij
      refine (hinv.consistent j x hx).congr fun L hL => ?_
      rcases h.counter with ⟨hcounter, -⟩ | ⟨p, b, -, hheld, -, -, hcounter⟩
      · rw [hcounter]
      · have hne : p.counter ≠ L := by
          rintro rfl
          exact hij (hinv.owned.exclusive ⟨c, hi, hheld⟩ ⟨x, hx, hL⟩)
        rw [hcounter, if_neg hne]
  · obtain ⟨d, hpaid, hcounter⟩ := h.paid_eq L
    rw [h.callers, Table.sum_map_set hi (·.paid L) hpaid, ← hinv.balanced L, hcounter]

/-- **An operation keeps the counters within their caps.** -/
theorem within (h : Changes s i c s' c') (hi : s.callers[i]? = some c) (hwithin : s.Within) :
    s'.Within := by
  have hcalls := h.calls_eq hi
  have hcall : c.call ∈ s'.calls := by
    rw [hcalls]
    exact List.mem_map_of_mem (List.mem_of_getElem? hi)
  rcases h.counter with ⟨hcounter, -⟩ | ⟨p, b, hp, -, hcharged, -, hcounter⟩
  · refine ⟨fun L n hn => ?_, fun L n hn => ?_, fun L q hq => ?_⟩
    · rw [hcounter]
      exact hwithin.searches L n (hcalls ▸ hn)
    · rw [hcounter]
      exact hwithin.fetches L n (hcalls ▸ hn)
    · rw [hcounter]
      exact hwithin.cost L q (hcalls ▸ hq)
  · have hmem := List.mem_of_getElem? hp
    refine ⟨fun L n hn => ?_, fun L n hn => ?_, fun L q hq => ?_⟩
    · have hold := hwithin.searches L n (hcalls ▸ hn)
      rw [hcounter]
      split
      · rename_i hL
        rcases hcharged.searches with hzero | hcap
        · rw [hcharged.added, hL, Budget.add_searches]
          have hamount : c.call.amount.searches = 0 := hzero
          omega
        · exact hcap.trans (hn _ hcall p hmem hL)
      · exact hold
    · have hold := hwithin.fetches L n (hcalls ▸ hn)
      rw [hcounter]
      split
      · rename_i hL
        rcases hcharged.fetches with hzero | hcap
        · rw [hcharged.added, hL, Budget.add_fetches]
          have hamount : c.call.amount.fetches = 0 := hzero
          omega
        · exact hcap.trans (hn _ hcall p hmem hL)
      · exact hold
    · rw [hcounter]
      split
      · rename_i hL
        exact Or.inr (hcharged.cost.trans (hq _ hcall p hmem hL))
      · exact hwithin.cost L q (hcalls ▸ hq)

end Changes

/-! ## Runs -/

end Store

def StoreEvent.caller : StoreEvent → Option ℕ
  | .call _ => none
  | .tick _ => none
  | .step i => some i
  | .fail i => some i
  | .crash i => some i

namespace Store

variable {s s' : Store} {i : ℕ} {c : Caller}

/-- **Every event** makes a call, lets time pass, or is an operation of a caller: of its own, or a
quiet one. -/
theorem next_cases {e : StoreEvent} (h : s.next e = some s') :
    (e.caller = none ∧ s'.locks = s.locks ∧ s'.counter = s.counter ∧
      ∃ new : List Call, s'.callers = s.callers ++ new.map fun call =>
        { call, phase := .opening 0 (s.now + lockTimeoutS) }) ∨
    (∃ i c, e = .step i ∧ s.callers[i]? = some c ∧ Operates s i c s') ∨
    ∃ i c phase, e.caller = some i ∧ s.callers[i]? = some c ∧ Quiet s c phase ∧
      s' = s.setPhase i c phase := by
  cases e with
  | call c =>
    obtain rfl := Option.some.inj h
    exact Or.inl ⟨rfl, rfl, rfl, [c], rfl⟩
  | tick dt =>
    have htick : (if 0 ≤ dt then some { s with now := s.now + dt } else none) = some s' := h
    split at htick
    · obtain rfl := Option.some.inj htick
      exact Or.inl ⟨rfl, rfl, rfl, [], (List.append_nil s.callers).symm⟩
    · cases htick
  | step i =>
    obtain ⟨c, hc, hadvance⟩ := Option.bind_eq_some_iff.mp h
    exact Or.inr (Or.inl ⟨i, c, rfl, hc, operates_of_advance hadvance⟩)
  | fail i =>
    obtain ⟨c, hc, hfailed⟩ := Option.bind_eq_some_iff.mp h
    obtain ⟨phase, hphase, rfl⟩ := Option.map_eq_some_iff.mp hfailed
    exact Or.inr (Or.inr ⟨i, c, phase, rfl, hc, .failed hphase, rfl⟩)
  | crash i =>
    obtain ⟨c, hc, hcrash⟩ := Option.bind_eq_some_iff.mp h
    refine Or.inr (Or.inr ⟨i, c, .crashed, rfl, hc, .crashed, ?_⟩)
    cases hphase : c.phase <;> simp only [hphase, Option.some.injEq, reduceCtorEq] at hcrash <;>
      exact hcrash.symm

theorem changes_of_next {e : StoreEvent} (hinv : s.Inv) (h : s.next e = some s') :
    (e.caller = none ∧ s'.locks = s.locks ∧ s'.counter = s.counter ∧
      ∃ new : List Call, s'.callers = s.callers ++ new.map fun call =>
        { call, phase := .opening 0 (s.now + lockTimeoutS) }) ∨
    ∃ i c c', e.caller = some i ∧ s.callers[i]? = some c ∧ Changes s i c s' c' ∧
      (s.fair e = true → Owned s'.owner s'.Holds) := by
  rcases next_cases h with hnew | ⟨i, c, rfl, hi, hop⟩ | ⟨i, c, phase, he, hi, hquiet, rfl⟩
  · exact Or.inl hnew
  · have hconsistent := hinv.consistent i c hi
    obtain ⟨c', hchanges⟩ := changes_of_operates hop hconsistent
    refine Or.inr ⟨i, c, c', rfl, hi, hchanges, fun hfair => ?_⟩
    refine owned_of_operates hinv.owned hi (fun k o hphase => ?_) hop hfair
    unfold Consistent at hconsistent
    rw [hphase] at hconsistent
    exact hconsistent.1
  · obtain ⟨c', hchanges⟩ := changes_of_operates (.quiet hquiet) (hinv.consistent i c hi)
    exact Or.inr ⟨i, c, c', he, hi, hchanges, fun _ => owned_of_quiet hinv.owned hi hquiet⟩

theorem Inv.append (hinv : s.Inv) {new : List Call} {d : ℚ} (hlocks : s'.locks = s.locks)
    (hcounter : s'.counter = s.counter)
    (hcallers : s'.callers = s.callers ++ new.map fun call => { call, phase := .opening 0 d }) :
    s'.Inv := by
  have hold : ∀ (j : ℕ) (x : Caller), s'.callers[j]? = some x → s.callers[j]? = some x ∨
      ∃ call, x = { call, phase := .opening 0 d } := by
    intro j x hx
    rw [hcallers, List.getElem?_append] at hx
    split at hx
    · exact Or.inl hx
    · have hmem := List.mem_of_getElem? hx
      rw [List.mem_map] at hmem
      obtain ⟨call, -, rfl⟩ := hmem
      exact Or.inr ⟨call, rfl⟩
  refine ⟨fun j L hj => ?_, fun j x hx => ?_, fun L => ?_⟩
  · obtain ⟨x, hx, hL⟩ := hj
    have howner : s'.owner L = s.owner L := by
      unfold owner
      rw [hlocks]
    rw [howner]
    rcases hold j x hx with hx | ⟨call, rfl⟩
    · exact hinv.owned j L ⟨x, hx, hL⟩
    · simp [Caller.held, heldIn] at hL
  · rw [hcounter]
    rcases hold j x hx with hx | ⟨call, rfl⟩
    · exact hinv.consistent j x hx
    · rfl
  · have hzero : ((new.map fun call => ({ call, phase := .opening 0 d } : Caller)).map
        (·.paid L)).sum = 0 := by
      rw [List.map_map]
      refine List.sum_eq_zero fun b hb => ?_
      obtain ⟨call, -, rfl⟩ := List.mem_map.mp hb
      simp [Caller.paid]
    rw [hcounter, hcallers, List.map_append, List.sum_append, hzero, add_zero, hinv.balanced L]

theorem Within.append (hwithin : s.Within) {new : List Call} {d : ℚ}
    (hcounter : s'.counter = s.counter)
    (hcallers : s'.callers = s.callers ++ new.map fun call => { call, phase := .opening 0 d }) :
    s'.Within := by
  have hsub : ∀ c ∈ s.calls, c ∈ s'.calls := by
    intro c hc
    unfold calls at hc ⊢
    rw [hcallers, List.map_append]
    exact List.mem_append_left _ hc
  refine ⟨fun L n hn => ?_, fun L n hn => ?_, fun L q hq => ?_⟩
  · rw [hcounter]
    exact hwithin.searches L n fun c hc => hn c (hsub c hc)
  · rw [hcounter]
    exact hwithin.fetches L n fun c hc => hn c (hsub c hc)
  · rw [hcounter]
    exact hwithin.cost L q fun c hc => hq c (hsub c hc)

/-- The operations of a run are those of its callers, and a caller that has published nothing has
changed no counter. -/
structure Untouched (log : List (Transition Store StoreEvent)) (s : Store) : Prop where
  known : ∀ x ∈ log, ∀ i, x.event.caller = some i → i < s.callers.length
  unchanged : ∀ (i : ℕ) (c : Caller), s.callers[i]? = some c → c.published = 0 →
    ∀ x ∈ log, x.event.caller = some i → x.after.counter = x.before.counter

variable {log : List (Transition Store StoreEvent)}

theorem Untouched.append {e : StoreEvent} (h : Untouched log s) (he : e.caller = none)
    {new : List Caller} (hcallers : s'.callers = s.callers ++ new) :
    Untouched (⟨s, e, s'⟩ :: log) s' := by
  have hold : ∀ x ∈ (⟨s, e, s'⟩ : Transition Store StoreEvent) :: log, ∀ i,
      x.event.caller = some i → x ∈ log := by
    intro x hx i hxi
    rcases List.mem_cons.mp hx with rfl | hx
    · rw [he] at hxi
      cases hxi
    · exact hx
  refine ⟨fun x hx i hxi => ?_, fun i c hc hpublished x hx hxi => ?_⟩
  · have hlt := h.known x (hold x hx i hxi) i hxi
    rw [hcallers, List.length_append]
    omega
  · have hmem := hold x hx i hxi
    have hlt := h.known x hmem i hxi
    rw [hcallers, List.getElem?_append_left hlt] at hc
    exact h.unchanged i c hc hpublished x hmem hxi

theorem Untouched.changes {e : StoreEvent} {c' : Caller} (h : Untouched log s)
    (he : e.caller = some i) (hi : s.callers[i]? = some c) (hchanges : Changes s i c s' c') :
    Untouched (⟨s, e, s'⟩ :: log) s' := by
  have hlength : s'.callers.length = s.callers.length := by
    rw [hchanges.callers, List.length_set]
  have hlt := (List.getElem?_eq_some_iff.mp hi).1
  refine ⟨fun x hx j hxj => ?_, fun j y hy hpublished x hx hxj => ?_⟩
  · rw [hlength]
    rcases List.mem_cons.mp hx with rfl | hx
    · obtain rfl := Option.some.inj (he.symm.trans hxj)
      exact hlt
    · exact h.known x hx j hxj
  · rw [hchanges.callers, List.getElem?_set] at hy
    split at hy
    · rename_i hij
      subst hij
      obtain rfl := Option.some.inj hy
      rcases hchanges.counter with ⟨hcounter, hkept⟩ | ⟨p, b, -, -, -, hnext, -⟩
      · rcases List.mem_cons.mp hx with rfl | hx
        · exact hcounter
        · exact h.unchanged i c hi (hkept ▸ hpublished) x hx hxj
      · omega
    · rename_i hij
      rcases List.mem_cons.mp hx with rfl | hx
      · exact absurd (Option.some.inj (he.symm.trans hxj)) hij
      · exact h.unchanged j y hy hpublished x hx hxj

/-- **Every fair event keeps what is known of a run.** -/
theorem known_of_next {e : StoreEvent} (hinv : s.Inv) (hwithin : s.Within)
    (huntouched : Untouched log s) (h : s.next e = some s') (hfair : s.fair e = true) :
    s'.Inv ∧ s'.Within ∧ Untouched (⟨s, e, s'⟩ :: log) s' := by
  rcases changes_of_next hinv h with ⟨he, hlocks, hcounter, new, hcallers⟩ |
    ⟨i, c, c', he, hi, hchanges, howned⟩
  · exact ⟨hinv.append hlocks hcounter hcallers, hwithin.append hcounter hcallers,
      huntouched.append he hcallers⟩
  · exact ⟨hchanges.inv hi hinv (howned hfair), hchanges.within hi hwithin,
      huntouched.changes he hi hchanges⟩

theorem inv_init : ({} : Store).Inv := by
  refine ⟨fun j L hj => ?_, fun j x hx => (nomatch hx), fun L => ?_⟩
  · obtain ⟨x, hx, -⟩ := hj
    cases hx
  · rw [counter, Dict.get?_empty]
    rfl

theorem within_init : ({} : Store).Within := by
  have hzero : ∀ L, ({} : Store).counter L = 0 := fun L => by
    rw [counter, Dict.get?_empty]
    rfl
  refine ⟨fun L n _ => ?_, fun L n _ => ?_, fun L q _ => Or.inl (hzero L)⟩
  · rw [hzero]
    exact Nat.zero_le n
  · rw [hzero]
    exact Nat.zero_le n

/-- **What is known of a run** whose steps are all fair. -/
theorem known_of_run (run : StoreRun log s) (hfair : ∀ x ∈ log, x.before.fair x.event = true) :
    s.Inv ∧ s.Within ∧ Untouched log s := by
  refine Run.induct (P := fun log s => (∀ x ∈ log, x.before.fair x.event = true) →
    s.Inv ∧ s.Within ∧ Untouched log s) ?_ ?_ run hfair
  · intro _
    exact ⟨inv_init, within_init, ⟨nofun,
      fun i c hc => nomatch hc⟩⟩
  · intro log s e s' _ ih hstep hall
    obtain ⟨hinv, hwithin, huntouched⟩ := ih fun x hx => hall x (List.mem_cons_of_mem _ hx)
    exact known_of_next hinv hwithin huntouched hstep (hall _ List.mem_cons_self)

/-! ## What the store promises -/

end Store

def Caller.completed (c : Caller) (L : String) : Budget :=
  if c.phase = .finished .charged ∧ L ∈ c.call.parts.map (·.counter) then c.call.amount else 0

theorem Call.zero_le_amount (c : Call) : 0 ≤ c.amount := by
  refine ⟨Nat.zero_le _, Nat.zero_le _, ?_⟩
  show (0 : ℚ) ≤ c.search * searchCostUsd + c.fetch * fetchCostUsd
  unfold searchCostUsd fetchCostUsd
  positivity

theorem Caller.completed_le_paid {counter : String → Budget} {c : Caller} (h : Consistent counter c)
    (L : String) : c.completed L ≤ c.paid L := by
  unfold Caller.completed Caller.paid
  split
  · rename_i hdone
    unfold Consistent at h
    rw [hdone.1] at h
    rw [h.2 rfl, List.take_length, if_pos hdone.2]
    exact Budget.le_self _
  · split
    · exact c.call.zero_le_amount
    · exact Budget.le_self _

theorem sum_completed_le (counter : String → Budget) {callers : List Caller}
    (h : ∀ c ∈ callers, Consistent counter c) (L : String) :
    (callers.map (·.completed L)).sum ≤ (callers.map (·.paid L)).sum := by
  induction callers with
  | nil => exact Budget.le_self _
  | cons c callers ih =>
    rw [List.map_cons, List.map_cons, List.sum_cons, List.sum_cons]
    exact Budget.add_mono (Caller.completed_le_paid (h c List.mem_cons_self) L)
      (ih fun x hx => h x (List.mem_cons_of_mem _ hx))

/-- What the store promises in a state that a run ends in. -/
structure Sound (log : List (Transition Store StoreEvent)) (s : Store) : Prop where
  /-- At most one caller is inside of a lock. -/
  exclusive : ∀ i j L, s.Holds i L → s.Holds j L → i = j
  /-- No completed charge is lost. -/
  kept : ∀ L, (s.callers.map (·.completed L)).sum ≤ s.counter L
  /-- No counter exceeds the caps it is charged under. -/
  within : s.Within
  /-- A refused charge has changed no counter. -/
  refused : ∀ (i : ℕ) (c : Caller) (L : String) (e : BudgetExceeded), s.callers[i]? = some c →
    c.phase = .finished (.refused L e) →
    ∀ x ∈ log, x.event.caller = some i → x.after.counter = x.before.counter

/-- **The budget store is sound in every run in which no step unlinks, as stale, a lock that some
caller is inside of.** -/
theorem sound_of_fair {log : List (Transition Store StoreEvent)} {s : Store} (run : StoreRun log s)
    (hfair : ∀ x ∈ log, x.before.fair x.event = true) : Sound log s := by
  obtain ⟨hinv, hwithin, huntouched⟩ := Store.known_of_run run hfair
  refine ⟨fun i j L => hinv.owned.exclusive, fun L => ?_, hwithin, fun i c L e hi hphase => ?_⟩
  · rw [hinv.balanced L]
    refine sum_completed_le s.counter (fun c hc => ?_) L
    obtain ⟨i, hi⟩ := List.mem_iff_getElem?.mp hc
    exact hinv.consistent i c hi
  · have hconsistent := hinv.consistent i c hi
    unfold Consistent at hconsistent
    rw [hphase] at hconsistent
    exact huntouched.unchanged i c hi (hconsistent.1 L e rfl)

theorem Store.holds_of_map_held {s : Store} {i : ℕ} {held : List String} {L : String}
    (h : (s.callers.map (·.held))[i]? = some held) (hL : L ∈ held) : s.Holds i L := by
  rw [List.getElem?_map] at h
  obtain ⟨c, hc, rfl⟩ := Option.map_eq_some_iff.mp h
  exact ⟨c, hc, hL⟩

def sampleCaps : Caps where
  maxSearches := 5
  maxFetches := 10
  maxCostUsd := 1

/-- A caller crashes inside of the lock of the run; another steals the lock and charges both of its
counters. -/
def stealFromCrashed : List StoreEvent :=
  [.call (.chargePersisted sampleCaps 1 0 "run"), .step 0, .crash 0,
    .call (.chargeScoped sampleCaps 2 1 "sq-1" 4), .step 1, .step 1, .tick 11, .step 1, .step 1,
    .step 1, .step 1, .step 1, .step 1, .step 1, .step 1, .step 1]

theorem sound_of_fair_sample : ∃ log s, StoreRun log s ∧ Sound log s ∧
    s.counter "run" = (Call.chargeScoped sampleCaps 2 1 "sq-1" 4).amount := by
  have heval : (runScript Store.next ([], {}) stealFromCrashed).map (fun q =>
      (q.1.all fun x => x.before.fair x.event, q.2.counter "run")) =
      some (true, (Call.chargeScoped sampleCaps 2 1 "sq-1" 4).amount) := by decide +kernel
  obtain ⟨log, s, run, hview⟩ := Run.exists_of_runScript heval
  obtain ⟨hfair, hcounter⟩ := Prod.mk.inj hview
  exact ⟨log, s, run, sound_of_fair run (List.all_eq_true.mp hfair), hcounter⟩

/-- Two callers charge one search each.  The first is delayed after it has read the counter, and the
second finds its lock eleven seconds old. -/
def slowHolder : List StoreEvent :=
  [.call (.chargePersisted sampleCaps 1 0 "run"), .step 0, .step 0,
    .call (.chargePersisted sampleCaps 1 0 "run"), .step 1, .tick 11, .step 1, .step 1, .step 1]

/-- **Two callers are inside of one lock, and of their two charges one is lost.** -/
theorem charge_lost :
    (∃ log s, StoreRun log s ∧ s.Holds 0 "run" ∧ s.Holds 1 "run") ∧
      ∃ log s, StoreRun log s ∧ s.counter "run" = ⟨1, 0, 1 / 100⟩ ∧
        (s.callers.map (·.completed "run")).sum = ⟨2, 0, 2 / 100⟩ ∧ ¬Sound log s := by
  constructor
  · have heval : (runScript Store.next ([], {}) slowHolder).map (fun q =>
        q.2.callers.map (·.held)) = some [["run"], ["run"]] := by decide +kernel
    obtain ⟨log, s, run, hheld⟩ := Run.exists_of_runScript heval
    refine ⟨log, s, run, ?_, ?_⟩
    · exact Store.holds_of_map_held (hheld ▸ rfl) (List.mem_singleton.mpr rfl)
    · exact Store.holds_of_map_held (hheld ▸ rfl) (List.mem_singleton.mpr rfl)
  · have heval : (runScript Store.next ([], {}) (slowHolder ++
        [.step 1, .step 1, .step 1, .step 0, .step 0])).map (fun q =>
          (q.2.counter "run", (q.2.callers.map (·.completed "run")).sum)) =
        some (⟨1, 0, 1 / 100⟩, ⟨2, 0, 2 / 100⟩) := by decide +kernel
    obtain ⟨log, s, run, hview⟩ := Run.exists_of_runScript heval
    obtain ⟨hcounter, hsum⟩ := Prod.mk.inj hview
    refine ⟨log, s, run, hcounter, hsum, ?_⟩
    intro h
    have hkept := (h.kept "run").1
    rw [hcounter, hsum] at hkept
    exact absurd hkept (by decide)

end Kroker.Research
