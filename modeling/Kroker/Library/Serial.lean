import Kroker.Library.Run
import Mathlib.Algebra.Order.Group.Unbundled.Int
import Mathlib.Data.List.Nodup

/-!
# Serial histories

A store takes calls one at a time and some of them commit.  `history` lists what was committed, oldest
first.  Whatever else a run held (calls that were refused, that failed half-way, or that changed
something else), a part of the state that only commits change is what the history alone makes of it.


## 2.  Registries

A `Registry` has a version, a row under each key and a log of each key, and commits batches of rows.
`Registry.serialized_of_run` puts the three results together for it.
-/

namespace Kroker

namespace Serial

variable {σ ε η ν : Type} {init : σ} {next : σ → ε → Option σ}

/-! ## 1.  Histories -/

/-- What a run committed, oldest first. -/
def history (commit : Transition σ ε → Option η) (log : List (Transition σ ε)) : List η :=
  log.reverse.filterMap commit

theorem history_nil (commit : Transition σ ε → Option η) : history commit [] = [] := rfl

theorem history_cons (commit : Transition σ ε → Option η) (t : Transition σ ε)
    (log : List (Transition σ ε)) :
    history commit (t :: log) = history commit log ++ (commit t).toList := by
  rw [history, List.reverse_cons, List.filterMap_append, history]
  cases h : commit t with
  | none => rw [List.filterMap_cons_none h, Option.toList_none, List.filterMap_nil]
  | some entry => rw [List.filterMap_cons_some h, Option.toList_some, List.filterMap_nil]

/-- **A part of the state that only commits change** is the fold of the history. -/
theorem view_of_run {commit : Transition σ ε → Option η} (view : σ → ν) (record : ν → η → ν)
    (hnone : ∀ s e s', next s e = some s' → commit ⟨s, e, s'⟩ = none → view s' = view s)
    (hsome : ∀ s e s' entry, next s e = some s' → commit ⟨s, e, s'⟩ = some entry →
      view s' = record (view s) entry)
    {log : List (Transition σ ε)} {s : σ} (run : Run init next log s) :
    view s = (history commit log).foldl record (view init) := by
  induction run with
  | start => rfl
  | @step log s s' e run accepted ih =>
    rw [history_cons, List.foldl_append, ← ih]
    cases h : commit ⟨s, e, s'⟩ with
    | none => exact hnone s e s' accepted h
    | some entry => exact hsome s e s' entry accepted h

/-- **Optimistic versions**: the version counts the commits, and no two of them expected the same. -/
theorem version_of_run {commit : Transition σ ε → Option η} (version : σ → ℤ) (expected : η → ℤ)
    (hnone : ∀ s e s', next s e = some s' → commit ⟨s, e, s'⟩ = none → version s' = version s)
    (hsome : ∀ s e s' entry, next s e = some s' → commit ⟨s, e, s'⟩ = some entry →
      expected entry = version s ∧ version s' = version s + 1)
    {log : List (Transition σ ε)} {s : σ} (run : Run init next log s) :
    version s = version init + (history commit log).length ∧
      ((history commit log).map expected).Nodup := by
  suffices h : version s = version init + (history commit log).length ∧
      (∀ entry ∈ history commit log, expected entry < version s) ∧
      ((history commit log).map expected).Nodup from ⟨h.1, h.2.2⟩
  induction run with
  | start => exact ⟨by simp [history_nil], nofun, List.nodup_nil⟩
  | @step log s s' e run accepted ih =>
    obtain ⟨hversion, hbelow, hnodup⟩ := ih
    rw [history_cons]
    cases h : commit ⟨s, e, s'⟩ with
    | none =>
      rw [hnone s e s' accepted h, Option.toList_none, List.append_nil]
      exact ⟨hversion, hbelow, hnodup⟩
    | some entry =>
      obtain ⟨hexpected, hnext⟩ := hsome s e s' entry accepted h
      rw [Option.toList_some]
      refine ⟨?_, fun other hother => ?_, ?_⟩
      · rw [hnext, hversion, List.length_append, List.length_singleton]
        omega
      · rcases List.mem_append.mp hother with hother | hother
        · have hlt := hbelow other hother
          omega
        · rw [List.mem_singleton.mp hother]
          omega
      · rw [List.map_append, List.map_singleton, List.nodup_append]
        refine ⟨hnodup, List.nodup_singleton _, fun v hv w hw => ?_⟩
        obtain ⟨other, hother, rfl⟩ := List.mem_map.mp hv
        have hlt := hbelow other hother
        rw [List.mem_singleton.mp hw, hexpected]
        omega

theorem foldl_append {α : Type} (f : η → List α) (l : List η) (start : List α) :
    l.foldl (fun log entry => log ++ f entry) start = start ++ l.flatMap f := by
  induction l generalizing start with
  | nil => rw [List.foldl_nil, List.flatMap_nil, List.append_nil]
  | cons entry l ih => rw [List.foldl_cons, ih, List.flatMap_cons, List.append_assoc]

theorem foldl_flatMap {α : Type} (f : η → List α) (g : ν → α → ν) (l : List η) (start : ν) :
    l.foldl (fun acc entry => (f entry).foldl g acc) start = (l.flatMap f).foldl g start := by
  rw [List.flatMap, List.foldl_flatten, List.foldl_map]

def put {ρ : Type} (merge : ρ → ρ → ρ) (stored : Option ρ) (row : ρ) : Option ρ :=
  some ((stored.map (merge · row)).getD row)

/-- **Where a merge keeps nothing of the rows between**, what is stored is found from the first row and
the last. -/
theorem foldl_put {ρ : Type} {merge : ρ → ρ → ρ} (hself : ∀ a, merge a a = a)
    (hmerge : ∀ a b c, merge (merge a b) c = merge a c) {rows : List ρ} {first last : ρ}
    (hfirst : rows.head? = some first) (hlast : rows.getLast? = some last) :
    rows.foldl (put merge) none = some (merge first last) := by
  have hrest : ∀ (rest : List ρ) (latest : ρ), rest.foldl (put merge) (some (merge first latest)) =
      some (merge first (rest.getLast?.getD latest)) := by
    intro rest
    induction rest with
    | nil => exact fun latest => rfl
    | cons row rest ih =>
      intro latest
      have hput : put merge (some (merge first latest)) row = some (merge first row) :=
        congrArg some (hmerge first latest row)
      rw [List.foldl_cons, hput, ih, List.getLast?_cons, Option.getD_some]
  cases rows with
  | nil => cases hfirst
  | cons row rest =>
    obtain rfl := Option.some.inj hfirst
    rw [List.getLast?_cons] at hlast
    have hput : put merge none row = some (merge row row) := congrArg some (hself row).symm
    rw [List.foldl_cons, hput, hrest, Option.some.inj hlast]

/-! ## 2.  Registries -/

/-- A registry whose commits are batches of rows, each of which is put under its key and recorded. -/
structure Registry (σ ε η κ ρ α : Type) where
  commit : Transition σ ε → Option η
  version : σ → ℤ
  expected : η → ℤ
  rowAt : σ → κ → Option ρ
  eventsAt : σ → κ → List α
  /-- The rows of a batch that have the key. -/
  rowsOf : η → κ → List ρ
  record : η → ρ → α
  merge : ρ → ρ → ρ

namespace Registry

variable {κ ρ α : Type}

/-- What a call does to a registry, if it commits a batch and if it does not. -/
structure Lawful (R : Registry σ ε η κ ρ α) (init : σ) (next : σ → ε → Option σ) : Prop where
  merge_self : ∀ a, R.merge a a = a
  merge_merge : ∀ a b c, R.merge (R.merge a b) c = R.merge a c
  start : R.version init = 0 ∧ ∀ k, R.rowAt init k = none ∧ R.eventsAt init k = []
  idle : ∀ s e s', next s e = some s' → R.commit ⟨s, e, s'⟩ = none →
    R.version s' = R.version s ∧
      ∀ k, R.rowAt s' k = R.rowAt s k ∧ R.eventsAt s' k = R.eventsAt s k
  commits : ∀ s e s' batch, next s e = some s' → R.commit ⟨s, e, s'⟩ = some batch →
    (R.expected batch = R.version s ∧ R.version s' = R.version s + 1) ∧
      ∀ k, R.rowAt s' k = (R.rowsOf batch k).foldl (put R.merge) (R.rowAt s k) ∧
        R.eventsAt s' k = R.eventsAt s k ++ (R.rowsOf batch k).map (R.record batch)

/-- **No write is lost**: the version counts the batches committed, no two of which expected the same
version; a row is the last written under its key, merged with the first; and the log of a key has the
rows that were written there, in order. -/
structure Serialized (R : Registry σ ε η κ ρ α) (log : List (Transition σ ε)) (s : σ) : Prop where
  version : R.version s = (history R.commit log).length
  expected : ((history R.commit log).map R.expected).Nodup
  unwritten : ∀ k, (history R.commit log).flatMap (R.rowsOf · k) = [] → R.rowAt s k = none
  row : ∀ k first last, ((history R.commit log).flatMap (R.rowsOf · k)).head? = some first →
    ((history R.commit log).flatMap (R.rowsOf · k)).getLast? = some last →
      R.rowAt s k = some (R.merge first last)
  events : ∀ k, R.eventsAt s k = (history R.commit log).flatMap fun batch =>
    (R.rowsOf batch k).map (R.record batch)

/-- **What a run leaves of a registry** is what its history makes of it. -/
theorem serialized_of_run {R : Registry σ ε η κ ρ α} (h : R.Lawful init next)
    {log : List (Transition σ ε)} {s : σ} (run : Run init next log s) : R.Serialized log s := by
  obtain ⟨hversion, hexpected⟩ := version_of_run R.version R.expected
    (fun s e s' hnext hnone => (h.idle s e s' hnext hnone).1)
    (fun s e s' batch hnext hsome => (h.commits s e s' batch hnext hsome).1) run
  have hrow : ∀ k, R.rowAt s k =
      ((history R.commit log).flatMap (R.rowsOf · k)).foldl (put R.merge) none := by
    intro k
    have hview := view_of_run (R.rowAt · k)
      (fun stored batch => (R.rowsOf batch k).foldl (put R.merge) stored)
      (fun s e s' hnext hnone => ((h.idle s e s' hnext hnone).2 k).1)
      (fun s e s' batch hnext hsome => ((h.commits s e s' batch hnext hsome).2 k).1) run
    rw [hview, foldl_flatMap, (h.start.2 k).1]
  have hevents : ∀ k, R.eventsAt s k = (history R.commit log).flatMap fun batch =>
      (R.rowsOf batch k).map (R.record batch) := by
    intro k
    have hview := view_of_run (R.eventsAt · k)
      (fun stored batch => stored ++ (R.rowsOf batch k).map (R.record batch))
      (fun s e s' hnext hnone => ((h.idle s e s' hnext hnone).2 k).2)
      (fun s e s' batch hnext hsome => ((h.commits s e s' batch hnext hsome).2 k).2) run
    rw [hview, foldl_append, (h.start.2 k).2, List.nil_append]
  refine ⟨?_, hexpected, fun k hnil => ?_, fun k first last hfirst hlast => ?_, hevents⟩
  · rw [hversion, h.start.1, zero_add]
  · rw [hrow, hnil, List.foldl_nil]
  · rw [hrow, foldl_put h.merge_self h.merge_merge hfirst hlast]

end Registry

end Serial

end Kroker
