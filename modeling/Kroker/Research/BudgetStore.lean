import Kroker.Library.Dict
import Kroker.Library.Except
import Kroker.Library.Run
import Mathlib.Algebra.Field.Rat
import Mathlib.Algebra.BigOperators.Group.List.Basic
import Mathlib.Algebra.Order.Ring.Rat

/-!
# The research budget store

`stages/research/budget_store.py` keeps the counters of a run in files, one for each scope, and
charges them under lock files.  A lock is taken by creating its file exclusively; a lock file that
is older than ten seconds is unlinked by whoever waits for it, and a lock is released by unlinking
whatever file is there.

Any number of callers run at once.  A step of a caller is one operation on the files, with what the
code computes from it up to the next operation, so that a caller may be delayed between any two of
its operations.  A caller may also crash, or have an operation raise.  A counter is published by one
atomic `os.replace`; the temporary file that is written before it is the caller's own.

`charge_persisted` charges one counter and `charge_scoped` two, under both locks.  Both are lists of
the counters they charge (`Call.parts`), in the order in which the locks are taken; the counters are
checked in the opposite order.  Amounts of dollars are exact.
-/

namespace Kroker.Research

/-! ## 1. Budgets and charges -/

@[ext] structure Budget where
  searches : ℕ := 0
  fetches : ℕ := 0
  costUsd : ℚ := 0
  deriving DecidableEq

namespace Budget

instance : Zero Budget := ⟨{}⟩

instance : Add Budget :=
  ⟨fun a b => ⟨a.searches + b.searches, a.fetches + b.fetches, a.costUsd + b.costUsd⟩⟩

@[simp] theorem zero_searches : (0 : Budget).searches = 0 := rfl
@[simp] theorem zero_fetches : (0 : Budget).fetches = 0 := rfl
@[simp] theorem zero_costUsd : (0 : Budget).costUsd = 0 := rfl

@[simp] theorem add_searches (a b : Budget) : (a + b).searches = a.searches + b.searches := rfl
@[simp] theorem add_fetches (a b : Budget) : (a + b).fetches = a.fetches + b.fetches := rfl
@[simp] theorem add_costUsd (a b : Budget) : (a + b).costUsd = a.costUsd + b.costUsd := rfl

instance : AddCommMonoid Budget where
  add_assoc a b c := by ext <;> simp [add_assoc]
  zero_add a := by ext <;> simp
  add_zero a := by ext <;> simp
  add_comm a b := by ext <;> simp [add_comm]
  nsmul := nsmulRec

/-- A budget of which no component is greater. -/
instance : LE Budget :=
  ⟨fun a b => a.searches ≤ b.searches ∧ a.fetches ≤ b.fetches ∧ a.costUsd ≤ b.costUsd⟩

theorem add_mono {a b c d : Budget} (h : a ≤ b) (h' : c ≤ d) : a + c ≤ b + d :=
  ⟨Nat.add_le_add h.1 h'.1, Nat.add_le_add h.2.1 h'.2.1, add_le_add h.2.2 h'.2.2⟩

theorem le_self (a : Budget) : a ≤ a := ⟨le_refl _, le_refl _, le_refl _⟩

end Budget

def searchCostUsd : ℚ := 1 / 100

def fetchCostUsd : ℚ := 2 / 100

def lockTimeoutS : ℚ := 10

/-- The caps of `ResearchDeps` that a charge is checked against. -/
structure Caps where
  maxSearches : ℕ
  maxFetches : ℕ
  maxCostUsd : ℚ

/-- `BudgetExceeded`, with the cap that it names. -/
inductive BudgetExceeded where
  | searches (maxSearches : ℕ)
  | fetches (maxFetches : ℕ)
  | cost (maxCostUsd : ℚ)
  deriving DecidableEq

/-- `charge`: enforce the bounds, then account for it. -/
def charge (caps : Caps) (search fetch : ℕ) (b : Budget) : Except BudgetExceeded Budget :=
  if search ≠ 0 ∧ caps.maxSearches < b.searches + search then
    .error (.searches caps.maxSearches)
  else if fetch ≠ 0 ∧ caps.maxFetches < b.fetches + fetch then
    .error (.fetches caps.maxFetches)
  else
    let projected := b.costUsd + search * searchCostUsd + fetch * fetchCostUsd
    if caps.maxCostUsd < projected then .error (.cost caps.maxCostUsd)
    else .ok { searches := b.searches + search, fetches := b.fetches + fetch, costUsd := projected }

/-! ## 2. Calls -/

/-- A call of `charge_persisted` or of `charge_scoped`. -/
inductive Call where
  | chargePersisted (caps : Caps) (search fetch : ℕ) (scope : String)
  | chargeScoped (caps : Caps) (search fetch : ℕ) (scope : String) (runMaxCostUsd : ℚ)

/-- A counter that a call charges, and the caps it is checked against. -/
structure Part where
  counter : String
  caps : Caps

namespace Call

def search : Call → ℕ
  | chargePersisted _ search _ _ => search
  | chargeScoped _ search _ _ _ => search

def fetch : Call → ℕ
  | chargePersisted _ _ fetch _ => fetch
  | chargeScoped _ _ fetch _ _ => fetch

/-- The counters that are charged, in the order in which their locks are taken: the scope, then the
run.  The run's own scope is charged once, within the tighter of the two cost caps. -/
def parts : Call → List Part
  | chargePersisted caps _ _ scope => [⟨scope, caps⟩]
  | chargeScoped caps _ _ scope runMaxCostUsd =>
    if scope = "run" then
      [⟨"run", { caps with maxCostUsd := min caps.maxCostUsd runMaxCostUsd }⟩]
    else
      [⟨scope, caps⟩,
        ⟨"run", { maxSearches := 10 ^ 9, maxFetches := 10 ^ 9, maxCostUsd := runMaxCostUsd }⟩]

/-- What the call adds to each of its counters. -/
def amount (c : Call) : Budget where
  searches := c.search
  fetches := c.fetch
  costUsd := c.search * searchCostUsd + c.fetch * fetchCostUsd

/-- Check the counters, the run ceiling before the scope. -/
def chargeAll (c : Call) : List (Part × Budget) → Except (String × BudgetExceeded) (List Budget)
  | [] => .ok []
  | (p, b) :: rest => do
    let later ← chargeAll c rest
    let charged ← (charge p.caps c.search c.fetch b).mapError fun e => (p.counter, e)
    return charged :: later

end Call

/-! ## 3. Callers -/

/-- What a call ends with. -/
inductive Outcome where
  | charged
  /-- `BudgetExceeded`, by the check of a counter. -/
  | refused (counter : String) (e : BudgetExceeded)
  /-- The `TimeoutError` of a lock. -/
  | timedOut (counter : String)
  /-- Any other error, or the cancellation of the caller. -/
  | raised
  deriving DecidableEq

/-- The next operation of a caller.  The counters of a call are counted from 0. -/
inductive Phase where
  /-- `os.open` of lock `k`; the locks before it are held. -/
  | opening (k : ℕ) (deadline : ℚ)
  /-- `stat` of lock `k`, which was there. -/
  | checking (k : ℕ) (deadline : ℚ)
  /-- `unlink` of lock `k`, which was found to be stale. -/
  | stealing (k : ℕ) (deadline : ℚ)
  /-- Reading the next counter, after these values. -/
  | reading (got : List Budget)
  /-- `os.replace` of the next counter, of these new values. -/
  | publishing (new : List Budget)
  /-- `unlink` of the last of the first `k` locks, which are held. -/
  | releasing (k : ℕ) (o : Outcome)
  | finished (o : Outcome)
  | crashed
  deriving DecidableEq

structure Caller where
  call : Call
  phase : Phase
  /-- How many of its counters the caller has published. -/
  published : ℕ := 0

/-- A lock file.  Nothing reads who has created it. -/
structure LockFile where
  mtime : ℚ
  owner : ℕ

/-- The files of a run, the time, and the callers. -/
structure Store where
  now : ℚ := 0
  locks : Dict LockFile := ∅
  counters : Dict Budget := ∅
  callers : List Caller := []

inductive StoreEvent where
  | call (c : Call)
  | tick (dt : ℚ)
  /-- The next operation of a caller. -/
  | step (i : ℕ)
  /-- The next operation of a caller raises. -/
  | fail (i : ℕ)
  | crash (i : ℕ)

/-- Release the first `k` locks, and end with `o`. -/
def unwind (k : ℕ) (o : Outcome) : Phase := if k = 0 then .finished o else .releasing k o

namespace Store

/-- `_read_counter`. -/
def counter (s : Store) (k : String) : Budget := (s.counters[k]?).getD 0

def setPhase (s : Store) (i : ℕ) (c : Caller) (phase : Phase) : Store :=
  { s with callers := s.callers.set i { c with phase } }

/-- Create lock `k`, if it is not there. -/
def openLock (s : Store) (i : ℕ) (c : Caller) (k : ℕ) (deadline : ℚ) (p : Part) : Store :=
  match s.locks[p.counter]? with
  | some _ => s.setPhase i c (.checking k deadline)
  | none =>
    let s := { s with locks := s.locks.insert p.counter { mtime := s.now, owner := i } }
    if k + 1 < c.call.parts.length then
      s.setPhase i c (.opening (k + 1) (s.now + lockTimeoutS))
    else s.setPhase i c (.reading [])

/-- `time.time() - lock_path.stat().st_mtime`; a file that is gone has no age. -/
def age (s : Store) (counter : String) : ℚ :=
  match s.locks[counter]? with
  | some f => s.now - f.mtime
  | none => 0

/-- How old is lock `k`? -/
def checkLock (s : Store) (i : ℕ) (c : Caller) (k : ℕ) (deadline : ℚ) (p : Part) : Store :=
  if lockTimeoutS < s.age p.counter then s.setPhase i c (.stealing k deadline)
  else if deadline < s.now then s.setPhase i c (unwind k (.timedOut p.counter))
  else s.setPhase i c (.opening k deadline)

def unlink (s : Store) (counter : String) : Store := { s with locks := s.locks.erase counter }

/-- What the caller does with the values it has read. -/
def decided (c : Caller) (got : List Budget) : Phase :=
  match c.call.chargeAll (c.call.parts.zip got) with
  | .ok new => .publishing new
  | .error (counter, e) => unwind c.call.parts.length (.refused counter e)

def readCounter (s : Store) (i : ℕ) (c : Caller) (got : List Budget) (p : Part) : Store :=
  let got := got ++ [s.counter p.counter]
  if got.length < c.call.parts.length then s.setPhase i c (.reading got)
  else s.setPhase i c (decided c got)

/-- `_publish_counter`. -/
def publish (s : Store) (i : ℕ) (c : Caller) (new : List Budget) (p : Part) (b : Budget) : Store :=
  let s := { s with counters := s.counters.insert p.counter b }
  let c := { c with published := c.published + 1 }
  if c.published < c.call.parts.length then s.setPhase i c (.publishing new)
  else s.setPhase i c (unwind c.call.parts.length .charged)

/-- The next operation of caller `i`. -/
def advance (s : Store) (i : ℕ) (c : Caller) : Option Store :=
  match c.phase with
  | .opening k deadline => (c.call.parts[k]?).map fun p => s.openLock i c k deadline p
  | .checking k deadline => (c.call.parts[k]?).map fun p => s.checkLock i c k deadline p
  | .stealing k deadline => (c.call.parts[k]?).map fun p =>
    (s.unlink p.counter).setPhase i c (.opening k deadline)
  | .reading got => (c.call.parts[got.length]?).map fun p => s.readCounter i c got p
  | .publishing new =>
    match c.call.parts[c.published]?, new[c.published]? with
    | some p, some b => some (s.publish i c new p b)
    | _, _ => none
  | .releasing k o => (c.call.parts[k - 1]?).map fun p =>
    (s.unlink p.counter).setPhase i c (unwind (k - 1) o)
  | .finished _ => none
  | .crashed => none

/-- Where a caller goes on when its next operation raises. -/
def failed (c : Caller) : Option Phase :=
  match c.phase with
  | .opening k _ => some (unwind k .raised)
  | .checking k _ => some (unwind k .raised)
  | .stealing k _ => some (unwind k .raised)
  | .reading _ => some (unwind c.call.parts.length .raised)
  | .publishing _ => some (unwind c.call.parts.length .raised)
  | .releasing k _ => some (unwind (k - 1) .raised)
  | .finished _ => none
  | .crashed => none

def next (s : Store) : StoreEvent → Option Store
  | .call c => some { s with
      callers := s.callers ++ [{ call := c, phase := .opening 0 (s.now + lockTimeoutS) }] }
  | .tick dt => if 0 ≤ dt then some { s with now := s.now + dt } else none
  | .step i => (s.callers[i]?).bind fun c => s.advance i c
  | .fail i => (s.callers[i]?).bind fun c => (failed c).map fun phase => s.setPhase i c phase
  | .crash i => (s.callers[i]?).bind fun c => match c.phase with
    | .finished _ => none
    | _ => some (s.setPhase i c .crashed)

end Store

abbrev StoreRun := Run ({} : Store) Store.next

end Kroker.Research
