import Mathlib.Tactic.Common

/-!
# Flows: computations that perform actions and may raise

A `Flow` performs actions one after the other, raises or returns, and leaves the list of what it
performed.  What an action comes to is given with it.  `perform` raises where the action fails;
`attempt` hands the failure to the flow, as a `try` does.

`ended` is what a flow has come to, and `ended_bind` takes a flow apart: with the rules for the
single actions it turns a flow into its cases.
-/

namespace Kroker

/-- A computation that performs actions of `act` and may raise an `ε`. -/
abbrev Flow (act ε α : Type) := ExceptT ε (StateM (List act)) α

namespace Flow

variable {act ε ε' α β : Type}

/-- Perform an action; where it fails, the flow raises. -/
def perform (a : act) (outcome : Except ε α) : Flow act ε α := do
  modify (· ++ [a])
  match outcome with
  | .ok r => return r
  | .error e => throw e

/-- Perform an action, and go on with its outcome. -/
def attempt (a : act) (outcome : Except ε' α) : Flow act ε (Except ε' α) := do
  modify (· ++ [a])
  return outcome

/-- What a flow has come to, where `log` had been performed before: what it raised or returned, and
everything performed. -/
def ended (x : Flow act ε α) (log : List act) : Except ε α × List act := (ExceptT.run x).run log

theorem ended_bind (x : Flow act ε α) (f : α → Flow act ε β) (log : List act) :
    ended (x >>= f) log = match ended x log with
      | (.ok a, log) => ended (f a) log
      | (.error e, log) => (.error e, log) := by
  rw [ended, ExceptT.run_bind, StateT.run_bind, ended]
  rcases (ExceptT.run x).run log with ⟨r, l⟩
  cases r <;> rfl

@[simp] theorem ended_perform (a : act) (outcome : Except ε α) (log : List act) :
    ended (perform a outcome) log = (outcome, log ++ [a]) := by
  cases outcome <;> rfl

@[simp] theorem ended_attempt (a : act) (outcome : Except ε' α) (log : List act) :
    ended (attempt a outcome : Flow act ε (Except ε' α)) log = (.ok outcome, log ++ [a]) :=
  rfl

@[simp] theorem ended_liftM (x : Except ε α) (log : List act) :
    ended (liftM x : Flow act ε α) log = (x, log) := by
  cases x <;> rfl

end Flow

end Kroker
