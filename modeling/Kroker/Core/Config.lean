import Kroker.Core.Text

/-!
# Shared configuration records

The part of `core/models.py` that gates, roles and graphs are configured with.  A field that no
modelled function reads is left out; one that is only compared with `None` keeps its type.
-/

namespace Kroker

inductive GatePolicy where
  | hard
  | soft
  | off
  deriving DecidableEq

inductive GateOutcome where
  | approve
  | reject
  | revise
  deriving DecidableEq

/-- What an expired gate does. -/
inductive TimeoutAction where
  | reject
  | approve
  | hold
  deriving DecidableEq

theorem pos_of_none : ∀ h : ℕ, none = some h → 0 < h := nofun

/-- Per-gate policy and timer schedule.  `remind_after_hours` and `escalate_after_hours` are
positive when given (`gt=0`). -/
structure GateConfig where
  policy : GatePolicy := .hard
  onTimeout : TimeoutAction := .reject
  remindAfterHours : Option ℕ := none
  escalateAfterHours : Option ℕ := none
  remind_pos : ∀ h, remindAfterHours = some h → 0 < h := by
    first | exact Kroker.pos_of_none | simp
  escalate_pos : ∀ h, escalateAfterHours = some h → 0 < h := by
    first | exact Kroker.pos_of_none | simp

/-- The fields a durable gate reads from its host's configuration. -/
structure GateSettings where
  gates : Dict GateConfig := ∅
  defaultGatePolicy : GatePolicy := .hard
  gateTimeoutHours : ℤ := 48

inductive DecidedBy where
  | human
  | policy
  | timeout
  deriving DecidableEq

/-- A decided gate.  `decidedAt` is set by the host that accepts the decision; times are in
microseconds, the resolution of a `datetime`. -/
structure GateDecision where
  gate : String
  round : ℕ := 1
  outcome : GateOutcome
  decidedBy : DecidedBy
  reviewer : Option String := none
  comments : Option String := none
  guidance : Option String := none
  thawTests : Bool := false
  decidedAt : Option ℤ := none
  deriving DecidableEq

/-- `GateDecision.approved`: `reject` and `revise` are both non-approvals. -/
def GateDecision.approved (d : GateDecision) : Bool := d.outcome = .approve

inductive RoleKind where
  | proposer
  | harness
  | research
  deriving DecidableEq

/-- The `repr` of a role kind's literal. -/
def RoleKind.value : RoleKind → String
  | .proposer => "proposer"
  | .harness => "harness"
  | .research => "research"

inductive HarnessKind where
  | claudeCode
  | opencode
  | cursor
  | crew
  deriving DecidableEq

inductive ResearchProvider where
  | tavily
  | exa
  | fake
  deriving DecidableEq

structure RoleConfig where
  kind : RoleKind := .harness
  harness : Option HarnessKind := none
  model : Option String := none
  provider : Option ResearchProvider := none
  instructions : Option String := none
  toolFiles : List String := []

end Kroker
