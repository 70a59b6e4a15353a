import Kroker.Gates.Host
import Kroker.Usage.Ledger
import Mathlib.Tactic.Linarith
import Mathlib.Tactic.Ring

/-!
# The budget of a run

`_check_budget` of `workflows/role_host.py`.  A caller has it count the dollars of the role usage;
while they reach the threshold, a gate is opened, and an approval raises the threshold by a budget.
The dollars are counted once, when the check is called, and the gates are numbered over the whole
run.  An amount of money is exact.

The host is a state with an event for each thing that can happen between two awaits: usage is
tracked, some caller checks the budget, or the gate that a check waits at returns a decision.  A
check that waits does not keep others from being called; nothing below needs it to.

## What is here

* `Kept` --- what every reachable host keeps: the threshold is a budget for each approval and one
  more, and the gates are those of the rounds from one on.
-/

namespace Kroker.Budget

open Kroker.Usage

/-! ## 1.  The host -/

/-- Where a call of `_check_budget` stands. -/
inductive Check where
  /-- At the gate of a crossing, for the dollars counted when it was called. -/
  | gated (total : ℚ) (round : ℕ)
  | returned (total : ℚ)
  /-- It raised `_BudgetRejected`. -/
  | rejected
  /-- The run has no budget. -/
  | skipped

/-- The fields of the role host that the budget is about, with what happened so far: the approvals
at its gates, the gates that were opened, and the calls. -/
structure RoleHost where
  roleUsage : List RoleUsage := []
  budgetThreshold : ℚ
  budgetCrossings : ℕ := 0
  approvals : ℕ := 0
  gates : List GateRequest := []
  checks : List Check := []

/-- What can happen between two awaits: usage is tracked, a caller checks the budget, or the gate
that a check waits at returns a decision. -/
inductive Event where
  | spend (roleUsage : List RoleUsage)
  | check
  | decided (i : ℕ) (decision : GateDecision)

section Code

variable (budget : ℚ) (settings : GateSettings)

/-- `sum(u.cost_usd or 0.0 for u in role_usage.values())`. -/
def total (roleUsage : List RoleUsage) : ℚ := (roleUsage.map RoleUsage.dollars).sum

/-- The call of `_gate` for a crossing. -/
def budgetGate (round : ℕ) : GateRequest :=
  { name := "budget", settings, round, defaultPolicy := some .hard }

/-- The loop of `_check_budget`, from its condition to its next await. -/
def loop (host : RoleHost) (total : ℚ) : RoleHost × Check :=
  if host.budgetThreshold ≤ total then
    let round := host.budgetCrossings + 1
    ({ host with
        budgetCrossings := round
        gates := host.gates ++ [budgetGate settings round] }, .gated total round)
  else (host, .returned total)

/-- `_check_budget`, up to its first await. -/
def checkBudget (host : RoleHost) : RoleHost × Check :=
  if budget ≤ 0 then (host, .skipped) else loop settings host (total host.roleUsage)

/-- `self._budget_threshold += cfg.run_budget_usd`. -/
def raised (host : RoleHost) : RoleHost :=
  { host with budgetThreshold := host.budgetThreshold + budget, approvals := host.approvals + 1 }

/-- `_check_budget`, from the decision of the gate it waits at. -/
def afterDecision (host : RoleHost) (total : ℚ) (decision : GateDecision) : RoleHost × Check :=
  if decision.outcome ≠ .approve then (host, .rejected)
  else loop settings (raised budget host) total

def next (host : RoleHost) : Event → Option RoleHost
  | .spend roleUsage => some { host with roleUsage }
  | .check =>
    let result := checkBudget budget settings host
    some { result.1 with checks := host.checks ++ [result.2] }
  | .decided i decision =>
    match host.checks[i]? with
    | some (.gated total _) =>
      let result := afterDecision budget settings host total decision
      some { result.1 with checks := host.checks.set i result.2 }
    | _ => none

abbrev HostRun := Run { budgetThreshold := budget : RoleHost } (next budget settings)

end Code

/-! ## 2.  What is asked of the gate -/

section Spec

variable (budget : ℚ) (settings : GateSettings)

/-- The dollars have gone over the threshold by `k` budgets: not over what `k` more would make of
it, but over what one fewer would. -/
def Jumps (threshold total : ℚ) (k : ℕ) : Prop :=
  total < threshold + k * budget ∧ (0 < k → threshold + (k - 1 : ℕ) * budget ≤ total)

/-- Nothing happens but that usage is tracked and that the gates of the check `i` are approved. -/
def Approving (i : ℕ) (events : List Event) : Prop := ∀ e ∈ events,
  (∃ roleUsage, e = .spend roleUsage) ∨ ∃ decision, e = .decided i decision ∧
    decision.outcome = .approve

/-- How many gates are decided. -/
def decisions (events : List Event) : ℕ :=
  events.countP fun | .decided _ _ => true | _ => false

/-- What is asked of a run and the host it has come to. -/
structure Enforced (log : List (Transition RoleHost Event)) (host : RoleHost) : Prop where
  /-- A check that returns has counted less than a budget for each approval and one more. -/
  below : ∀ x ∈ log, ∀ (i : ℕ) (total : ℚ), x.after.checks[i]? = some (Check.returned total) →
    x.before.checks[i]? ≠ some (Check.returned total) → total < budget * (1 + x.after.approvals)
  /-- No two crossings have one round, nor one key. -/
  fresh : (host.gates.map GateRequest.round).Nodup ∧ (host.gates.map GateRequest.key).Nodup
  /-- Whatever is not an approval raises, and leaves the threshold as it was. -/
  refused : ∀ x ∈ log, ∀ i decision, x.event = .decided i decision →
    decision.outcome ≠ .approve → x.after.checks[i]? = some .rejected ∧
      x.after.budgetThreshold = x.before.budgetThreshold
  /-- A check below the threshold opens no gate. -/
  quiet : ∀ x ∈ log, x.event = .check → total x.before.roleUsage < x.before.budgetThreshold →
    x.after.gates = x.before.gates
  /-- A check that finds `k` budgets too much opens `k` gates, one after the other, while they are
  approved, and then returns. -/
  jump : ∀ k, Jumps budget host.budgetThreshold (total host.roleUsage) k → ∀ events after,
    Approving host.checks.length events →
    (Event.check :: events).foldlM (next budget settings) host = some after →
      decisions events ≤ k ∧
      after.gates.length = host.gates.length + min (decisions events + 1) k ∧
      (after.checks[host.checks.length]? = some (Check.returned (total host.roleUsage)) ↔
        decisions events = k)
  /-- The `k` approvals can be given. -/
  given : ∀ k, Jumps budget host.budgetThreshold (total host.roleUsage) k →
    ∀ approvals : List GateDecision, approvals.length = k →
    (∀ d ∈ approvals, d.outcome = .approve) → ∃ after,
      (Event.check :: approvals.map (.decided host.checks.length)).foldlM
        (next budget settings) host = some after

end Spec

/-! ## 3.  What one event does -/

variable {budget : ℚ} {settings : GateSettings}

variable {host : RoleHost}

theorem loop_of_le {total : ℚ} (h : host.budgetThreshold ≤ total) :
    loop settings host total = ({ host with
      budgetCrossings := host.budgetCrossings + 1
      gates := host.gates ++ [budgetGate settings (host.budgetCrossings + 1)] },
      .gated total (host.budgetCrossings + 1)) := if_pos h

theorem loop_of_lt {total : ℚ} (h : total < host.budgetThreshold) :
    loop settings host total = (host, .returned total) := if_neg (not_le.mpr h)

theorem loop_keeps (host : RoleHost) (total : ℚ) :
    (loop settings host total).1.roleUsage = host.roleUsage ∧
      (loop settings host total).1.budgetThreshold = host.budgetThreshold ∧
      (loop settings host total).1.approvals = host.approvals ∧
      (loop settings host total).1.checks = host.checks := by
  rcases le_or_gt host.budgetThreshold total with hle | hlt
  · rw [loop_of_le hle]
    exact ⟨rfl, rfl, rfl, rfl⟩
  · rw [loop_of_lt hlt]
    exact ⟨rfl, rfl, rfl, rfl⟩

structure Kept (budget : ℚ) (settings : GateSettings) (host : RoleHost) : Prop where
  threshold : host.budgetThreshold = budget * (1 + host.approvals)
  rounds : host.gates = (List.range' 1 host.budgetCrossings).map (budgetGate settings)

theorem Kept.loop (h : Kept budget settings host) (total : ℚ) :
    Kept budget settings (loop settings host total).1 := by
  rcases le_or_gt host.budgetThreshold total with hle | hlt
  · rw [loop_of_le hle]
    refine ⟨h.threshold, ?_⟩
    show host.gates ++ [budgetGate settings (host.budgetCrossings + 1)] = _
    rw [List.range'_1_concat, List.map_append, h.rounds, Nat.add_comm 1]
    rfl
  · rw [loop_of_lt hlt]
    exact h

theorem Kept.raised (h : Kept budget settings host) :
    Kept budget settings (raised budget host) := by
  refine ⟨?_, h.rounds⟩
  show host.budgetThreshold + budget = budget * (1 + (host.approvals + 1 : ℕ))
  rw [h.threshold]
  push_cast
  ring

variable {after : RoleHost}

/-- **What one event does.** -/
theorem next_cases (hbudget : 0 < budget) {e : Event} (h : next budget settings host e = some after)
    :
    (∃ roleUsage, e = .spend roleUsage ∧ after = { host with roleUsage }) ∨
    (e = .check ∧ after = { (loop settings host (total host.roleUsage)).1 with
      checks := host.checks ++ [(loop settings host (total host.roleUsage)).2] }) ∨
    ∃ i decision total round, e = .decided i decision ∧
      host.checks[i]? = some (.gated total round) ∧
      (decision.outcome ≠ .approve ∧ after = { host with checks := host.checks.set i .rejected } ∨
        decision.outcome = .approve ∧ after = { (loop settings (raised budget host) total).1 with
          checks := host.checks.set i (loop settings (raised budget host) total).2 }) := by
  cases e with
  | spend roleUsage => exact .inl ⟨roleUsage, rfl, (Option.some.inj h).symm⟩
  | check =>
    rw [next, checkBudget, if_neg (not_le.mpr hbudget)] at h
    exact .inr (.inl ⟨rfl, (Option.some.inj h).symm⟩)
  | decided i decision =>
    rw [next] at h
    split at h
    · rename_i total round hgated
      refine .inr (.inr ⟨i, decision, total, round, rfl, hgated, ?_⟩)
      by_cases happroved : decision.outcome = .approve
      · rw [afterDecision, if_neg (not_not.mpr happroved)] at h
        exact .inr ⟨happroved, (Option.some.inj h).symm⟩
      · rw [afterDecision, if_pos happroved] at h
        exact .inl ⟨happroved, (Option.some.inj h).symm⟩
    · cases h

theorem Kept.next (hbudget : 0 < budget) {e : Event} (hkept : Kept budget settings host)
    (h : Budget.next budget settings host e = some after) :
    Kept budget settings after := by
  rcases next_cases hbudget h with ⟨roleUsage, -, rfl⟩ | ⟨-, rfl⟩ |
    ⟨i, decision, total, round, -, -, ⟨-, rfl⟩ | ⟨-, rfl⟩⟩
  · exact ⟨hkept.threshold, hkept.rounds⟩
  · exact ⟨(hkept.loop _).threshold, (hkept.loop _).rounds⟩
  · exact ⟨hkept.threshold, hkept.rounds⟩
  · exact ⟨(hkept.raised.loop _).threshold, (hkept.raised.loop _).rounds⟩

theorem lt_of_loop_returned {total total' : ℚ} (h : (loop settings host total).2 = .returned total')
    :
    total' < (loop settings host total).1.budgetThreshold := by
  rcases le_or_gt host.budgetThreshold total with hle | hlt
  · rw [loop_of_le hle] at h
    cases h
  · rw [loop_of_lt hlt] at h ⊢
    cases h
    exact hlt

theorem lt_of_returned (hbudget : 0 < budget) {e : Event}
    (h : next budget settings host e = some after) {i : ℕ} {total : ℚ}
    (hafter : after.checks[i]? = some (.returned total))
    (hbefore : host.checks[i]? ≠ some (.returned total)) : total < after.budgetThreshold := by
  -- where the check moves, it does so from the loop
  have hset : ∀ {j : ℕ} {check : Check}, (host.checks.set j check)[i]? = some (.returned total) →
      check = .returned total := by
    intro j check hget
    rw [List.getElem?_set] at hget
    split at hget
    · split at hget
      · exact Option.some.inj hget
      · cases hget
    · exact absurd hget hbefore
  rcases next_cases hbudget h with ⟨roleUsage, -, rfl⟩ | ⟨-, rfl⟩ |
    ⟨j, decision, total', round, -, -, ⟨-, rfl⟩ | ⟨-, rfl⟩⟩
  · exact absurd hafter hbefore
  · rcases Nat.lt_or_ge i host.checks.length with hlt | hge
    · exact absurd (List.getElem?_append_left hlt ▸ hafter) hbefore
    · rw [show ({ (loop settings host _).1 with checks := _ } : RoleHost).checks[i]? =
          (host.checks ++ [_])[i]? from rfl, List.getElem?_append_right hge] at hafter
      exact lt_of_loop_returned (List.mem_singleton.mp (List.mem_of_getElem? hafter)).symm
  · exact Check.noConfusion (hset hafter)
  · exact lt_of_loop_returned (hset hafter)

/-! ## 4.  A check whose gates are approved -/

/-- Where a check called at `host` stands after `n` approvals, when the dollars are `k` budgets too
many. -/
structure Stands (budget : ℚ) (host : RoleHost) (k n : ℕ) (after : RoleHost) : Prop where
  le : n ≤ k
  threshold : after.budgetThreshold = host.budgetThreshold + n * budget
  gates : after.gates.length = host.gates.length + min (n + 1) k
  check : after.checks[host.checks.length]? = some
    (if n < k then Check.gated (total host.roleUsage) after.budgetCrossings
      else Check.returned (total host.roleUsage))

theorem loop_after (settings : GateSettings) (hbudget : 0 < budget) {before : RoleHost}
    {dollars : ℚ} {k n : ℕ} (hjumps : Jumps budget host.budgetThreshold dollars k) (hn : n ≤ k)
    (hthreshold : before.budgetThreshold = host.budgetThreshold + n * budget)
    (hgates : before.gates.length = host.gates.length + n) :
    (loop settings before dollars).1.gates.length = host.gates.length + min (n + 1) k ∧
      (loop settings before dollars).2 =
        if n < k then .gated dollars (loop settings before dollars).1.budgetCrossings
        else .returned dollars := by
  by_cases hlt : n < k
  · have hmul : (n : ℚ) * budget ≤ (k - 1 : ℕ) * budget := by
      have hcast : (n : ℚ) ≤ (k - 1 : ℕ) := by exact_mod_cast (show n ≤ k - 1 by omega)
      exact mul_le_mul_of_nonneg_right hcast (le_of_lt hbudget)
    have hle : before.budgetThreshold ≤ dollars := by
      have hlow := hjumps.2 (by omega)
      rw [hthreshold]
      linarith
    rw [loop_of_le hle, if_pos hlt]
    refine ⟨?_, rfl⟩
    show (before.gates ++ [_]).length = _
    rw [List.length_append, hgates, List.length_singleton, Nat.min_eq_left hlt]
    omega
  · obtain rfl : n = k := by omega
    rw [loop_of_lt (hthreshold ▸ hjumps.1), if_neg hlt]
    refine ⟨?_, rfl⟩
    show before.gates.length = _
    rw [hgates, Nat.min_eq_right (Nat.le_succ n)]

theorem stands_check (hbudget : 0 < budget) {k : ℕ}
    (hjumps : Jumps budget host.budgetThreshold (total host.roleUsage) k)
    (h : next budget settings host .check = some after) : Stands budget host k 0 after := by
  rw [next, checkBudget, if_neg (not_le.mpr hbudget)] at h
  obtain rfl := Option.some.inj h
  obtain ⟨hgates, hcheck⟩ := loop_after settings hbudget hjumps (Nat.zero_le k)
    (by simp) (Nat.add_zero _).symm
  refine ⟨Nat.zero_le k, ?_, hgates, ?_⟩
  · rw [Nat.cast_zero, zero_mul, add_zero]
    exact (loop_keeps host _).2.1
  · show (host.checks ++ [_])[host.checks.length]? = _
    rw [List.getElem?_concat_length, hcheck]

theorem Stands.spend {k n : ℕ} (h : Stands budget host k n after) (roleUsage : List RoleUsage) :
    Stands budget host k n { after with roleUsage } :=
  ⟨h.le, h.threshold, h.gates, h.check⟩

/-- An approval can be given just where fewer than `k` have been, and takes the check on. -/
theorem Stands.approve (settings : GateSettings) (hbudget : 0 < budget) {k n : ℕ}
    (hjumps : Jumps budget host.budgetThreshold (total host.roleUsage) k)
    (h : Stands budget host k n after) {decision : GateDecision}
    (happroved : decision.outcome = .approve) :
    (n < k → ∃ later, next budget settings after (.decided host.checks.length decision) =
      some later) ∧
    ∀ later, next budget settings after (.decided host.checks.length decision) = some later →
      Stands budget host k (n + 1) later := by
  have hcheck := h.check
  by_cases hlt : n < k
  · rw [if_pos hlt] at hcheck
    have hthreshold : (raised budget after).budgetThreshold =
        host.budgetThreshold + (n + 1 : ℕ) * budget := by
      show after.budgetThreshold + budget = _
      rw [h.threshold]
      push_cast
      ring
    have hgates : (raised budget after).gates.length = host.gates.length + (n + 1) := by
      rw [← Nat.min_eq_left (show n + 1 ≤ k from hlt)]
      exact h.gates
    obtain ⟨hlength, hresult⟩ := loop_after settings hbudget hjumps hlt hthreshold hgates
    have hnext : next budget settings after (.decided host.checks.length decision) =
        some { (loop settings (raised budget after) (total host.roleUsage)).1 with
          checks := after.checks.set host.checks.length
            (loop settings (raised budget after) (total host.roleUsage)).2 } := by
      rw [next, hcheck]
      show some _ = some _
      rw [afterDecision, if_neg (not_not.mpr happroved)]
    refine ⟨fun _ => ⟨_, hnext⟩, fun later hlater => ?_⟩
    obtain rfl := Option.some.inj (hnext.symm.trans hlater)
    refine ⟨hlt, ?_, hlength, ?_⟩
    · rw [← hthreshold]
      exact (loop_keeps _ _).2.1
    · show (after.checks.set _ _)[host.checks.length]? = _
      rw [List.getElem?_set_self (List.getElem?_eq_some_iff.mp hcheck).1, hresult]
  · rw [if_neg hlt] at hcheck
    refine ⟨fun h => absurd h hlt, fun later hlater => ?_⟩
    rw [next, hcheck] at hlater
    cases hlater

/-- **While its gates are approved**, a check stands where the number of approvals says. -/
theorem stands_of_approving (hbudget : 0 < budget) {k : ℕ}
    (hjumps : Jumps budget host.budgetThreshold (total host.roleUsage) k) {events : List Event}
    (hevents : Approving host.checks.length events)
    (h : (Event.check :: events).foldlM (next budget settings) host = some after) :
    Stands budget host k (decisions events) after := by
  induction events using List.reverseRecOn generalizing after with
  | nil =>
    have hfirst : next budget settings host .check = some after := by simpa using h
    exact stands_check hbudget hjumps hfirst
  | append_singleton events e ih =>
    rw [← List.cons_append, List.foldlM_append] at h
    obtain ⟨before, hbefore, hlast⟩ := Option.bind_eq_some_iff.mp h
    obtain ⟨later, hlater, hsame⟩ := Option.bind_eq_some_iff.mp hlast
    cases hsame
    have hstands := ih (fun e he => hevents e (List.mem_append_left _ he)) hbefore
    rcases hevents e (List.mem_append_right _ List.mem_cons_self) with
      ⟨roleUsage, rfl⟩ | ⟨decision, rfl, happroved⟩
    · obtain rfl := Option.some.inj hlater
      rw [decisions, List.countP_append]
      exact hstands.spend roleUsage
    · rw [decisions, List.countP_append]
      exact (hstands.approve settings hbudget hjumps happroved).2 _ hlater

theorem exists_approved (settings : GateSettings) (hbudget : 0 < budget) {k : ℕ}
    (hjumps : Jumps budget host.budgetThreshold (total host.roleUsage) k)
    {approvals : List GateDecision} (hlength : approvals.length ≤ k)
    (happroved : ∀ d ∈ approvals, d.outcome = .approve) :
    ∃ after, (Event.check :: approvals.map (.decided host.checks.length)).foldlM
        (next budget settings) host = some after ∧
      Stands budget host k approvals.length after := by
  induction approvals using List.reverseRecOn with
  | nil =>
    have hnext : ∃ after, next budget settings host .check = some after := ⟨_, rfl⟩
    obtain ⟨after, hafter⟩ := hnext
    refine ⟨after, ?_, stands_check hbudget hjumps hafter⟩
    simpa using hafter
  | append_singleton approvals decision ih =>
    rw [List.length_append, List.length_singleton] at hlength
    obtain ⟨before, hbefore, hstands⟩ := ih (by omega) fun d hd =>
      happroved d (List.mem_append_left _ hd)
    obtain ⟨hgiven, hstep⟩ := hstands.approve settings hbudget hjumps
      (happroved decision (List.mem_append_right _ List.mem_cons_self))
    obtain ⟨later, hlater⟩ := hgiven (by omega)
    refine ⟨later, ?_, ?_⟩
    · rw [List.map_append, ← List.cons_append, List.foldlM_append, hbefore]
      show (next budget settings before _ >>= fun s => [].foldlM _ s) = _
      rw [hlater]
      rfl
    · rw [List.length_append, List.length_singleton]
      exact hstep later hlater

/-! ## 5.  Runs -/

theorem kept_of_reachable (hbudget : 0 < budget)
    (h : Reachable { budgetThreshold := budget : RoleHost } (next budget settings) host) :
    Kept budget settings host := by
  refine h.induct ⟨?_, rfl⟩ fun host e after _ hkept haccepted => hkept.next hbudget haccepted
  show budget = budget * (1 + (0 : ℕ))
  rw [Nat.cast_zero, add_zero, mul_one]

/-- Two dollars and a half are counted at once under a budget of one, and the check is approved
twice. -/
def sampleScript : List Event :=
  let approved : GateDecision := { gate := "budget", outcome := .approve, decidedBy := .human }
  [.spend [{ role := "dev", model := "m", costUsd := some (5 / 2) }], .check, .decided 0 approved,
    .decided 0 approved]

end Kroker.Budget
