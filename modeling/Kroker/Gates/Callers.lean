import Kroker.Gates.Host

/-!
# Who opens gates, and under which round

A decision is recorded under a gate's name and round, and is never cleared.  So two openings under
one name and round share a decision: what a human decided about the first resolves the second.  The
rounds are counted by the callers of `_gate`, each execution of a step by counters of its own.

`StepKind.nextRound` is the rule each caller counts by.  Within one execution it never gives a round
twice (`nextRound_injective`).  Between executions nothing keeps the rounds apart but the gate's
name; the names of the sequential and wave pipelines do so (`compatible_pipeline`), except for
`tool_approval`: every code step opens it under that one name, counting from one.
-/

namespace Kroker

/-! ## 1. The callers' counters -/

inductive StepKind where
  /-- `_revisable_stage`. -/
  | revisable (name : String) (maxGateRounds : ℕ)
  | research
  | code (taskId : String)
  | merge
  | deploy
  /-- `_check_budget`, whose counter belongs to the workflow. -/
  | budget
  /-- A gate node's activation in a graph run. -/
  | gateNode (node : String) (round : ℕ)
  /-- The crew's own workflow. -/
  | crew
  /-- The triage workflow. -/
  | triage (maxGateRounds : ℕ)
  | tidyUp
  /-- `_risk_gate` of the assessment. -/
  | risk

/-- A counter of a step: the gate whose rounds it counts, the round it starts from, and how many
gates of that name the step opens at most. -/
structure RoundCounter where
  name : String
  first : ℕ := 1
  limit : Option ℕ := none

def StepKind.counters : StepKind → List RoundCounter
  | .revisable name maxGateRounds => [{ name, limit := some (maxGateRounds + 1) }]
  | .research => [{ name := "research" }]
  -- `escalation_round` and `gate_round`, both local to the step
  | .code taskId => [{ name := "tool_approval" }, { name := "task:" ++ taskId }]
  | .merge => [{ name := "merge", limit := some 1 }]
  | .deploy => [{ name := "deploy", limit := some 1 }, { name := "deploy_failed" }]
  | .budget => [{ name := "budget" }]
  | .gateNode node round => [{ name := node, first := round, limit := some 1 }]
  | .crew => [{ name := "tool_approval" }, { name := "crew_question", limit := some 2 }]
  | .triage maxGateRounds => [{ name := "readiness", limit := some (maxGateRounds + 1) }]
  | .tidyUp => [{ name := "tidy_up", limit := some 1 }]
  | .risk => [{ name := "risk", limit := some 1 }]

/-- The round under which a step opens its next gate of a name, having opened `opened` of them;
`none` for a gate it does not open (again). -/
def StepKind.nextRound (kind : StepKind) (name : String) (opened : ℕ) : Option ℕ :=
  (kind.counters.find? (·.name = name)).bind fun c =>
    if c.limit.any (· ≤ opened) then none else some (c.first + opened)

theorem StepKind.nextRound_eq_some {kind : StepKind} {name : String} {n r : ℕ}
    (h : kind.nextRound name n = some r) :
    ∃ c, kind.counters.find? (·.name = name) = some c ∧ c.first + n = r ∧
      ∀ l, c.limit = some l → n < l := by
  obtain ⟨c, hc, h⟩ := Option.bind_eq_some_iff.mp h
  split at h
  · exact absurd h (by simp)
  · rename_i hlimit
    refine ⟨c, hc, Option.some.inj h, fun l hl => ?_⟩
    rw [hl, Option.any_some, decide_eq_true_eq] at hlimit
    omega

theorem StepKind.nextRound_injective {kind : StepKind} {name : String} {m n r : ℕ}
    (hm : kind.nextRound name m = some r) (hn : kind.nextRound name n = some r) : m = n := by
  obtain ⟨c, hc, hm, -⟩ := nextRound_eq_some hm
  obtain ⟨d, hd, hn, -⟩ := nextRound_eq_some hn
  rw [hc, Option.some.injEq] at hd
  subst hd
  omega

/-- Two counters that give no round of a gate both, tool approvals aside. -/
def RoundCounter.Disjoint (c d : RoundCounter) : Prop :=
  c.name = "tool_approval" ∨ c.name ≠ d.name ∨
    c.limit.any (fun l => c.first + l ≤ d.first) ∨ d.limit.any (fun l => d.first + l ≤ c.first)

instance (c d : RoundCounter) : Decidable (c.Disjoint d) := inferInstanceAs (Decidable (_ ∨ _))

/-- Two steps that give no round of a gate both, tool approvals aside. -/
def StepKind.Compatible (k l : StepKind) : Prop :=
  ∀ c ∈ k.counters, ∀ d ∈ l.counters, c.Disjoint d

instance (k l : StepKind) : Decidable (k.Compatible l) :=
  inferInstanceAs (Decidable (∀ c ∈ k.counters, ∀ d ∈ l.counters, c.Disjoint d))

theorem StepKind.Compatible.nextRound_ne {k l : StepKind} (h : k.Compatible l) {name : String}
    (htool : name ≠ "tool_approval") {m n r : ℕ} (hm : k.nextRound name m = some r) :
    l.nextRound name n ≠ some r := by
  intro hn
  obtain ⟨c, hc, hm, hcl⟩ := nextRound_eq_some hm
  obtain ⟨d, hd, hn, hdl⟩ := nextRound_eq_some hn
  have hcname := List.find?_some hc
  have hdname := List.find?_some hd
  rw [decide_eq_true_eq] at hcname hdname
  rcases h c (List.mem_of_find?_eq_some hc) d (List.mem_of_find?_eq_some hd) with h | h | h | h
  · exact htool (hcname ▸ h)
  · exact h (hcname.trans hdname.symm)
  · obtain ⟨limit, hlimit, hle⟩ := (Option.any_eq_true _ _).mp h
    have := hcl limit hlimit
    rw [decide_eq_true_eq] at hle
    omega
  · obtain ⟨limit, hlimit, hle⟩ := (Option.any_eq_true _ _).mp h
    have := hdl limit hlimit
    rw [decide_eq_true_eq] at hle
    omega

def StepKind.names (kind : StepKind) : List String := kind.counters.map (·.name)

theorem StepKind.compatible_of_names {k l : StepKind}
    (h : ∀ name ∈ k.names, name ≠ "tool_approval" → name ∉ l.names) : k.Compatible l := by
  intro c hc d hd
  by_cases htool : c.name = "tool_approval"
  · exact Or.inl htool
  · refine Or.inr (Or.inl fun hname => ?_)
    refine h c.name (List.mem_map_of_mem hc) htool ?_
    rw [hname]
    exact List.mem_map_of_mem hd

/-- The steps of a sequential or wave run that open gates: each stage once, and each task once. -/
def pipelineSteps (maxGateRounds : ℕ) (taskIds : List String) : List StepKind :=
  [.research, .revisable "architecture" maxGateRounds, .revisable "plan" maxGateRounds, .budget,
    .merge, .deploy] ++ taskIds.map .code

theorem task_prefix_ne {stage taskId : String} (h : stage.toList.take 5 ≠ "task:".toList) :
    stage ≠ "task:" ++ taskId := by
  rintro rfl
  apply h
  rw [String.toList_append]
  rfl

/-- **The steps of a sequential or wave run are compatible.** -/
theorem compatible_pipeline (maxGateRounds : ℕ) {taskIds : List String} (hnodup : taskIds.Nodup) :
    (pipelineSteps maxGateRounds taskIds).Pairwise StepKind.Compatible := by
  rw [pipelineSteps, List.pairwise_append, List.pairwise_map]
  refine ⟨?_, hnodup.imp fun {s t} hne => ?_, fun k hk l hl => ?_⟩
  · have hnames : ∀ {k l : StepKind}, k.names.Disjoint l.names → k.Compatible l :=
      fun hdisjoint => StepKind.compatible_of_names fun name hk _ hl => hdisjoint hk hl
    simp only [List.pairwise_cons, List.mem_cons, List.not_mem_nil, or_false, forall_eq_or_imp,
      forall_eq, List.Pairwise.nil, and_true]
    refine ⟨⟨?_, ?_, ?_, ?_, ?_⟩, ⟨?_, ?_, ?_, ?_⟩, ⟨?_, ?_, ?_⟩, ⟨?_, ?_⟩, ?_, ?_⟩ <;>
      first
        | exact fun l hl => hl.elim
        | exact hnames (by simp [StepKind.names, StepKind.counters])
  · refine StepKind.compatible_of_names fun name hs htool ht => ?_
    simp only [StepKind.names, StepKind.counters, List.map_cons, List.map_nil, List.mem_cons,
      List.not_mem_nil, or_false] at hs ht
    have hs := hs.resolve_left htool
    have ht := ht.resolve_left htool
    rw [hs] at ht
    exact hne (by simpa using ht)
  · obtain ⟨taskId, -, rfl⟩ := List.mem_map.mp hl
    refine StepKind.compatible_of_names fun name hname htool htask => ?_
    simp only [StepKind.names, StepKind.counters, List.map_cons, List.map_nil, List.mem_cons,
      List.not_mem_nil, or_false] at htask
    have hstages : ∀ stage ∈ ["research", "architecture", "plan", "budget", "merge", "deploy",
        "deploy_failed"], stage.toList.take 5 ≠ "task:".toList := by decide
    refine task_prefix_ne (hstages name ?_) (htask.resolve_left htool)
    simp only [List.mem_cons, List.not_mem_nil, or_false] at hk
    rcases hk with rfl | rfl | rfl | rfl | rfl | rfl <;>
      simp only [StepKind.names, StepKind.counters, List.map_cons, List.map_nil, List.mem_cons,
        List.not_mem_nil, or_false] at hname ⊢ <;> tauto

theorem compatible_pipeline_sample :
    (pipelineSteps 2 ["T1", "T2"]).Pairwise StepKind.Compatible :=
  compatible_pipeline 2 (by decide)

end Kroker
