import Kroker.Core.Text

/-!
# The deterministic quality gate

`gate.py`: a list of check results is completed with a failing result for every required check that
is missing, and the failing ones are sorted into those that block and those that an override waives.
Absolute checks block whatever the overrides say, and the two checks of the floor are absolute
whatever the caller says.

`mem_blocking` says which names block; `passed_iff` reads the verdict off it.
-/

namespace Kroker

inductive CheckClass where
  /-- Never overridable. -/
  | absolute
  /-- Overridable by an audited human decision. -/
  | advisory
  deriving DecidableEq

structure CheckResult where
  name : String
  passed : Bool
  classification : CheckClass
  detail : String := ""

/-- An audited human override of a failed advisory check. -/
structure GateOverride where
  check : String
  approvedBy : String
  reason : String
  deriving DecidableEq

structure GateReport where
  passed : Bool
  blocking : List String := []
  overridden : List String := []
  checks : List CheckResult

/-- Never demotable to advisory. -/
def absoluteFloor : List String := ["security_no_critical", "security_scan_collected"]

/-- The checks the merge gate must see, and the class each has when it is missing. -/
def mergeRequiredChecks : List (String × CheckClass) :=
  [("build_integration_green", .absolute), ("lint_clean", .absolute),
    ("security_scan_collected", .absolute), ("security_no_critical", .absolute),
    ("review_severity", .advisory), ("review_lenses_present", .advisory),
    ("traceability", .advisory), ("coverage", .advisory), ("plan_drift", .advisory)]

def buildCheck (name : String) (passed : Bool) (requested : CheckClass) (detail : String := "") :
    CheckResult :=
  { name, passed, detail,
    classification := if name ∈ absoluteFloor then .absolute else requested }

def normalized (checks : List CheckResult) : List CheckResult :=
  checks.map fun c =>
    if c.name ∈ absoluteFloor then buildCheck c.name c.passed c.classification c.detail else c

def synthesized (present : List String) : List CheckResult :=
  (mergeRequiredChecks.filter fun m => m.1 ∉ present).map fun m =>
    buildCheck m.1 false m.2
      ("MISCONFIGURED: required check " ++ quoted m.1 ++ " absent from gate input")

/-- The checks that are judged: those handed in, and the missing ones. -/
def evaluatedChecks (checks : List CheckResult) : List CheckResult :=
  normalized checks ++ synthesized ((normalized checks).map (·.name))

/-- One round of the loop of `evaluate_quality_gate`, on the names that block and those waived. -/
def judgeCheck (overrideNames : List String) (acc : List String × List String) (c : CheckResult) :
    List String × List String :=
  if c.passed then acc
  else if c.classification = .absolute then (acc.1 ++ [c.name], acc.2)
  else if c.name ∈ overrideNames then (acc.1, acc.2 ++ [c.name])
  else (acc.1 ++ [c.name], acc.2)

def evaluateQualityGate (checks : List CheckResult) (overrides : List GateOverride := []) :
    GateReport :=
  let evaluated := evaluatedChecks checks
  let acc := evaluated.foldl (judgeCheck (overrides.map (·.check))) ([], [])
  { passed := acc.1 = [], blocking := acc.1, overridden := acc.2, checks := evaluated }

/-! ## What blocks -/

/-- A check that the loop puts among the blocking ones. -/
def CheckResult.Blocks (overrideNames : List String) (c : CheckResult) : Prop :=
  c.passed = false ∧ (c.classification = .absolute ∨ c.name ∉ overrideNames)

theorem mem_foldl_judgeCheck (overrideNames : List String) (cs : List CheckResult)
    (acc : List String × List String) (n : String) :
    n ∈ (cs.foldl (judgeCheck overrideNames) acc).1 ↔
      n ∈ acc.1 ∨ ∃ c ∈ cs, c.Blocks overrideNames ∧ c.name = n := by
  induction cs generalizing acc with
  | nil => simp
  | cons c cs ih =>
    have hone : n ∈ (judgeCheck overrideNames acc c).1 ↔
        n ∈ acc.1 ∨ c.Blocks overrideNames ∧ c.name = n := by
      unfold judgeCheck CheckResult.Blocks
      cases c.passed with
      | true => simp
      | false =>
        by_cases hclass : c.classification = .absolute
        · simp [hclass, eq_comm]
        · by_cases hname : c.name ∈ overrideNames
          · simp [hclass, hname]
          · simp [hclass, hname, eq_comm]
    rw [List.foldl_cons, ih, hone]
    simp only [List.mem_cons, exists_eq_or_imp, or_assoc]

/-- **The names that block**: those of the failing checks that are absolute or not overridden. -/
theorem mem_blocking {checks : List CheckResult} {overrides : List GateOverride} {n : String} :
    n ∈ (evaluateQualityGate checks overrides).blocking ↔
      ∃ c ∈ evaluatedChecks checks, c.Blocks (overrides.map (·.check)) ∧ c.name = n := by
  refine (mem_foldl_judgeCheck _ _ _ _).trans ?_
  simp

theorem passed_iff {checks : List CheckResult} {overrides : List GateOverride} :
    (evaluateQualityGate checks overrides).passed = true ↔
      ∀ c ∈ evaluatedChecks checks, ¬c.Blocks (overrides.map (·.check)) := by
  have hnil : (evaluateQualityGate checks overrides).passed = true ↔
      (evaluateQualityGate checks overrides).blocking = [] := decide_eq_true_iff
  rw [hnil, List.eq_nil_iff_forall_not_mem]
  constructor
  · exact fun h c hc hblocks => h c.name (mem_blocking.mpr ⟨c, hc, hblocks, rfl⟩)
  · intro h n hn
    obtain ⟨c, hc, hblocks, -⟩ := mem_blocking.mp hn
    exact h c hc hblocks

theorem blocks_nil {c : CheckResult} : c.Blocks [] ↔ c.passed = false := by
  simp [CheckResult.Blocks]

theorem exists_required (checks : List CheckResult) {m : String × CheckClass}
    (hm : m ∈ mergeRequiredChecks) : ∃ c ∈ evaluatedChecks checks, c.name = m.1 := by
  by_cases hpresent : m.1 ∈ (normalized checks).map (·.name)
  · obtain ⟨c, hc, hname⟩ := List.mem_map.mp hpresent
    exact ⟨c, List.mem_append_left _ hc, hname⟩
  · refine ⟨_, List.mem_append_right _ (List.mem_map.mpr ⟨m, ?_, rfl⟩), rfl⟩
    rw [List.mem_filter, decide_eq_true_eq]
    exact ⟨hm, hpresent⟩

theorem absolute_of_floor {checks : List CheckResult} {c : CheckResult}
    (hc : c ∈ evaluatedChecks checks) (hfloor : c.name ∈ absoluteFloor) :
    c.classification = .absolute := by
  rcases List.mem_append.mp hc with hc | hc
  · obtain ⟨c', -, rfl⟩ := List.mem_map.mp hc
    by_cases hname : c'.name ∈ absoluteFloor
    · rw [if_pos hname]
      exact if_pos hname
    · rw [if_neg hname] at hfloor
      exact absurd hfloor hname
  · obtain ⟨m, -, rfl⟩ := List.mem_map.mp hc
    exact if_pos hfloor

end Kroker
