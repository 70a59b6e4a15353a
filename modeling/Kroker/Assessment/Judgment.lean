import Kroker.Assessment.Duplicates

/-!
# What a judgment leaves alone

`apply_judgment` is downstream of everything the deterministic layer computed.  The five families
are merged by code of one shape (`disposed`), so that what holds of one row of one family is proved
once and read five times.

## 1.  One family

A row of the proposal *lands* on a row of the baseline when it is the only one with the key of that
row and the row admits it.  `disposed_cases` says that a row is replaced exactly where one lands,
and `source_pos_iff` that a verdict of the proposer stands in the result where one has landed or
one stood there before.

## 2.  The frame

`erased` strips a map of its judgement fields.  What is left of the result is what is left of the
baseline (`erased_applyJudgment`): the capabilities in their order, the composites, criticality,
severity, every key, every collection state, the cascades and the shared vulnerabilities.

## 3.  Unknown ids, 4.  When the map is judged

`knownTo` keeps the rows of a proposal that name a row of the baseline, and a judgment depends on
nothing else of the proposal (`applyJudgment_congr`).
-/

namespace Kroker.Risk

open Discover

/-! ## 1.  One family -/

section Family

variable {Row P K : Type} [DecidableEq K] {key : P → K} {rows : List P} {keyOf : Row → K}
  {find : Row → Option P} {admits : Row → P → Bool} {stamped : Row → P → Row}
  {source : Row → RiskSource} {l : List Row}

/-- `p` is the only row of the proposal with the key of `row`, and `row` admits it. -/
def LandsOn (key : P → K) (rows : List P) (keyOf : Row → K) (admits : Row → P → Bool) (row : Row)
    (p : P) : Prop :=
  p ∈ rows ∧ key p = keyOf row ∧ (rows.map key).count (keyOf row) = 1 ∧ admits row p = true

/-- Each row of the result is the baseline's, or what a row of the proposal that lands on it makes
of it. -/
def Filled (key : P → K) (rows : List P) (keyOf : Row → K) (admits : Row → P → Bool)
    (stamped : Row → P → Row) (l result : List Row) : Prop :=
  List.Forall₂ (fun row row' =>
    row' = row ∨ ∃ p, LandsOn key rows keyOf admits row p ∧ row' = stamped row p) l result

theorem disposed_cases {row : Row} (hfind : find row = unique key rows (keyOf row)) :
    (disposed find admits stamped row = row ∧ ¬∃ p, LandsOn key rows keyOf admits row p) ∨
      ∃ p, LandsOn key rows keyOf admits row p ∧
        disposed find admits stamped row = stamped row p := by
  have hlands : ∀ p, LandsOn key rows keyOf admits row p ↔
      find row = some p ∧ admits row p = true := by
    intro p
    rw [hfind, unique_eq_some_iff, LandsOn, and_assoc, and_assoc]
  simp only [hlands, disposed]
  cases find row with
  | none =>
    refine .inl ⟨rfl, ?_⟩
    rintro ⟨p, hp, -⟩
    cases hp
  | some p =>
    by_cases hadmits : admits row p = true
    · exact .inr ⟨p, ⟨rfl, hadmits⟩, if_pos hadmits⟩
    · refine .inl ⟨if_neg hadmits, ?_⟩
      rintro ⟨q, hq, hadmitsq⟩
      cases hq
      exact hadmits hadmitsq

theorem filled_disposed (hfind : ∀ row ∈ l, find row = unique key rows (keyOf row)) :
    Filled key rows keyOf admits stamped l (l.map (disposed find admits stamped)) := by
  rw [Filled, List.forall₂_map_right_iff, List.forall₂_same]
  intro row hrow
  rcases disposed_cases (hfind row hrow) with ⟨hkept, -⟩ | hlanded
  · exact .inl hkept
  · exact .inr hlanded

theorem filled_self : Filled key rows keyOf admits stamped l l :=
  List.forall₂_same.mpr fun _ _ => .inl rfl

theorem source_pos_iff (hstamped : ∀ row p, source (stamped row p) = .proposer)
    (hfind : ∀ row ∈ l, find row = unique key rows (keyOf row)) :
    0 < (l.map (disposed find admits stamped)).countP (fun row => source row = .proposer) ↔
      (∃ row ∈ l, ∃ p, LandsOn key rows keyOf admits row p) ∨
        0 < l.countP fun row => source row = .proposer := by
  have hcases : ∀ row ∈ l, (disposed find admits stamped row = row ∧
      ¬∃ p, LandsOn key rows keyOf admits row p) ∨ ∃ p, LandsOn key rows keyOf admits row p ∧
        disposed find admits stamped row = stamped row p :=
    fun row hrow => disposed_cases (hfind row hrow)
  simp only [List.countP_pos_iff, List.mem_map, decide_eq_true_eq]
  constructor
  · rintro ⟨_, ⟨row, hrow, rfl⟩, hsource⟩
    rcases hcases row hrow with ⟨hkept, -⟩ | ⟨p, hlands, -⟩
    · rw [hkept] at hsource
      exact .inr ⟨row, hrow, hsource⟩
    · exact .inl ⟨row, hrow, p, hlands⟩
  · rintro (⟨row, hrow, p, hlands⟩ | ⟨row, hrow, hsource⟩)
    · rcases hcases row hrow with ⟨-, hnone⟩ | ⟨q, -, hq⟩
      · exact absurd ⟨p, hlands⟩ hnone
      · exact ⟨_, ⟨row, hrow, rfl⟩, by rw [hq, hstamped]⟩
    · refine ⟨_, ⟨row, hrow, rfl⟩, ?_⟩
      rcases hcases row hrow with ⟨hkept, -⟩ | ⟨q, -, hq⟩
      · rw [hkept, hsource]
      · rw [hq, hstamped]

theorem map_disposed_congr {S : Type} {f : Row → S}
    (hstamped : ∀ row p, f (stamped row p) = f row) :
    (l.map (disposed find admits stamped)).map f = l.map f := by
  rw [List.map_map]
  refine List.map_congr_left fun row _ => ?_
  rw [Function.comp_apply, disposed]
  cases find row with
  | none => rfl
  | some p =>
    simp only
    split
    · exact hstamped row p
    · rfl

def withKeys (key : P → K) (ks : List K) (rows : List P) : List P := rows.filter fun p => key p ∈ ks

theorem unique_withKeys {ks : List K} {k : K} (hk : k ∈ ks) :
    unique key (withKeys key ks rows) k = unique key rows k := by
  have hcount : ((withKeys key ks rows).map key).count k = (rows.map key).count k := by
    have hmap : (withKeys key ks rows).map key = (rows.map key).filter (· ∈ ks) := by
      rw [List.filter_map]
      rfl
    rw [hmap]
    exact List.count_filter (by simpa using hk)
  refine Option.ext fun p => ?_
  rw [unique_eq_some_iff, unique_eq_some_iff, hcount, withKeys, List.mem_filter, decide_eq_true_eq]
  constructor
  · rintro ⟨⟨hmem, -⟩, hkey, hone⟩
    exact ⟨hmem, hkey, hone⟩
  · rintro ⟨hmem, hkey, hone⟩
    exact ⟨⟨hmem, hkey ▸ hk⟩, hkey, hone⟩

theorem unique_congr {other : List P} {ks : List K} {k : K} (hk : k ∈ ks)
    (h : withKeys key ks other = withKeys key ks rows) : unique key other k = unique key rows k := by
  rw [← unique_withKeys hk, h, unique_withKeys hk]

theorem map_disposed_find {other : Row → Option P} (h : ∀ row ∈ l, other row = find row) :
    l.map (disposed other admits stamped) = l.map (disposed find admits stamped) := by
  refine List.map_congr_left fun row hrow => ?_
  rw [disposed, disposed, h row hrow]

end Family

/-! ## 2.  The frame -/

/-! ### What a judgment may fill -/

def ThreatAssessment.erased (row : ThreatAssessment) : ThreatAssessment where
  category := row.category
  applicable := false
  rationale := ""

def Vulnerability.erased (row : Vulnerability) : Vulnerability where
  key := row.key
  classification := .potential
  severity := row.severity
  strideCategory := .spoofing
  path := row.path
  line := row.line
  source := .baseline

def ControlCoverage.erased (row : ControlCoverage) : ControlCoverage where
  family := row.family
  collected := row.collected
  rule := ""

def TrustBoundary.erased (row : TrustBoundary) : TrustBoundary where
  sourceBcId := row.sourceBcId
  targetBcId := row.targetBcId
  rule := row.rule
  rationale := ""

def EscalationPath.erased (row : EscalationPath) : EscalationPath where
  path := row.path
  rule := row.rule
  rationale := ""

/-- Everything but the rows of three families is kept as it is. -/
def CapabilityRisk.erased (c : CapabilityRisk) : CapabilityRisk where
  bcId := c.bcId
  criticality := c.criticality
  threats := c.threats.map ThreatAssessment.erased
  vulnerabilities := c.vulnerabilities.map Vulnerability.erased
  controls := c.controls.map ControlCoverage.erased
  security := c.security
  qa := c.qa
  unified := c.unified

def SystemRisk.erased (system : SystemRisk) : SystemRisk where
  sharedVulnerabilities := system.sharedVulnerabilities
  cascades := system.cascades
  trustBoundaries := system.trustBoundaries.map TrustBoundary.erased
  escalationPaths := system.escalationPaths.map EscalationPath.erased
  sharedVulnerabilitiesCollected := system.sharedVulnerabilitiesCollected
  cascadesCollected := system.cascadesCollected
  trustBoundariesCollected := system.trustBoundariesCollected
  escalationPathsCollected := system.escalationPathsCollected
  truncated := system.truncated

/-- A map without its judgement fields. -/
def UnifiedRiskMap.erased (m : UnifiedRiskMap) : UnifiedRiskMap where
  capabilities := m.capabilities.map CapabilityRisk.erased
  system := m.system.erased
  collected := m.collected

variable {baseline : UnifiedRiskMap} {proposal : RiskProposal} {total : ℕ}

theorem erased_judgedCapability (known : List String) (p : RiskProposal) (c : CapabilityRisk) :
    (judgedCapability known p c).erased = c.erased := by
  have hthreats : (threats c (knownOnly known (unique threatKey p.threats))).map
      ThreatAssessment.erased = c.threats.map ThreatAssessment.erased :=
    map_disposed_congr fun _ _ => rfl
  have hvulnerabilities : (vulnerabilities c
      (unique ProposedVulnerability.key p.vulnerabilities)).map Vulnerability.erased =
        c.vulnerabilities.map Vulnerability.erased :=
    map_disposed_congr fun _ _ => rfl
  have hcontrols : (controls c (knownOnly known (unique controlKey p.controls))).map
      ControlCoverage.erased = c.controls.map ControlCoverage.erased :=
    map_disposed_congr fun _ _ => rfl
  rw [judgedCapability, CapabilityRisk.erased, hthreats, hvulnerabilities, hcontrols]
  rfl

theorem erased_applySystemJudgment (system : SystemRisk) (p : RiskProposal) :
    (applySystemJudgment system p).erased = system.erased := by
  have hboundaries : (boundaries system (unique boundaryKey p.boundaries)).map
      TrustBoundary.erased = system.trustBoundaries.map TrustBoundary.erased :=
    map_disposed_congr fun _ _ => rfl
  have hescalations : (escalations system (unique escalationKey p.escalations)).map
      EscalationPath.erased = system.escalationPaths.map EscalationPath.erased :=
    map_disposed_congr fun _ _ => rfl
  rw [applySystemJudgment, SystemRisk.erased, hboundaries, hescalations]
  rfl

theorem applyJudgment_collected :
    (applyJudgment baseline proposal total).collected = baseline.collected := by
  rw [applyJudgment]
  split
  · rfl
  · simp only
    split
    · split <;> rfl
    · rfl

/-- **A judgment fills judgement fields and nothing else.** -/
theorem erased_applyJudgment :
    (applyJudgment baseline proposal total).erased = baseline.erased := by
  by_cases hcollected : baseline.collected = .measured
  · obtain ⟨hcaps, hsystem⟩ := applyJudgment_rows hcollected proposal total
    rw [UnifiedRiskMap.erased, UnifiedRiskMap.erased, hcaps, hsystem, applyJudgment_collected,
      erased_applySystemJudgment, List.map_map]
    congr 1
    exact List.map_congr_left fun c _ => erased_judgedCapability _ _ c
  · rw [applyJudgment, if_pos hcollected]

/-! ### Where it fills them -/

/-- Every change is a row of the proposal that landed on the row changed. -/
def FilledFrom (baseline : UnifiedRiskMap) (proposal : RiskProposal) (result : UnifiedRiskMap) :
    Prop :=
  List.Forall₂ (fun c c' : CapabilityRisk =>
      Filled threatKey proposal.threats (fun row => (c.bcId, row.category)) (admitsThreat c)
        stampedThreat c.threats c'.threats ∧
      Filled ProposedVulnerability.key proposal.vulnerabilities Vulnerability.key
        admitsVulnerability stampedVulnerability c.vulnerabilities c'.vulnerabilities ∧
      Filled controlKey proposal.controls (fun row => (c.bcId, row.family)) admitsControl
        stampedControl c.controls c'.controls)
    baseline.capabilities result.capabilities ∧
  Filled boundaryKey proposal.boundaries (fun row => (row.sourceBcId, row.targetBcId))
    (admitsBoundary baseline.system.trustBoundariesCollected) stampedBoundary
    baseline.system.trustBoundaries result.system.trustBoundaries ∧
  Filled escalationKey proposal.escalations (fun row => normalizePathId row.pathId)
    (admitsEscalation baseline.system.escalationPathsCollected) stampedEscalation
    baseline.system.escalationPaths result.system.escalationPaths

theorem filledFrom_applyJudgment :
    FilledFrom baseline proposal (applyJudgment baseline proposal total) := by
  by_cases hcollected : baseline.collected = .measured
  · obtain ⟨hcaps, hsystem⟩ := applyJudgment_rows hcollected proposal total
    rw [FilledFrom, hcaps, hsystem, List.forall₂_map_right_iff, List.forall₂_same]
    refine ⟨fun c hc => ⟨?_, ?_, ?_⟩, ?_, ?_⟩
    · exact filled_disposed fun row _ => knownOnly_of_mem (List.mem_map_of_mem hc) _
    · exact filled_disposed fun row _ => rfl
    · exact filled_disposed fun row _ => knownOnly_of_mem (List.mem_map_of_mem hc) _
    · exact filled_disposed fun row _ => rfl
    · exact filled_disposed fun row _ => rfl
  · rw [applyJudgment, if_pos hcollected, FilledFrom, List.forall₂_same]
    exact ⟨fun c _ => ⟨filled_self, filled_self, filled_self⟩, filled_self, filled_self⟩

/-! ## 3.  Unknown ids -/

def UnifiedRiskMap.threatKeys (m : UnifiedRiskMap) : List (String × StrideCategory) :=
  m.capabilities.flatMap fun c => c.threats.map fun row => (c.bcId, row.category)

def UnifiedRiskMap.vulnerabilityKeys (m : UnifiedRiskMap) : List String :=
  m.capabilities.flatMap fun c => c.vulnerabilities.map (·.key)

def UnifiedRiskMap.controlKeys (m : UnifiedRiskMap) : List (String × ControlFamily) :=
  m.capabilities.flatMap fun c => c.controls.map fun row => (c.bcId, row.family)

def UnifiedRiskMap.boundaryKeys (m : UnifiedRiskMap) : List (String × String) :=
  m.system.trustBoundaries.map fun row => (row.sourceBcId, row.targetBcId)

def UnifiedRiskMap.escalationKeys (m : UnifiedRiskMap) : List String :=
  m.system.escalationPaths.map fun row => normalizePathId row.pathId

def RiskProposal.knownTo (baseline : UnifiedRiskMap) (p : RiskProposal) : RiskProposal where
  threats := withKeys threatKey baseline.threatKeys p.threats
  vulnerabilities :=
    withKeys ProposedVulnerability.key baseline.vulnerabilityKeys p.vulnerabilities
  controls := withKeys controlKey baseline.controlKeys p.controls
  boundaries := withKeys boundaryKey baseline.boundaryKeys p.boundaries
  escalations := withKeys escalationKey baseline.escalationKeys p.escalations

variable {other : RiskProposal}

theorem judgedCapability_congr (h : other.knownTo baseline = proposal.knownTo baseline)
    {c : CapabilityRisk} (hc : c ∈ baseline.capabilities) :
    judgedCapability (baseline.capabilities.map (·.bcId)) other c =
      judgedCapability (baseline.capabilities.map (·.bcId)) proposal c := by
  have hknown : c.bcId ∈ baseline.capabilities.map (·.bcId) := List.mem_map_of_mem hc
  have hthreats : threats c (knownOnly (baseline.capabilities.map (·.bcId))
        (unique threatKey other.threats)) =
      threats c (knownOnly (baseline.capabilities.map (·.bcId))
        (unique threatKey proposal.threats)) := by
    refine map_disposed_find fun row hrow => ?_
    rw [knownOnly_of_mem hknown, knownOnly_of_mem hknown]
    have hk : (c.bcId, row.category) ∈ baseline.threatKeys :=
      List.mem_flatMap.mpr ⟨c, hc, List.mem_map_of_mem hrow⟩
    exact unique_congr hk (congrArg RiskProposal.threats h)
  have hvulnerabilities : vulnerabilities c
        (unique ProposedVulnerability.key other.vulnerabilities) =
      vulnerabilities c (unique ProposedVulnerability.key proposal.vulnerabilities) := by
    refine map_disposed_find fun row hrow => ?_
    have hk : row.key ∈ baseline.vulnerabilityKeys :=
      List.mem_flatMap.mpr ⟨c, hc, List.mem_map_of_mem hrow⟩
    exact unique_congr hk (congrArg RiskProposal.vulnerabilities h)
  have hcontrols : controls c (knownOnly (baseline.capabilities.map (·.bcId))
        (unique controlKey other.controls)) =
      controls c (knownOnly (baseline.capabilities.map (·.bcId))
        (unique controlKey proposal.controls)) := by
    refine map_disposed_find fun row hrow => ?_
    rw [knownOnly_of_mem hknown, knownOnly_of_mem hknown]
    have hk : (c.bcId, row.family) ∈ baseline.controlKeys :=
      List.mem_flatMap.mpr ⟨c, hc, List.mem_map_of_mem hrow⟩
    exact unique_congr hk (congrArg RiskProposal.controls h)
  rw [judgedCapability, judgedCapability, hthreats, hvulnerabilities, hcontrols]

theorem applySystemJudgment_congr (h : other.knownTo baseline = proposal.knownTo baseline) :
    applySystemJudgment baseline.system other = applySystemJudgment baseline.system proposal := by
  have hboundaries : boundaries baseline.system (unique boundaryKey other.boundaries) =
      boundaries baseline.system (unique boundaryKey proposal.boundaries) := by
    refine map_disposed_find fun row hrow => ?_
    have hk : (row.sourceBcId, row.targetBcId) ∈ baseline.boundaryKeys :=
      List.mem_map_of_mem hrow
    exact unique_congr hk (congrArg RiskProposal.boundaries h)
  have hescalations : escalations baseline.system (unique escalationKey other.escalations) =
      escalations baseline.system (unique escalationKey proposal.escalations) := by
    refine map_disposed_find fun row hrow => ?_
    have hk : normalizePathId row.pathId ∈ baseline.escalationKeys := List.mem_map_of_mem hrow
    exact unique_congr hk (congrArg RiskProposal.escalations h)
  rw [applySystemJudgment, applySystemJudgment, hboundaries, hescalations]

/-- **Rows that name nothing of the baseline change nothing**: proposals that agree on the rows that
do are judged alike.  How many rows were proposed is told apart, in the reason of a map on which
none landed. -/
theorem applyJudgment_congr (h : other.knownTo baseline = proposal.knownTo baseline) :
    applyJudgment baseline other total = applyJudgment baseline proposal total := by
  have hcaps : baseline.capabilities.map
        (judgedCapability (baseline.capabilities.map (·.bcId)) other) =
      baseline.capabilities.map
        (judgedCapability (baseline.capabilities.map (·.bcId)) proposal) :=
    List.map_congr_left fun c hc => judgedCapability_congr h hc
  unfold applyJudgment
  simp only [hcaps, applySystemJudgment_congr h]

/-! ## 4.  When the map is judged -/

def CapabilityRisk.Landed (c : CapabilityRisk) (proposal : RiskProposal) : Prop :=
  (∃ row ∈ c.threats, ∃ p, LandsOn threatKey proposal.threats
    (fun row => (c.bcId, row.category)) (admitsThreat c) row p) ∨
  (∃ row ∈ c.vulnerabilities, ∃ p, LandsOn ProposedVulnerability.key proposal.vulnerabilities
    Vulnerability.key admitsVulnerability row p) ∨
  ∃ row ∈ c.controls, ∃ p, LandsOn controlKey proposal.controls
    (fun row => (c.bcId, row.family)) admitsControl row p

def SystemRisk.Landed (system : SystemRisk) (proposal : RiskProposal) : Prop :=
  (∃ row ∈ system.trustBoundaries, ∃ p, LandsOn boundaryKey proposal.boundaries
    (fun row => (row.sourceBcId, row.targetBcId))
    (admitsBoundary system.trustBoundariesCollected) row p) ∨
  ∃ row ∈ system.escalationPaths, ∃ p, LandsOn escalationKey proposal.escalations
    (fun row => normalizePathId row.pathId)
    (admitsEscalation system.escalationPathsCollected) row p

def Landed (baseline : UnifiedRiskMap) (proposal : RiskProposal) : Prop :=
  (∃ c ∈ baseline.capabilities, c.Landed proposal) ∨ baseline.system.Landed proposal

def CapabilityRisk.CarriesVerdict (c : CapabilityRisk) : Prop :=
  0 < c.threats.countP (·.source = .proposer) ∨
    0 < c.vulnerabilities.countP (·.source = .proposer) ∨
    0 < c.controls.countP (·.source = .proposer)

def SystemRisk.CarriesVerdict (system : SystemRisk) : Prop :=
  0 < system.trustBoundaries.countP (·.source = .proposer) ∨
    0 < system.escalationPaths.countP (·.source = .proposer)

def UnifiedRiskMap.CarriesVerdict (m : UnifiedRiskMap) : Prop :=
  (∃ c ∈ m.capabilities, c.CarriesVerdict) ∨ m.system.CarriesVerdict

/-- `_unjudged_carries_no_proposer_rows`. -/
def UnifiedRiskMap.UnjudgedCarriesNone (m : UnifiedRiskMap) : Prop :=
  m.judgment ≠ .measured → ¬m.CarriesVerdict

theorem appliedCount_pos_iff {rows : List CapabilityRisk} {system : SystemRisk} :
    0 < appliedCount rows system ↔ (∃ c ∈ rows, c.CarriesVerdict) ∨ system.CarriesVerdict := by
  have hsum : 0 < (rows.map fun c => c.threats.countP (·.source = .proposer) +
      c.vulnerabilities.countP (·.source = .proposer) +
      c.controls.countP (·.source = .proposer)).sum ↔ ∃ c ∈ rows, c.CarriesVerdict := by
    simp only [List.sum_pos_iff_exists_pos_nat, List.mem_map, exists_exists_and_eq_and,
      Nat.add_pos_iff_pos_or_pos, or_assoc, CapabilityRisk.CarriesVerdict]
  rw [appliedCount, Nat.add_pos_iff_pos_or_pos, Nat.add_pos_iff_pos_or_pos, hsum, or_assoc,
    SystemRisk.CarriesVerdict]

theorem carriesVerdict_judgedCapability {known : List String} {c : CapabilityRisk}
    (hc : c.bcId ∈ known) :
    (judgedCapability known proposal c).CarriesVerdict ↔
      c.Landed proposal ∨ c.CarriesVerdict := by
  have hthreats : 0 < (threats c (knownOnly known (unique threatKey proposal.threats))).countP
        (·.source = .proposer) ↔
      (∃ row ∈ c.threats, ∃ p, LandsOn threatKey proposal.threats
        (fun row => (c.bcId, row.category)) (admitsThreat c) row p) ∨
      0 < c.threats.countP (·.source = .proposer) :=
    source_pos_iff (fun _ _ => rfl) fun row _ => knownOnly_of_mem hc _
  have hvulnerabilities : 0 < (vulnerabilities c
        (unique ProposedVulnerability.key proposal.vulnerabilities)).countP
        (·.source = .proposer) ↔
      (∃ row ∈ c.vulnerabilities, ∃ p, LandsOn ProposedVulnerability.key
        proposal.vulnerabilities Vulnerability.key admitsVulnerability row p) ∨
      0 < c.vulnerabilities.countP (·.source = .proposer) :=
    source_pos_iff (fun _ _ => rfl) fun row _ => rfl
  have hcontrols : 0 < (controls c (knownOnly known (unique controlKey proposal.controls))).countP
        (·.source = .proposer) ↔
      (∃ row ∈ c.controls, ∃ p, LandsOn controlKey proposal.controls
        (fun row => (c.bcId, row.family)) admitsControl row p) ∨
      0 < c.controls.countP (·.source = .proposer) :=
    source_pos_iff (fun _ _ => rfl) fun row _ => knownOnly_of_mem hc _
  rw [CapabilityRisk.CarriesVerdict, judgedCapability, hthreats, hvulnerabilities, hcontrols,
    CapabilityRisk.Landed, CapabilityRisk.CarriesVerdict]
  exact (or_congr_right (or_or_or_comm ..)).trans (or_or_or_comm ..)

theorem carriesVerdict_applySystemJudgment {system : SystemRisk} :
    (applySystemJudgment system proposal).CarriesVerdict ↔
      system.Landed proposal ∨ system.CarriesVerdict := by
  have hboundaries : 0 < (boundaries system (unique boundaryKey proposal.boundaries)).countP
        (·.source = .proposer) ↔
      (∃ row ∈ system.trustBoundaries, ∃ p, LandsOn boundaryKey proposal.boundaries
        (fun row => (row.sourceBcId, row.targetBcId))
        (admitsBoundary system.trustBoundariesCollected) row p) ∨
      0 < system.trustBoundaries.countP (·.source = .proposer) :=
    source_pos_iff (fun _ _ => rfl) fun row _ => rfl
  have hescalations : 0 < (escalations system
        (unique escalationKey proposal.escalations)).countP (·.source = .proposer) ↔
      (∃ row ∈ system.escalationPaths, ∃ p, LandsOn escalationKey proposal.escalations
        (fun row => normalizePathId row.pathId)
        (admitsEscalation system.escalationPathsCollected) row p) ∨
      0 < system.escalationPaths.countP (·.source = .proposer) :=
    source_pos_iff (fun _ _ => rfl) fun row _ => rfl
  rw [SystemRisk.CarriesVerdict, applySystemJudgment, hboundaries, hescalations,
    SystemRisk.Landed, SystemRisk.CarriesVerdict]
  exact or_or_or_comm ..

theorem appliedCount_judged_iff :
    0 < appliedCount
        (baseline.capabilities.map
          (judgedCapability (baseline.capabilities.map (·.bcId)) proposal))
        (applySystemJudgment baseline.system proposal) ↔
      Landed baseline proposal ∨ baseline.CarriesVerdict := by
  have hcaps : (∃ c' ∈ baseline.capabilities.map
        (judgedCapability (baseline.capabilities.map (·.bcId)) proposal), c'.CarriesVerdict) ↔
      ∃ c ∈ baseline.capabilities, c.Landed proposal ∨ c.CarriesVerdict := by
    simp only [List.mem_map, exists_exists_and_eq_and]
    exact exists_congr fun c => and_congr_right fun hc =>
      carriesVerdict_judgedCapability (List.mem_map_of_mem hc)
  rw [appliedCount_pos_iff, hcaps, carriesVerdict_applySystemJudgment, Landed,
    UnifiedRiskMap.CarriesVerdict]
  simp only [and_or_left, exists_or]
  exact or_or_or_comm ..

/-- **When a collected map is judged.** -/
theorem judged_iff (hcollected : baseline.collected = .measured) :
    (applyJudgment baseline proposal total).judgment = .measured ↔
      Landed baseline proposal ∨ baseline.CarriesVerdict := by
  rw [← appliedCount_judged_iff, Nat.pos_iff_ne_zero, applyJudgment,
    if_neg (not_not.mpr hcollected)]
  simp only
  split
  · rename_i hzero
    refine iff_of_false ?_ (not_not.mpr hzero)
    split <;> exact fun h => by cases h
  · rename_i hpos
    exact iff_of_true rfl hpos

/-! ### The whole of it -/

/-- **A judgment invents no structure.**  It fills judgement fields only, and only of rows of the
baseline that a row of the proposal lands on; rows that name nothing of the baseline change nothing;
and a collected map is judged exactly when a row has landed or a verdict stood before. -/
theorem judgment_fills_only (baseline : UnifiedRiskMap) (proposal : RiskProposal) (total : ℕ) :
    (applyJudgment baseline proposal total).erased = baseline.erased ∧
      FilledFrom baseline proposal (applyJudgment baseline proposal total) ∧
      (∀ other : RiskProposal, other.knownTo baseline = proposal.knownTo baseline →
        applyJudgment baseline other total = applyJudgment baseline proposal total) ∧
      (baseline.collected = .measured →
        ((applyJudgment baseline proposal total).judgment = .measured ↔
          Landed baseline proposal ∨ baseline.CarriesVerdict)) ∧
      (baseline.collected ≠ .measured → applyJudgment baseline proposal total = baseline) :=
  ⟨erased_applyJudgment, filledFrom_applyJudgment, fun _ h => applyJudgment_congr h,
    fun hcollected => judged_iff hcollected, fun hcollected => if_pos hcollected⟩

def sampleChain : UnifiedRiskMap where
  capabilities := sampleBaseline.capabilities ++
    sampleBaseline.capabilities.map fun c => { c with bcId := "BC-002" }
  system :=
    { escalationPaths := [{ path := ["BC-001", "BC-002"], rule := "entry_to_sensitive"
                            rationale := "no judgment was applied" }]
      escalationPathsCollected := .measured }
  collected := .measured

/-- The chain, named with blanks around the arrow. -/
def sampleSpaced : RiskProposal where
  escalations := [{ pathId := "BC-001 -> BC-002", verdict := .refuted
                    rationale := "caller has a signed claim" }]

theorem judgment_fills_only_sample :
    (applyJudgment sampleChain {} 1).judgment = .measured ↔
      Landed sampleChain {} ∨ sampleChain.CarriesVerdict :=
  (judgment_fills_only sampleChain {} 1).2.2.2.1 rfl

/-- An id that no row of the baseline has, as it is written, lands all the same; and a map that was
judged stays judged when nothing lands. -/
theorem unknown_id_lands :
    (∀ row ∈ sampleChain.system.escalationPaths, ∀ p ∈ sampleSpaced.escalations,
        p.pathId ≠ row.pathId) ∧
      (applyJudgment sampleChain sampleSpaced 1).system ≠ sampleChain.system ∧
      (applyJudgment (applyJudgment sampleChain sampleSpaced 1) {} 0).judgment = .measured := by
  decide +kernel

end Kroker.Risk
