import Kroker.Assessment.Risk
import Mathlib.Algebra.Order.BigOperators.Group.List
import Mathlib.Algebra.Order.Field.Basic
import Mathlib.Tactic.Linarith

/-!
# The scores of a capability

`assessment/risk/factors.py`, `composites.py`, `controls.py` and `severity.py`, and the rows that
`build` makes of a capability map with them.  A score is a number or says why there is none; a
control is `PRESENT` where nothing was observed against it, and has no state where the categories
that would have observed it did not report.

* Two composites whose factors correspond, none of the second lower, are themselves in that order
  (`notLower_composed`), and a composite lies between nought and one where its factors do
  (`graded_composed`).
* So a capability with one more observation or finding has a row that is no better
  (`NotBetter.assessed`), and the map with it (`forall₂_noBetter`).
* A factor is measured only where its own category was collected, save one: `likelihood` asks that
  something was collected, whatever it was (`measured_likelihood_iff`).  `scores_lawful_iff` says
  where this does no harm.

The numbers are rationals: the rounding of the weighted sums is left out.  The view of the system is
a parameter, which is given the rows; of a coverage record only the rate is kept.
-/

namespace Kroker.Scores

open Discover Risk

/-! ## 1.  What is scored -/

/-- A capability, as far as the risk phase reads it.  Of a coverage record it is the rate. -/
structure Capability where
  bcId : String
  members : List CandidateMember := []
  security : List SecurityObservation := []
  sensitivity : List SensitivityRecord := []
  testability : List TestabilityFinding := []
  coverage : List Score := []

structure CapabilityMap where
  capabilities : List Capability := []
  collected : Measurement

def categories : ScanSignalId → List String
  | .s1 => ["packages"]
  | .s2 => ["schema_clusters"]
  | .s3 => ["backend_entry_points"]
  | .s4 => ["frontend_entry_points"]
  | .s5 => ["candidate_merge"]
  | .ss1 => ["credential_storage", "authn_authz", "tls_enforcement", "input_validation"]
  | .ss2 => ["direct_dependencies"]
  | .ss3 => ["framework_defaults", "exposed_ports", "env_divergence", "db_security", "log_masking"]
  | .ss4 => ["data_sensitivity", "entity_access"]
  | .qs1 => ["tests_present", "test_levels", "test_mapping"]
  | .qs2 => ["coverage"]
  | .qs3 => ["testability"]
  | .qs4 => ["ci_present", "ci_stages", "env_drift"]

def Owed (category : String) : Prop :=
  ∃ signal ∈ [ScanSignalId.ss1, .ss2, .ss3, .ss4], category ∈ categories signal

instance (category : String) : Decidable (Owed category) :=
  inferInstanceAs (Decidable (∃ signal ∈ _, _))

def reachableKinds : List MemberKind := [.httpRoute, .frontendRoute, .grpcMethod]

/-- `_REGULATED`. -/
def regulatedKinds : List Sensitivity := [.health, .regulatory, .financial]

/-- `Measurement.measured` of a number. -/
def scored (value : ℚ) : Score := { collected := .measured, value := some value }

/-- `Measurement.not_collected`. -/
def unscored (reason : String) : Score := { collected := .notCollected reason }

/-! ## 2.  Criticality and severity -/

def criticality (cap : Capability) (sensitivityCollected : Bool) : CriticalityRating :=
  if sensitivityCollected then
    let regulated := cap.sensitivity.any fun r => r.classification ∈ regulatedKinds
    let sensitive := !cap.sensitivity.isEmpty
    let reachable := cap.members.any fun m => m.kind ∈ reachableKinds
    let level :=
      if sensitive && reachable then Criticality.high
      else if regulated || (sensitive && reachable) then .medium
      else if sensitive || reachable then if reachable then .medium else .low
      else .low
    { level := some level, collected := .measured }
  else
    { collected := .notCollected
        ("criticality needs SS4, which did not collect -- an empty sensitivity set is not " ++
          "evidence that no entity is regulated") }

/-- `_ORDER`. -/
def severityOrder : List Severity := [.info, .low, .medium, .high, .critical]

def hintIndex : SeverityHint → ℤ
  | .info => 0
  | .low => 1
  | .medium => 2
  | .high => 3
  | .critical => 4

def criticalityShift : Criticality → ℤ
  | .high => 1
  | .medium => 0
  | .low => -1

/-- An entry of `_ORDER`, whose index is kept within it. -/
def severityAt (i : ℤ) : Severity := (severityOrder[(min 4 (max 0 i)).toNat]?).getD .info

def severityTable (hint : SeverityHint) (level : Criticality) : Severity :=
  severityAt (hintIndex hint + criticalityShift level)

/-- `severity`: the table, and one step down where the confidence is low. -/
def severity (hint : SeverityHint) (rating : CriticalityRating) (confidence : Confidence) :
    Severity :=
  let out := severityTable hint (rating.level.getD .medium)
  if confidence = .low then severityAt (severityOrder.idxOf out - 1) else out

/-! ## 3.  Controls -/

def controlSources : ControlFamily → List String
  | .authentication => ["authn_authz"]
  | .validation => ["input_validation"]
  | .encryption => ["tls_enforcement", "db_security"]
  | .authorization => []
  | .monitoring => []

/-- `NO_SOURCE_REASON`, of the two families that have none. -/
def noSourceReason : ControlFamily → String
  | .authorization =>
    "SS1 collapses authentication and authorization into one authn_authz category, so " ++
      "authorization has no separate source (E-49 RD5); an SS1 v2 that separates them is the " ++
      "follow-up"
  | .monitoring =>
    "no scan signal collects monitoring presence -- log_masking is masking, not presence " ++
      "(E-49 RD5)"
  | _ => ""

def controlFamilies : List ControlFamily :=
  [.authentication, .authorization, .validation, .monitoring, .encryption]

/-- `(signal.value, rule, path, line or 0)`. -/
def observationKey (o : SecurityObservation) : String ×ₗ String ×ₗ String ×ₗ ℤ :=
  toLex (o.signal.value, toLex (o.rule, toLex (o.path, o.line.getD 0)))

def observationRef (o : SecurityObservation) : EvidenceRef where
  path := o.path
  lines := match o.line with
    | none => ""
    | some line => if line = 0 then "" else toString line

def hits (cap : Capability) (family : ControlFamily) : List SecurityObservation :=
  sortedBy observationKey (cap.security.filter fun o => o.category ∈ controlSources family)

def control (cap : Capability) (collected : StrSet) (family : ControlFamily) : ControlCoverage :=
  let sources := controlSources family
  let missing := sources.filter (· ∉ collected)
  if sources = [] then
    { family, rule := "no_source", collected := .notCollected (noSourceReason family) }
  else if missing ≠ [] then
    { family
      rule := "upstream_not_collected"
      collected := .notCollected
        (family.value ++ ": category/categories " ++ Corrections.reprList missing ++
          " did not report, and a signal that did not run is not a clean control") }
  else
    { family
      state := some (if hits cap family = [] then .present else .absent)
      collected := .measured
      evidence := (hits cap family).map observationRef
      rule := "observations_in_family" }

def controls (cap : Capability) (collected : StrSet) : List ControlCoverage :=
  controlFamilies.map (control cap collected)

/-! ## 4.  Factors -/

def clamp (x : ℚ) : ℚ := max 0 (min 1 x)

/-- `SECURITY_WEIGHTS`, `QA_WEIGHTS` and `UNIFIED_WEIGHTS`. -/
def weight : String → ℚ
  | "exposure" => 1 / 4
  | "impact" => 2 / 5
  | "likelihood" => 7 / 20
  | "change_velocity" => 3 / 20
  | "coverage_gap" => 7 / 20
  | "defect_density" => 3 / 20
  | "testability" => 7 / 20
  | "qa" => 2 / 5
  | "security" => 3 / 5
  | _ => 1

/-- `_f`. -/
def factor (key : String) (value : Score) : Factor := { key, value, weight := weight key }

/-- `_IMPACT_BY_CRITICALITY`. -/
def impactBy : Criticality → ℚ
  | .high => 1
  | .medium => 1 / 2
  | .low => 1 / 5

def testabilityWeight : TestabilitySeverity → ℚ
  | .blocks => 1
  | .impedes => 1 / 2
  | .smell => 1 / 5

def likelihood (cap : Capability) (collected : StrSet) : Score :=
  if collected.isEmpty then
    unscored "likelihood needs at least one security category to have reported; none did"
  else scored (clamp (cap.security.length / 5))

def impact (rating : CriticalityRating) : Score :=
  match rating.level with
  | none => unscored ("impact is derived from criticality, which did not collect: " ++
      rating.collected.reason)
  | some level => scored (impactBy level)

def exposure (cap : Capability) (rows : List ControlCoverage) : Score :=
  let reachable := cap.members.countP fun m => m.kind ∈ reachableKinds
  let absent := rows.countP fun c => c.state = some .absent
  scored (clamp (1 / 2 * clamp (reachable / 3) + 1 / 2 * clamp (absent / 3)))

def securityFactors (cap : Capability) (rating : CriticalityRating) (rows : List ControlCoverage)
    (collected : StrSet) : List Factor :=
  sortedBy Factor.key
    [factor "likelihood" (likelihood cap collected), factor "impact" (impact rating),
      factor "exposure" (exposure cap rows)]

def coverageGap (cap : Capability) (coverageCollected : Bool) : Score :=
  if !coverageCollected then unscored "coverage_gap needs QS2, which did not collect"
  else if cap.coverage = [] then
    unscored "coverage_gap: QS2 collected but produced no record for this capability's files"
  else
    let rates := (cap.coverage.filter fun r => r.collected = .measured).filterMap Score.value
    if rates = [] then
      unscored "coverage_gap: every coverage record for this capability is itself uncollected"
    else scored (clamp (1 - rates.sum / rates.length / 100))

def testabilityFactor (cap : Capability) (testabilityCollected : Bool) : Score :=
  if !testabilityCollected then unscored "testability needs QS3, which did not collect"
  else
    let weights := cap.testability.map fun f => testabilityWeight f.severity
    scored (if weights = [] then 0 else clamp (weights.sum / 3))

/-- `UNSOURCED_QA`. -/
def defectDensity : Score :=
  unscored ("defect_density: no issue-tracker input; /enrich (E-56) is the declared stage input " ++
    "that would supply it")

def changeVelocity : Score :=
  unscored ("change_velocity: no signal reads git history, and E-41b found history least " ++
    "reliable on this repository population")

def qaFactors (cap : Capability) (coverageCollected testabilityCollected : Bool) : List Factor :=
  sortedBy Factor.key
    [factor "coverage_gap" (coverageGap cap coverageCollected),
      factor "testability" (testabilityFactor cap testabilityCollected),
      factor "defect_density" defectDensity, factor "change_velocity" changeVelocity]

/-! ## 5.  Composites -/

/-- `Factor.collected`. -/
def collectedFactor (f : Factor) : Bool := f.value.collected = .measured

/-- `_drivers`: the three largest contributions. -/
def drivers (factors : List Factor) : List Driver :=
  let rows := (factors.filter collectedFactor).filterMap fun f => f.value.value.map fun v =>
    ({ factorKey := f.key, value := v, contribution := v * f.weight } : Driver)
  (sortedBy (fun d : Driver => toLex (-d.contribution, d.factorKey)) rows).take 3

/-- The value of `compose`. -/
def composed (factors : List Factor) (label : String) : Score :=
  let missing := (factors.filter fun f => !collectedFactor f).map Factor.key
  if missing ≠ [] then
    unscored (label ++ " composite: factor(s) " ++ Corrections.reprList (sortedBy id missing) ++
      " did not collect")
  else
    scored ((factors.filterMap fun f => f.value.value.map (· * f.weight)).sum /
      (factors.map Factor.weight).sum)

def compose (factors : List Factor) (label : String) : Composite where
  value := composed factors label
  factors := factors
  drivers := drivers factors

def unified (security qa : Composite) : Composite :=
  compose (sortedBy Factor.key [factor "security" security.value, factor "qa" qa.value])
    "unified"

/-! ## 6.  The map -/

def noJudgment : String :=
  "deterministic baseline: STRIDE applicability is the risk proposer's judgment, and this row " ++
    "records that no judgment was applied -- not a finding of inapplicability. See " ++
    "UnifiedRiskMap.judgment for why"

def threats : List ThreatAssessment :=
  [StrideCategory.spoofing, .tampering, .repudiation, .informationDisclosure, .denialOfService,
    .elevationOfPrivilege].map fun category =>
      { category, applicable := false, rationale := noJudgment }

def securityIdentity (o : SecurityObservation) : String :=
  o.signal.value ++ ":" ++ o.rule ++ ":" ++ o.path ++ ":" ++ o.key

def vulnerabilities (cap : Capability) (rating : CriticalityRating) : List Vulnerability :=
  (sortedBy observationKey cap.security).map fun o =>
    { key := securityIdentity o
      classification := .potential
      severity := severity o.severityHint rating o.confidence
      strideCategory := .informationDisclosure
      path := o.path
      line := o.line
      evidence := [observationRef o]
      source := .baseline }

def assessed (collected : StrSet) (cap : Capability) : CapabilityRisk :=
  let rating := criticality cap (decide ("data_sensitivity" ∈ collected))
  let rows := controls cap collected
  let security := compose (securityFactors cap rating rows collected) "security"
  let qa := compose
    (qaFactors cap (decide ("coverage" ∈ collected)) (decide ("testability" ∈ collected))) "qa"
  { bcId := cap.bcId
    criticality := rating
    threats := threats
    vulnerabilities := vulnerabilities cap rating
    controls := rows
    security
    qa
    unified := unified security qa }

def noRisk (reason : String) : UnifiedRiskMap := { collected := .notCollected reason }

/-- `build`.  The system view is computed from the rows. -/
def build (systemView : CapabilityMap → List CapabilityRisk → StrSet → SystemRisk)
    (cmap : CapabilityMap) (collected : StrSet) : UnifiedRiskMap :=
  if cmap.collected ≠ .measured then
    noRisk ("discover did not collect (" ++ cmap.collected.reason ++
      "), so there is no capability set to assess")
  else if cmap.capabilities = [] then
    noRisk ("discover collected but identified no capabilities, so there is nothing to score -- " ++
      "a map over zero capabilities would read as a clean risk map")
  else
    let rows := (sortedBy Capability.bcId cmap.capabilities).map (assessed collected)
    { capabilities := rows, system := systemView cmap rows collected, collected := .measured }

/-! ## 7.  Scores as they are compared -/

def Graded (s : Score) : Prop :=
  (s.collected ≠ .measured ∧ s.value = none) ∨ ∃ v, s = scored v ∧ 0 ≤ v ∧ v ≤ 1

/-- The second score is as high as the first, or there is none of either, for one reason. -/
def NotLower (s t : Score) : Prop := s = t ∨ ∃ v w, s = scored v ∧ t = scored w ∧ v ≤ w

theorem NotLower.refl (s : Score) : NotLower s s := .inl rfl

theorem NotLower.collected {s t : Score} (h : NotLower s t) : t.collected = s.collected := by
  rcases h with rfl | ⟨v, w, rfl, rfl, -⟩
  · rfl
  · rfl

theorem notLower_scored {v w : ℚ} (h : v ≤ w) : NotLower (scored v) (scored w) :=
  .inr ⟨v, w, rfl, rfl, h⟩

theorem graded_unscored (reason : String) : Graded (unscored reason) := .inl ⟨nofun, rfl⟩

theorem clamp_nonneg (x : ℚ) : 0 ≤ clamp x := le_max_left _ _

theorem clamp_le_one (x : ℚ) : clamp x ≤ 1 := max_le zero_le_one (min_le_left _ _)

theorem clamp_mono {x y : ℚ} (h : x ≤ y) : clamp x ≤ clamp y :=
  max_le_max_left _ (min_le_min_left _ h)

theorem clamp_zero : clamp 0 = 0 := by
  rw [clamp, min_eq_right zero_le_one, max_self]

theorem graded_clamp (x : ℚ) : Graded (scored (clamp x)) :=
  .inr ⟨_, rfl, clamp_nonneg x, clamp_le_one x⟩

structure FactorNotLower (f g : Factor) : Prop where
  key : f.key = g.key
  weight : f.weight = g.weight
  value : NotLower f.value g.value

theorem FactorNotLower.refl (f : Factor) : FactorNotLower f f := ⟨rfl, rfl, .refl _⟩

theorem factorNotLower {s t : Score} (h : NotLower s t) (key : String) :
    FactorNotLower (factor key s) (factor key t) := ⟨rfl, rfl, h⟩

/-! ## 8.  Weighted sums -/

section Sums

/-- What a factor adds to the sum. -/
def share (f : Factor) : Option ℚ := f.value.value.map (· * f.weight)

variable {factors : List Factor}

theorem shares_bounds (hweight : ∀ f ∈ factors, 0 ≤ f.weight)
    (hgraded : ∀ f ∈ factors, Graded f.value) (hall : ∀ f ∈ factors, collectedFactor f = true) :
    0 ≤ (factors.filterMap share).sum ∧
      (factors.filterMap share).sum ≤ (factors.map Factor.weight).sum := by
  induction factors with
  | nil => exact ⟨le_refl _, le_refl _⟩
  | cons f factors ih =>
    obtain ⟨hnonneg, hle⟩ := ih (fun g hg => hweight g (List.mem_cons_of_mem _ hg))
      (fun g hg => hgraded g (List.mem_cons_of_mem _ hg))
      fun g hg => hall g (List.mem_cons_of_mem _ hg)
    have hw := hweight f List.mem_cons_self
    have hcollected := hall f List.mem_cons_self
    rcases hgraded f List.mem_cons_self with ⟨hnone, -⟩ | ⟨v, hv, hzero, hone⟩
    · exact absurd (of_decide_eq_true hcollected) hnone
    · have hshare : share f = some (v * f.weight) := by
        rw [share, hv]
        rfl
      have hpart := mul_le_mul_of_nonneg_right hone hw
      rw [List.filterMap_cons_some hshare, List.sum_cons, List.map_cons, List.sum_cons]
      exact ⟨add_nonneg (mul_nonneg hzero hw) hnonneg, add_le_add (by linarith) hle⟩

theorem shares_mono {F G : List Factor} (h : List.Forall₂ FactorNotLower F G)
    (hweight : ∀ f ∈ F, 0 ≤ f.weight) :
    (F.filterMap share).sum ≤ (G.filterMap share).sum := by
  induction h with
  | nil => exact le_refl _
  | @cons f g F G hfg _ ih =>
    have hrest := ih fun f hf => hweight f (List.mem_cons_of_mem _ hf)
    have hw := hweight f List.mem_cons_self
    rcases hfg.value with heq | ⟨v, w, hv, hw', hle⟩
    · have hshare : share f = share g := by rw [share, share, heq, hfg.weight]
      cases hg : share g with
      | none => rwa [List.filterMap_cons_none (hshare.trans hg), List.filterMap_cons_none hg]
      | some x =>
        rw [List.filterMap_cons_some (hshare.trans hg), List.filterMap_cons_some hg, List.sum_cons,
          List.sum_cons]
        exact add_le_add_right hrest x
    · have hf : share f = some (v * f.weight) := by
        rw [share, hv]
        rfl
      have hg : share g = some (w * f.weight) := by
        rw [share, hw', hfg.weight]
        rfl
      rw [List.filterMap_cons_some hf, List.filterMap_cons_some hg, List.sum_cons, List.sum_cons]
      exact add_le_add (mul_le_mul_of_nonneg_right hle hw) hrest

theorem weights_eq {F G : List Factor} (h : List.Forall₂ FactorNotLower F G) :
    F.map Factor.weight = G.map Factor.weight := by
  induction h with
  | nil => rfl
  | cons hfg _ ih => rw [List.map_cons, List.map_cons, ih, hfg.weight]

def missing (factors : List Factor) : List String :=
  (factors.filter fun f => !collectedFactor f).map Factor.key

theorem missing_eq {F G : List Factor} (h : List.Forall₂ FactorNotLower F G) :
    missing F = missing G := by
  induction h with
  | nil => rfl
  | @cons f g F G hfg _ ih =>
    have hcollected : collectedFactor f = collectedFactor g := by
      rw [collectedFactor, collectedFactor, hfg.value.collected]
    rw [missing, List.filter_cons, hcollected, missing, List.filter_cons]
    split
    · rw [List.map_cons, List.map_cons, hfg.key]
      exact congrArg _ ih
    · exact ih

theorem missing_eq_nil_iff :
    missing factors = [] ↔ ∀ f ∈ factors, f.value.collected = .measured := by
  rw [missing, List.map_eq_nil_iff, List.filter_eq_nil_iff]
  refine forall₂_congr fun f _ => ?_
  rw [collectedFactor, Bool.not_eq_true', decide_eq_false_iff_not, not_not]

variable {label : String}

theorem composed_eq (factors : List Factor) : composed factors label =
    if missing factors ≠ [] then
      unscored (label ++ " composite: factor(s) " ++
        Corrections.reprList (sortedBy id (missing factors)) ++ " did not collect")
    else scored ((factors.filterMap share).sum / (factors.map Factor.weight).sum) := rfl

/-- **A composite is measured** exactly where all its factors are. -/
theorem measured_composed_iff :
    (composed factors label).collected = .measured ↔
      ∀ f ∈ factors, f.value.collected = .measured := by
  rw [← missing_eq_nil_iff, composed_eq]
  split
  · rename_i h
    exact iff_of_false nofun h
  · rename_i h
    exact iff_of_true rfl (not_not.mp h)

/-- **A composite lies between nought and one** where its factors do. -/
theorem graded_composed (hweight : ∀ f ∈ factors, 0 ≤ f.weight)
    (htotal : 0 < (factors.map Factor.weight).sum) (hgraded : ∀ f ∈ factors, Graded f.value) :
    Graded (composed factors label) := by
  rw [composed_eq]
  split
  · exact graded_unscored _
  · rename_i h
    have hall := missing_eq_nil_iff.mp (not_not.mp h)
    obtain ⟨hnonneg, hle⟩ := shares_bounds hweight hgraded fun f hf =>
      decide_eq_true (hall f hf)
    exact .inr ⟨_, rfl, div_nonneg hnonneg htotal.le, (div_le_one htotal).mpr hle⟩

/-- **A composite of factors that are not lower** is not lower. -/
theorem notLower_composed {F G : List Factor} (h : List.Forall₂ FactorNotLower F G)
    (hweight : ∀ f ∈ F, 0 ≤ f.weight) :
    NotLower (composed F label) (composed G label) := by
  rw [composed_eq, composed_eq, missing_eq h]
  split
  · exact .refl _
  · refine notLower_scored ?_
    rw [weights_eq h]
    refine div_le_div_of_nonneg_right (shares_mono h hweight) (List.sum_nonneg fun w hw => ?_)
    rw [← weights_eq h] at hw
    obtain ⟨f, hf, rfl⟩ := List.mem_map.mp hw
    exact hweight f hf

end Sums

/-! ## 9.  A capability of which more is known -/

/-- A security observation or a testability finding is added, all else equal. -/
inductive Worsened : Capability → Capability → Prop
  | security (cap : Capability) (l m : List SecurityObservation) (o : SecurityObservation) :
    Worsened { cap with security := l ++ m } { cap with security := l ++ o :: m }
  | testability (cap : Capability) (l m : List TestabilityFinding) (f : TestabilityFinding) :
    Worsened { cap with testability := l ++ m } { cap with testability := l ++ f :: m }

/-- What the scores read of the two. -/
structure NotBetter (cap cap' : Capability) : Prop where
  bcId : cap'.bcId = cap.bcId
  members : cap'.members = cap.members
  sensitivity : cap'.sensitivity = cap.sensitivity
  coverage : cap'.coverage = cap.coverage
  security : cap.security.Sublist cap'.security
  testability : cap.testability.Sublist cap'.testability

theorem NotBetter.refl (cap : Capability) : NotBetter cap cap :=
  ⟨rfl, rfl, rfl, rfl, .refl _, .refl _⟩

theorem Worsened.notBetter {cap cap' : Capability} (h : Worsened cap cap') :
    NotBetter cap cap' := by
  cases h with
  | security cap l m o =>
    exact ⟨rfl, rfl, rfl, rfl, (List.Sublist.refl l).append (List.sublist_cons_self o m), .refl _⟩
  | testability cap l m f =>
    exact ⟨rfl, rfl, rfl, rfl, .refl _, (List.Sublist.refl l).append (List.sublist_cons_self f m)⟩

/-- The second control is of the same family, and not `PRESENT` where the first is `ABSENT`. -/
structure ControlNotBetter (c c' : ControlCoverage) : Prop where
  family : c'.family = c.family
  collected : c'.collected = c.collected
  state : c.state = some .absent → c'.state = some .absent

section Capabilities

variable {cap cap' : Capability}

theorem NotBetter.criticality (h : NotBetter cap cap') (b : Bool) :
    criticality cap' b = Scores.criticality cap b := by
  rw [Scores.criticality, Scores.criticality, h.sensitivity, h.members]

theorem hits_ne_nil_iff {family : ControlFamily} :
    hits cap family ≠ [] ↔ ∃ o ∈ cap.security, o.category ∈ controlSources family := by
  have hmem : ∀ o, o ∈ hits cap family ↔ o ∈ cap.security ∧ o.category ∈ controlSources family := by
    intro o
    rw [hits, mem_sortedBy, List.mem_filter, decide_eq_true_iff]
  refine ⟨fun hne => ?_, fun ⟨o, ho⟩ => List.ne_nil_of_mem ((hmem o).mpr ho)⟩
  obtain ⟨o, ho⟩ := List.exists_mem_of_ne_nil _ hne
  exact ⟨o, (hmem o).mp ho⟩

theorem NotBetter.hits_ne_nil (h : NotBetter cap cap') {family : ControlFamily}
    (hne : hits cap family ≠ []) : hits cap' family ≠ [] := by
  obtain ⟨o, ho, hfamily⟩ := hits_ne_nil_iff.mp hne
  exact hits_ne_nil_iff.mpr ⟨o, h.security.mem ho, hfamily⟩

variable (collected : StrSet)

theorem NotBetter.control (h : NotBetter cap cap') (family : ControlFamily) :
    ControlNotBetter (control cap collected family)
      (Scores.control cap' collected family) := by
  by_cases hsource : controlSources family = []
  · rw [Scores.control, Scores.control, if_pos hsource, if_pos hsource]
    exact ⟨rfl, rfl, id⟩
  · by_cases hmissing : (controlSources family).filter (· ∉ collected) ≠ []
    · rw [Scores.control, Scores.control, if_neg hsource, if_neg hsource, if_pos hmissing,
        if_pos hmissing]
      exact ⟨rfl, rfl, id⟩
    · rw [Scores.control, Scores.control, if_neg hsource, if_neg hsource, if_neg hmissing,
        if_neg hmissing]
      refine ⟨rfl, rfl, fun habsent => ?_⟩
      have hne : hits cap family ≠ [] := by
        intro hnil
        rw [if_pos hnil] at habsent
        exact nomatch Option.some.inj habsent
      exact congrArg some (if_neg (h.hits_ne_nil hne))

theorem NotBetter.controls (h : NotBetter cap cap') :
    List.Forall₂ ControlNotBetter (controls cap collected)
      (Scores.controls cap' collected) := by
  rw [Scores.controls, Scores.controls, List.forall₂_map_left_iff, List.forall₂_map_right_iff]
  exact List.forall₂_same.mpr fun family _ => h.control collected family

theorem weights_mono {l m : List TestabilityFinding} (h : l.Sublist m) :
    (l.map fun f => testabilityWeight f.severity).sum ≤
      (m.map fun f => testabilityWeight f.severity).sum := by
  refine (h.map _).sum_le_sum fun w hw => ?_
  obtain ⟨f, -, rfl⟩ := List.mem_map.mp hw
  cases f.severity <;> norm_num [testabilityWeight]

theorem testabilityFactor_eq (cap : Capability) (b : Bool) : testabilityFactor cap b =
    if !b then unscored "testability needs QS3, which did not collect"
    else scored (clamp ((cap.testability.map fun f => testabilityWeight f.severity).sum / 3)) := by
  rw [testabilityFactor]
  split
  · rfl
  · by_cases hnil : cap.testability.map (fun f => testabilityWeight f.severity) = []
    · rw [hnil]
      exact congrArg scored (by rw [if_pos rfl, List.sum_nil, zero_div, clamp_zero])
    · exact congrArg scored (if_neg hnil)

theorem NotBetter.testabilityFactor (h : NotBetter cap cap') (b : Bool) :
    NotLower (testabilityFactor cap b) (Scores.testabilityFactor cap' b) := by
  rw [testabilityFactor_eq, testabilityFactor_eq]
  split
  · exact .refl _
  · exact notLower_scored (clamp_mono (div_le_div_of_nonneg_right (weights_mono h.testability)
      (by norm_num)))

theorem NotBetter.likelihood (h : NotBetter cap cap') :
    NotLower (likelihood cap collected) (Scores.likelihood cap' collected) := by
  rw [Scores.likelihood, Scores.likelihood]
  split
  · exact .refl _
  · refine notLower_scored (clamp_mono (div_le_div_of_nonneg_right ?_ (by norm_num)))
    exact Nat.cast_le.mpr h.security.length_le

theorem NotBetter.exposure (h : NotBetter cap cap') {rows rows' : List ControlCoverage}
    (hrows : List.Forall₂ ControlNotBetter rows rows') :
    NotLower (exposure cap rows) (Scores.exposure cap' rows') := by
  have habsent : rows.countP (fun c => c.state = some .absent) ≤
      rows'.countP fun c => c.state = some .absent := by
    induction hrows with
    | nil => exact le_refl _
    | @cons c c' rows rows' hc _ ih =>
      rw [List.countP_cons, List.countP_cons]
      refine Nat.add_le_add ih ?_
      split
      · rename_i hstate
        rw [if_pos (decide_eq_true (hc.state (of_decide_eq_true hstate)))]
      · exact Nat.zero_le _
  have hparts : clamp (rows.countP (fun c => c.state = some .absent) / 3) ≤
      clamp (rows'.countP (fun c => c.state = some .absent) / 3) :=
    clamp_mono (div_le_div_of_nonneg_right (Nat.cast_le.mpr habsent) (by norm_num))
  rw [Scores.exposure, Scores.exposure, h.members]
  exact notLower_scored (clamp_mono (by linarith))

theorem NotBetter.securityFactors (h : NotBetter cap cap') (rating : CriticalityRating)
    {rows rows' : List ControlCoverage} (hrows : List.Forall₂ ControlNotBetter rows rows') :
    List.Forall₂ FactorNotLower (securityFactors cap rating rows collected)
      (Scores.securityFactors cap' rating rows' collected) := by
  refine forall₂_sortedBy (fun _ _ hfg => hfg.key) ?_
  exact .cons (factorNotLower (h.likelihood collected) _) (.cons (.refl _)
    (.cons (factorNotLower (h.exposure hrows) _) .nil))

theorem NotBetter.qaFactors (h : NotBetter cap cap') (b b' : Bool) :
    List.Forall₂ FactorNotLower (qaFactors cap b b') (Scores.qaFactors cap' b b') := by
  have hgap : coverageGap cap' b = coverageGap cap b := by
    rw [coverageGap, coverageGap, h.coverage]
  refine forall₂_sortedBy (fun _ _ hfg => hfg.key) ?_
  rw [hgap]
  exact .cons (.refl _) (.cons (factorNotLower (h.testabilityFactor b') _)
    (.cons (.refl _) (.cons (.refl _) .nil)))

end Capabilities

/-! ## 10.  Rows -/

structure CompositeNotLower (c c' : Composite) : Prop where
  factors : List.Forall₂ FactorNotLower c.factors c'.factors
  value : NotLower c.value c'.value

/-- **The second row is no better**: no factor and no composite is lower, and no control that was
`ABSENT` is `PRESENT`. -/
structure NoBetter (row row' : CapabilityRisk) : Prop where
  bcId : row'.bcId = row.bcId
  security : CompositeNotLower row.security row'.security
  qa : CompositeNotLower row.qa row'.qa
  unified : CompositeNotLower row.unified row'.unified
  controls : List.Forall₂ ControlNotBetter row.controls row'.controls

theorem weight_pos (key : String) : 0 < weight key := by
  unfold weight
  split <;> norm_num

theorem weight_nonneg (key : String) : 0 ≤ weight key := (weight_pos key).le

theorem compositeNotLower {F G : List Factor} (h : List.Forall₂ FactorNotLower F G)
    (hweight : ∀ f ∈ F, 0 ≤ f.weight) (label : String) :
    CompositeNotLower (compose F label) (compose G label) :=
  ⟨h, notLower_composed h hweight⟩

theorem CompositeNotLower.unified {s s' q q' : Composite} (hs : CompositeNotLower s s')
    (hq : CompositeNotLower q q') :
    CompositeNotLower (unified s q) (Scores.unified s' q') := by
  refine compositeNotLower (forall₂_sortedBy (fun _ _ hfg => hfg.key) ?_) ?_ _
  · exact .cons (factorNotLower hs.value _) (.cons (factorNotLower hq.value _) .nil)
  · intro f hf
    rw [mem_sortedBy, List.mem_pair] at hf
    rcases hf with rfl | rfl
    · exact weight_nonneg _
    · exact weight_nonneg _

theorem mem_securityFactors {cap : Capability} {rating : CriticalityRating}
    {rows : List ControlCoverage} {collected : StrSet} {f : Factor} :
    f ∈ securityFactors cap rating rows collected ↔
      f = factor "likelihood" (likelihood cap collected) ∨ f = factor "impact" (impact rating) ∨
        f = factor "exposure" (exposure cap rows) := by
  rw [securityFactors, mem_sortedBy, List.mem_cons, List.mem_pair]

theorem mem_qaFactors {cap : Capability} {b b' : Bool} {f : Factor} :
    f ∈ qaFactors cap b b' ↔
      f = factor "coverage_gap" (coverageGap cap b) ∨
        f = factor "testability" (testabilityFactor cap b') ∨
        f = factor "defect_density" defectDensity ∨
        f = factor "change_velocity" changeVelocity := by
  rw [qaFactors, mem_sortedBy, List.mem_cons, List.mem_cons, List.mem_pair]

/-- **A capability of which more is known** has a row that is no better. -/
theorem NotBetter.assessed {cap cap' : Capability} (h : NotBetter cap cap') (collected : StrSet) :
    NoBetter (assessed collected cap) (Scores.assessed collected cap') := by
  have hcontrols := h.controls collected
  have hsecurity : CompositeNotLower (Scores.assessed collected cap).security
      (Scores.assessed collected cap').security := by
    refine compositeNotLower ?_ (fun f hf => ?_) _
    · rw [h.criticality]
      exact h.securityFactors collected _ hcontrols
    · rcases mem_securityFactors.mp hf with rfl | rfl | rfl <;> exact weight_nonneg _
  have hqa : CompositeNotLower (Scores.assessed collected cap).qa
      (Scores.assessed collected cap').qa := by
    refine compositeNotLower (h.qaFactors _ _) (fun f hf => ?_) _
    rcases mem_qaFactors.mp hf with rfl | rfl | rfl | rfl <;> exact weight_nonneg _
  exact ⟨h.bcId, hsecurity, hqa, hsecurity.unified hqa, hcontrols⟩

theorem graded_impact (rating : CriticalityRating) : Graded (impact rating) := by
  rw [impact]
  split
  · exact graded_unscored _
  · rename_i level _
    refine .inr ⟨_, rfl, ?_⟩
    cases level <;> norm_num [impactBy]

theorem graded_likelihood (cap : Capability) (collected : StrSet) :
    Graded (likelihood cap collected) := by
  rw [likelihood]
  split
  · exact graded_unscored _
  · exact graded_clamp _

theorem graded_coverageGap (cap : Capability) (b : Bool) : Graded (coverageGap cap b) := by
  unfold coverageGap
  split
  · exact graded_unscored _
  · split
    · exact graded_unscored _
    · dsimp only
      split
      · exact graded_unscored _
      · exact graded_clamp _

theorem graded_testabilityFactor (cap : Capability) (b : Bool) :
    Graded (testabilityFactor cap b) := by
  rw [testabilityFactor_eq]
  split
  · exact graded_unscored _
  · exact graded_clamp _

/-- **A composite is sound**: it is measured exactly where all its factors are, and then it is a
number from nought to one. -/
structure CompositeSound (c : Composite) : Prop where
  measured : c.value.collected = .measured ↔ ∀ f ∈ c.factors, f.value.collected = .measured
  graded : Graded c.value

theorem compositeSound {factors : List Factor} {label : String} (hne : factors ≠ [])
    (hweight : ∀ f ∈ factors, 0 < f.weight) (hgraded : ∀ f ∈ factors, Graded f.value) :
    CompositeSound (compose factors label) := by
  refine ⟨measured_composed_iff, graded_composed (fun f hf => (hweight f hf).le) ?_ hgraded⟩
  refine List.sum_pos _ (fun w hw => ?_) (fun hnil => hne (List.map_eq_nil_iff.mp hnil))
  obtain ⟨f, hf, rfl⟩ := List.mem_map.mp hw
  exact hweight f hf

theorem compositeSound_unified {s q : Composite} (hs : CompositeSound s) (hq : CompositeSound q) :
    CompositeSound (unified s q) := by
  have hcases : ∀ f ∈ sortedBy Factor.key [factor "security" s.value, factor "qa" q.value],
      f = factor "security" s.value ∨ f = factor "qa" q.value := by
    intro f hf
    rwa [mem_sortedBy, List.mem_pair] at hf
  refine compositeSound ?_ (fun f hf => ?_) fun f hf => ?_
  · exact List.ne_nil_of_mem (mem_sortedBy.mpr List.mem_cons_self)
  · rcases hcases f hf with rfl | rfl <;> exact weight_pos _
  · rcases hcases f hf with rfl | rfl
    · exact hs.graded
    · exact hq.graded

/-- **The composites of a row** are sound. -/
theorem compositeSound_assessed (collected : StrSet) (cap : Capability) :
    ∀ c ∈ [(assessed collected cap).security, (assessed collected cap).qa,
      (assessed collected cap).unified], CompositeSound c := by
  have hsecurity : CompositeSound (assessed collected cap).security := by
    refine compositeSound ?_ (fun f hf => ?_) fun f hf => ?_
    · exact List.ne_nil_of_mem (mem_securityFactors.mpr (.inl rfl))
    · rcases mem_securityFactors.mp hf with rfl | rfl | rfl <;> exact weight_pos _
    · rcases mem_securityFactors.mp hf with rfl | rfl | rfl
      · exact graded_likelihood _ _
      · exact graded_impact _
      · exact graded_clamp _
  have hqa : CompositeSound (assessed collected cap).qa := by
    refine compositeSound ?_ (fun f hf => ?_) fun f hf => ?_
    · exact List.ne_nil_of_mem (mem_qaFactors.mpr (.inl rfl))
    · rcases mem_qaFactors.mp hf with rfl | rfl | rfl | rfl <;> exact weight_pos _
    · rcases mem_qaFactors.mp hf with rfl | rfl | rfl | rfl
      · exact graded_coverageGap _ _
      · exact graded_testabilityFactor _ _
      · exact graded_unscored _
      · exact graded_unscored _
  intro c hc
  rcases List.mem_cons.mp hc with rfl | hc
  · exact hsecurity
  · rcases List.mem_pair.mp hc with rfl | rfl
    · exact hqa
    · exact compositeSound_unified hsecurity hqa

/-! ## 11.  What was scanned -/

def MeasuredFactor (c : Composite) (key : String) : Prop :=
  ∃ f ∈ c.factors, f.key = key ∧ f.value.collected = .measured

theorem measured_likelihood_iff {cap : Capability} {collected : StrSet} :
    MeasuredFactor (assessed collected cap).security "likelihood" ↔
      collected.isEmpty = false := by
  constructor
  · rintro ⟨f, hf, hkey, hmeasured⟩
    rcases mem_securityFactors.mp hf with rfl | rfl | rfl
    · rw [factor, likelihood] at hmeasured
      split at hmeasured
      · exact nomatch hmeasured
      · rename_i hempty
        exact Bool.eq_false_iff.mpr hempty
    · exact absurd hkey (by decide : "impact" ≠ "likelihood")
    · exact absurd hkey (by decide : "exposure" ≠ "likelihood")
  · intro hempty
    refine ⟨_, mem_securityFactors.mpr (.inl rfl), rfl, ?_⟩
    rw [factor, likelihood, hempty]
    rfl

theorem MeasuredFactor.impact {cap : Capability} {collected : StrSet}
    (h : MeasuredFactor (assessed collected cap).security "impact") :
    "data_sensitivity" ∈ collected := by
  obtain ⟨f, hf, hkey, hmeasured⟩ := h
  rcases mem_securityFactors.mp hf with rfl | rfl | rfl
  · exact absurd hkey (by decide : "likelihood" ≠ "impact")
  · by_contra hnot
    rw [decide_eq_false hnot] at hmeasured
    exact nomatch hmeasured
  · exact absurd hkey (by decide : "exposure" ≠ "impact")

theorem MeasuredFactor.coverageGap {cap : Capability} {collected : StrSet}
    (h : MeasuredFactor (assessed collected cap).qa "coverage_gap") :
    "coverage" ∈ collected := by
  obtain ⟨f, hf, hkey, hmeasured⟩ := h
  rcases mem_qaFactors.mp hf with rfl | rfl | rfl | rfl
  · by_contra hnot
    rw [decide_eq_false hnot] at hmeasured
    exact nomatch hmeasured
  · exact absurd hkey (by decide : "testability" ≠ "coverage_gap")
  · exact absurd hkey (by decide : "defect_density" ≠ "coverage_gap")
  · exact absurd hkey (by decide : "change_velocity" ≠ "coverage_gap")

theorem MeasuredFactor.testability {cap : Capability} {collected : StrSet}
    (h : MeasuredFactor (assessed collected cap).qa "testability") :
    "testability" ∈ collected := by
  obtain ⟨f, hf, hkey, hmeasured⟩ := h
  rcases mem_qaFactors.mp hf with rfl | rfl | rfl | rfl
  · exact absurd hkey (by decide : "coverage_gap" ≠ "testability")
  · by_contra hnot
    rw [decide_eq_false hnot] at hmeasured
    exact nomatch hmeasured
  · exact absurd hkey (by decide : "defect_density" ≠ "testability")
  · exact absurd hkey (by decide : "change_velocity" ≠ "testability")

/-! ## 12.  The law of the map -/

/-- What a row says was scanned, and that its composites are sound. -/
structure Scanned (collected : StrSet) (row : CapabilityRisk) : Prop where
  likelihood : MeasuredFactor row.security "likelihood" → ∃ category ∈ collected, Owed category
  impact : MeasuredFactor row.security "impact" → "data_sensitivity" ∈ collected
  coverage : MeasuredFactor row.qa "coverage_gap" → "coverage" ∈ collected
  testability : MeasuredFactor row.qa "testability" → "testability" ∈ collected
  composites : ∀ c ∈ [row.security, row.qa, row.unified], CompositeSound c

/-- An observation or a finding is added to one capability of the map. -/
inductive MapWorsened : CapabilityMap → CapabilityMap → Prop
  | one (l m : List Capability) {cap cap' : Capability} (collected : Measurement)
    (h : Worsened cap cap') : MapWorsened ⟨l ++ cap :: m, collected⟩ ⟨l ++ cap' :: m, collected⟩

theorem MapWorsened.notBetter {cmap cmap' : CapabilityMap} (h : MapWorsened cmap cmap') :
    List.Forall₂ NotBetter cmap.capabilities cmap'.capabilities := by
  cases h with
  | one l m collected h =>
    have hsame : ∀ l : List Capability, List.Forall₂ NotBetter l l := fun l =>
      List.forall₂_same.mpr fun cap _ => .refl cap
    exact List.rel_append (hsame l) (.cons h.notBetter (hsame m))

theorem MapWorsened.collected {cmap cmap' : CapabilityMap} (h : MapWorsened cmap cmap') :
    cmap'.collected = cmap.collected := by
  cases h with
  | one => rfl

section Map

variable {systemView : CapabilityMap → List CapabilityRisk → StrSet → SystemRisk}
  {cmap cmap' : CapabilityMap} {collected : StrSet}

theorem capabilities_build : (build systemView cmap collected).capabilities =
    if cmap.collected = .measured then
      (sortedBy Capability.bcId cmap.capabilities).map (assessed collected)
    else [] := by
  rw [build]
  by_cases hmeasured : cmap.collected = .measured
  · rw [if_neg (not_not.mpr hmeasured), if_pos hmeasured]
    by_cases hnil : cmap.capabilities = []
    · rw [if_pos hnil, hnil]
      rfl
    · rw [if_neg hnil]
  · rw [if_pos hmeasured, if_neg hmeasured]
    rfl

theorem mem_capabilities_build {row : CapabilityRisk}
    (h : row ∈ (build systemView cmap collected).capabilities) :
    ∃ cap ∈ cmap.capabilities, row = assessed collected cap := by
  rw [capabilities_build] at h
  split at h
  · obtain ⟨cap, hcap, rfl⟩ := List.mem_map.mp h
    exact ⟨cap, mem_sortedBy.mp hcap, rfl⟩
  · exact nomatch h

/-- **No row gets better** when more is known. -/
theorem forall₂_noBetter (h : MapWorsened cmap cmap') :
    List.Forall₂ NoBetter (build systemView cmap collected).capabilities
      (build systemView cmap' collected).capabilities := by
  rw [capabilities_build, capabilities_build, h.collected]
  split
  · rw [List.forall₂_map_left_iff, List.forall₂_map_right_iff]
    refine (forall₂_sortedBy (fun _ _ hcap => ?_) h.notBetter).imp fun _ _ hcap =>
      hcap.assessed collected
    exact hcap.bcId.symm
  · exact .nil

/-- **The scores obey their law** exactly where nothing was collected or some security category was:
`likelihood` asks for any category at all, and the others for their own. -/
theorem scores_lawful_iff
    (systemView : CapabilityMap → List CapabilityRisk → StrSet → SystemRisk)
    (cmap : CapabilityMap) (collected : StrSet)
    (hrows : (build systemView cmap collected).capabilities ≠ []) :
    ((∀ row ∈ (build systemView cmap collected).capabilities, Scanned collected row) ∧
        ∀ cmap', MapWorsened cmap cmap' →
          List.Forall₂ NoBetter (build systemView cmap collected).capabilities
            (build systemView cmap' collected).capabilities) ↔
      collected.isEmpty ∨ ∃ category ∈ collected, Owed category := by
  constructor
  · rintro ⟨hscanned, -⟩
    obtain ⟨row, hrow⟩ := List.exists_mem_of_ne_nil _ hrows
    obtain ⟨cap, -, rfl⟩ := mem_capabilities_build hrow
    cases hempty : collected.isEmpty with
    | true => exact .inl rfl
    | false => exact .inr ((hscanned _ hrow).likelihood (measured_likelihood_iff.mpr hempty))
  · intro hcondition
    refine ⟨fun row hrow => ?_, fun cmap' h => forall₂_noBetter h⟩
    obtain ⟨cap, -, rfl⟩ := mem_capabilities_build hrow
    refine ⟨fun hlikelihood => ?_, MeasuredFactor.impact, MeasuredFactor.coverageGap,
      MeasuredFactor.testability, compositeSound_assessed collected cap⟩
    rcases hcondition with hempty | howed
    · rw [measured_likelihood_iff, hempty] at hlikelihood
      exact nomatch hlikelihood
    · exact howed

/-- A map of one capability, of which the sensitivity was scanned. -/
theorem scores_lawful_iff_sample :
    ∃ cmap collected, cmap = (⟨[{ bcId := "BC-001" }], .measured⟩ : CapabilityMap) ∧
      collected = (∅ : StrSet).insert "data_sensitivity" ∧
      ∀ systemView, ∀ row ∈ (build systemView cmap collected).capabilities,
        Scanned collected row := by
  refine ⟨_, _, rfl, rfl, fun systemView => ((scores_lawful_iff systemView _ _ ?_).mpr ?_).1⟩
  · rw [capabilities_build, if_pos rfl]
    exact nofun
  · exact .inr ⟨"data_sensitivity", (StrSet.mem_insert _ _ _).mpr (.inl rfl), by decide⟩

/-- **Coverage alone** measures the likelihood: the row of a capability without an observation says
that it was scanned for security, and found at nought. -/
theorem coverage_measures_likelihood :
    ∃ cmap collected, cmap = (⟨[{ bcId := "BC-001" }], .measured⟩ : CapabilityMap) ∧
      collected = (∅ : StrSet).insert "coverage" ∧
      ∀ systemView, ∃ row ∈ (build systemView cmap collected).capabilities,
        MeasuredFactor row.security "likelihood" ∧ ¬ ∃ category ∈ collected, Owed category := by
  refine ⟨_, (∅ : StrSet).insert "coverage", rfl, rfl, fun systemView =>
    ⟨assessed ((∅ : StrSet).insert "coverage") { bcId := "BC-001" }, ?_,
      measured_likelihood_iff.mpr ?_, ?_⟩⟩
  · rw [capabilities_build, if_pos rfl]
    exact List.mem_map_of_mem (mem_sortedBy.mpr List.mem_cons_self)
  · simp
  · rintro ⟨category, hmem, howed⟩
    rcases (StrSet.mem_insert _ _ _).mp hmem with rfl | hmem
    · exact absurd howed (by decide)
    · exact Std.ExtTreeSet.not_mem_empty hmem

end Map

end Kroker.Scores
