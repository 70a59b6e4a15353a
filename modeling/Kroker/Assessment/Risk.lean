import Kroker.Assessment.Verification
import Mathlib

/-!
# The risk map and its judgment layer

`assessment/risk/apply.py` over the contracts of `risk/models.py`, with `verify_risk_refs` before it
and `_judge` of the assessment workflow around it.  The proposer never authors a row: each of the
five families below replaces fields of a row code produced, where the proposer gave just one row for
it that stands.

The validators of the rows are left out: a row built here takes a rationale that is not blank and
keeps what the others read of the row it replaces.  A number is a rational, and nothing here
computes with one.
-/

namespace Kroker.Risk

open Discover

/-! ## The rows -/

inductive RiskSource where
  | baseline
  | proposer
  deriving DecidableEq

inductive StrideCategory where
  | spoofing
  | tampering
  | repudiation
  | informationDisclosure
  | denialOfService
  | elevationOfPrivilege
  deriving DecidableEq

def StrideCategory.value : StrideCategory → String
  | .spoofing => "spoofing"
  | .tampering => "tampering"
  | .repudiation => "repudiation"
  | .informationDisclosure => "information_disclosure"
  | .denialOfService => "denial_of_service"
  | .elevationOfPrivilege => "elevation_of_privilege"

inductive ControlFamily where
  | authentication
  | authorization
  | validation
  | monitoring
  | encryption
  deriving DecidableEq

def ControlFamily.value : ControlFamily → String
  | .authentication => "authentication"
  | .authorization => "authorization"
  | .validation => "validation"
  | .monitoring => "monitoring"
  | .encryption => "encryption"

inductive ControlState where
  | present
  | absent
  deriving DecidableEq

inductive Severity where
  | critical
  | high
  | medium
  | low
  | info
  deriving DecidableEq

inductive VulnerabilityClass where
  | confirmed
  | probable
  | potential
  deriving DecidableEq

inductive BoundaryVerdict where
  | sound
  | weak
  | unclear
  deriving DecidableEq

/-- `PLAUSIBLE`, `REFUTED`, `UNCLEAR`. -/
inductive ChainVerdict where
  | plausibleChain
  | refuted
  | unclear
  deriving DecidableEq

inductive Criticality where
  | high
  | medium
  | low
  deriving DecidableEq

/-- A `Measurement` together with its number. -/
structure Score where
  collected : Measurement
  value : Option ℚ := none

structure Factor where
  key : String
  value : Score
  weight : ℚ := 1

structure Driver where
  factorKey : String
  value : ℚ
  contribution : ℚ

structure Composite where
  value : Score
  factors : List Factor := []
  drivers : List Driver := []

structure CriticalityRating where
  level : Option Criticality := none
  collected : Measurement

structure ThreatAssessment where
  category : StrideCategory
  applicable : Bool
  rationale : String
  vulnerabilityKeys : List String := []
  source : RiskSource := .baseline
  deriving DecidableEq

structure Vulnerability where
  key : String
  classification : VulnerabilityClass
  severity : Severity
  strideCategory : StrideCategory
  path : String
  line : Option ℤ := none
  evidence : List EvidenceRef := []
  rationale : String := ""
  source : RiskSource

structure ControlCoverage where
  family : ControlFamily
  state : Option ControlState := none
  collected : Measurement
  evidence : List EvidenceRef := []
  rule : String
  rationale : String := ""
  source : RiskSource := .baseline

structure SharedVulnerability where
  weaknessClass : String
  signal : String
  rule : String
  key : String := ""
  bcIds : List String
  vulnerabilityKeys : List String
  severity : Severity
  deriving DecidableEq

structure Cascade where
  origin : String
  path : List String
  deriving DecidableEq

structure TrustBoundary where
  sourceBcId : String
  targetBcId : String
  rule : String
  verdict : BoundaryVerdict := .unclear
  rationale : String
  evidence : List EvidenceRef := []
  source : RiskSource := .baseline
  deriving DecidableEq

structure EscalationPath where
  path : List String
  rule : String
  verdict : ChainVerdict := .unclear
  rationale : String
  evidence : List EvidenceRef := []
  source : RiskSource := .baseline
  deriving DecidableEq

/-- `path_id`, derived from the path. -/
def EscalationPath.pathId (p : EscalationPath) : String := joinWith "->" p.path

structure CapabilityRisk where
  bcId : String
  criticality : CriticalityRating
  threats : List ThreatAssessment
  vulnerabilities : List Vulnerability := []
  controls : List ControlCoverage
  security : Composite
  qa : Composite
  unified : Composite

structure SystemRisk where
  sharedVulnerabilities : List SharedVulnerability := []
  cascades : List Cascade := []
  trustBoundaries : List TrustBoundary := []
  escalationPaths : List EscalationPath := []
  sharedVulnerabilitiesCollected : Measurement :=
    .notCollected "cross-capability analysis did not run"
  cascadesCollected : Measurement := .notCollected "cross-capability analysis did not run"
  trustBoundariesCollected : Measurement := .notCollected "cross-capability analysis did not run"
  escalationPathsCollected : Measurement := .notCollected "cross-capability analysis did not run"
  truncated : List String := []
  deriving DecidableEq

structure UnifiedRiskMap where
  capabilities : List CapabilityRisk := []
  system : SystemRisk := {}
  collected : Measurement
  judgment : Measurement := .notCollected "no proposer output was applied"

/-! ## What the proposer returns -/

structure ProposedThreat where
  bcId : String
  category : StrideCategory
  applicable : Bool
  rationale : String
  vulnerabilityKeys : List String := []
  evidence : List EvidenceRef := []
  quote : String := ""
  deriving DecidableEq

structure ProposedVulnerability where
  key : String
  classification : VulnerabilityClass
  strideCategory : StrideCategory
  rationale : String
  evidence : List EvidenceRef := []
  quote : String := ""

structure ProposedControl where
  bcId : String
  family : ControlFamily
  state : ControlState
  rationale : String
  evidence : List EvidenceRef := []
  quote : String := ""

structure ProposedBoundary where
  sourceBcId : String
  targetBcId : String
  verdict : BoundaryVerdict
  rationale : String
  evidence : List EvidenceRef := []
  quote : String := ""

structure ProposedEscalation where
  pathId : String
  verdict : ChainVerdict
  rationale : String
  evidence : List EvidenceRef := []
  quote : String := ""

/-- A row of any of the five families. -/
inductive ProposedRow where
  | threat (row : ProposedThreat)
  | vulnerability (row : ProposedVulnerability)
  | control (row : ProposedControl)
  | boundary (row : ProposedBoundary)
  | escalation (row : ProposedEscalation)

def ProposedRow.evidence : ProposedRow → List EvidenceRef
  | .threat row => row.evidence
  | .vulnerability row => row.evidence
  | .control row => row.evidence
  | .boundary row => row.evidence
  | .escalation row => row.evidence

def ProposedRow.quote : ProposedRow → String
  | .threat row => row.quote
  | .vulnerability row => row.quote
  | .control row => row.quote
  | .boundary row => row.quote
  | .escalation row => row.quote

instance : VerifiableRow ProposedRow := ⟨ProposedRow.evidence, ProposedRow.quote⟩

/-- `row_id`, prefixed by the family. -/
def ProposedRow.rowId : ProposedRow → String
  | .threat row => "threat:" ++ row.bcId ++ ":" ++ row.category.value
  | .vulnerability row => "vuln:" ++ row.key
  | .control row => "control:" ++ row.bcId ++ ":" ++ row.family.value
  | .boundary row => "boundary:" ++ row.sourceBcId ++ "->" ++ row.targetBcId
  | .escalation row => "escalation:" ++ row.pathId

structure RiskProposal where
  threats : List ProposedThreat := []
  vulnerabilities : List ProposedVulnerability := []
  controls : List ProposedControl := []
  boundaries : List ProposedBoundary := []
  escalations : List ProposedEscalation := []

/-- Every row, for one verification pass. -/
def RiskProposal.rows (p : RiskProposal) : List ProposedRow :=
  p.threats.map .threat ++ p.vulnerabilities.map .vulnerability ++ p.controls.map .control ++
    p.boundaries.map .boundary ++ p.escalations.map .escalation

/-! ## Verification -/

def ProposedRow.threat? : ProposedRow → Option ProposedThreat
  | .threat row => some row
  | _ => none

def ProposedRow.vulnerability? : ProposedRow → Option ProposedVulnerability
  | .vulnerability row => some row
  | _ => none

def ProposedRow.control? : ProposedRow → Option ProposedControl
  | .control row => some row
  | _ => none

def ProposedRow.boundary? : ProposedRow → Option ProposedBoundary
  | .boundary row => some row
  | _ => none

def ProposedRow.escalation? : ProposedRow → Option ProposedEscalation
  | .escalation row => some row
  | _ => none

/-- The survivors, re-split by family. -/
def RiskProposal.ofRows (rows : List ProposedRow) : RiskProposal where
  threats := rows.filterMap ProposedRow.threat?
  vulnerabilities := rows.filterMap ProposedRow.vulnerability?
  controls := rows.filterMap ProposedRow.control?
  boundaries := rows.filterMap ProposedRow.boundary?
  escalations := rows.filterMap ProposedRow.escalation?

/-- `verify_risk_refs`: one pass over all five families. -/
def verifyRiskRefs (D : UnicodeDigits) (blobs : String → Option String) (proposal : RiskProposal) :
    RowVerification ProposedRow :=
  verifyRows D blobs ProposedRow.rowId proposal.rows

/-! ## The judgment -/

/-- `degraded`: the judgment layer did not collect. -/
def degraded (m : UnifiedRiskMap) (reason : String) : UnifiedRiskMap where
  capabilities := m.capabilities
  system := m.system
  collected := m.collected
  judgment := .notCollected reason

def evidenceKey (e : EvidenceRef) : String ×ₗ String := toLex (e.path, e.lines)

/-- `_merged`: baseline evidence plus the proposer's, sorted and without duplicates. -/
def merged (evidence proposed : List EvidenceRef) : List EvidenceRef :=
  unionBy evidenceKey [evidence, proposed]

/-- What the five families do alike: a row takes what is proposed for it, where that is admitted. -/
def disposed {Row P : Type} (find : Row → Option P) (admits : Row → P → Bool)
    (stamped : Row → P → Row) (row : Row) : Row :=
  match find row with
  | none => row
  | some p => if admits row p = true then stamped row p else row

def threatKey (r : ProposedThreat) : String × StrideCategory := (r.bcId, r.category)

def controlKey (r : ProposedControl) : String × ControlFamily := (r.bcId, r.family)

def boundaryKey (r : ProposedBoundary) : String × String := (r.sourceBcId, r.targetBcId)

def normalizePathId (pathId : String) : String := String.ofList (pathId.toList.filter (· ≠ ' '))

def escalationKey (r : ProposedEscalation) : String := normalizePathId r.pathId

def admitsThreat (cap : CapabilityRisk) (_ : ThreatAssessment) (p : ProposedThreat) : Bool :=
  strip p.rationale ≠ "" && p.vulnerabilityKeys.all (· ∈ cap.vulnerabilities.map (·.key))

def stampedThreat (row : ThreatAssessment) (p : ProposedThreat) : ThreatAssessment where
  category := row.category
  applicable := p.applicable
  rationale := p.rationale
  vulnerabilityKeys := sortedSet p.vulnerabilityKeys
  source := .proposer

def threats (cap : CapabilityRisk) (proposed : String × StrideCategory → Option ProposedThreat) :
    List ThreatAssessment :=
  cap.threats.map (disposed (fun row => proposed (cap.bcId, row.category)) (admitsThreat cap)
    stampedThreat)

def admitsVulnerability (_ : Vulnerability) (p : ProposedVulnerability) : Bool :=
  strip p.rationale ≠ ""

def stampedVulnerability (row : Vulnerability) (p : ProposedVulnerability) : Vulnerability where
  key := row.key
  classification := p.classification
  severity := row.severity
  strideCategory := p.strideCategory
  path := row.path
  line := row.line
  evidence := merged row.evidence p.evidence
  rationale := p.rationale
  source := .proposer

def vulnerabilities (cap : CapabilityRisk) (proposed : String → Option ProposedVulnerability) :
    List Vulnerability :=
  cap.vulnerabilities.map (disposed (fun row => proposed row.key) admitsVulnerability
    stampedVulnerability)

/-- A family whose scan source did not collect may not be dispositioned. -/
def admitsControl (row : ControlCoverage) (p : ProposedControl) : Bool :=
  strip p.rationale ≠ "" && row.collected = .measured

def stampedControl (row : ControlCoverage) (p : ProposedControl) : ControlCoverage where
  family := row.family
  state := some p.state
  collected := row.collected
  evidence := merged row.evidence p.evidence
  rule := "proposer_disposition"
  rationale := p.rationale
  source := .proposer

def controls (cap : CapabilityRisk) (proposed : String × ControlFamily → Option ProposedControl) :
    List ControlCoverage :=
  cap.controls.map (disposed (fun row => proposed (cap.bcId, row.family)) admitsControl
    stampedControl)

def admitsBoundary (collected : Measurement) (_ : TrustBoundary) (p : ProposedBoundary) : Bool :=
  collected = .measured && strip p.rationale ≠ ""

def stampedBoundary (row : TrustBoundary) (p : ProposedBoundary) : TrustBoundary where
  sourceBcId := row.sourceBcId
  targetBcId := row.targetBcId
  rule := row.rule
  verdict := p.verdict
  rationale := p.rationale
  evidence := merged row.evidence p.evidence
  source := .proposer

/-- `_boundaries`; where the family did not collect, no row is admitted. -/
def boundaries (system : SystemRisk) (proposed : String × String → Option ProposedBoundary) :
    List TrustBoundary :=
  system.trustBoundaries.map (disposed (fun row => proposed (row.sourceBcId, row.targetBcId))
    (admitsBoundary system.trustBoundariesCollected) stampedBoundary)

def admitsEscalation (collected : Measurement) (_ : EscalationPath) (p : ProposedEscalation) :
    Bool :=
  collected = .measured && strip p.rationale ≠ ""

def stampedEscalation (row : EscalationPath) (p : ProposedEscalation) : EscalationPath where
  path := row.path
  rule := row.rule
  verdict := p.verdict
  rationale := p.rationale
  evidence := merged row.evidence p.evidence
  source := .proposer

def escalations (system : SystemRisk) (proposed : String → Option ProposedEscalation) :
    List EscalationPath :=
  system.escalationPaths.map (disposed (fun row => proposed (normalizePathId row.pathId))
    (admitsEscalation system.escalationPathsCollected) stampedEscalation)

def applySystemJudgment (system : SystemRisk) (proposal : RiskProposal) : SystemRisk where
  sharedVulnerabilities := system.sharedVulnerabilities
  cascades := system.cascades
  trustBoundaries := boundaries system (unique boundaryKey proposal.boundaries)
  escalationPaths := escalations system (unique escalationKey proposal.escalations)
  sharedVulnerabilitiesCollected := system.sharedVulnerabilitiesCollected
  cascadesCollected := system.cascadesCollected
  trustBoundariesCollected := system.trustBoundariesCollected
  escalationPathsCollected := system.escalationPathsCollected
  truncated := system.truncated

/-- The entries whose key begins with the id of a capability of the map. -/
def knownOnly {κ P : Type} (known : List String) (table : String × κ → Option P) :
    String × κ → Option P :=
  fun k => if k.1 ∈ known then table k else none

def judgedCapability (known : List String) (proposal : RiskProposal) (c : CapabilityRisk) :
    CapabilityRisk where
  bcId := c.bcId
  criticality := c.criticality
  threats := threats c (knownOnly known (unique threatKey proposal.threats))
  vulnerabilities :=
    vulnerabilities c (unique ProposedVulnerability.key proposal.vulnerabilities)
  controls := controls c (knownOnly known (unique controlKey proposal.controls))
  security := c.security
  qa := c.qa
  unified := c.unified

/-- How many rows the proposer's verdicts stand on. -/
def appliedCount (rows : List CapabilityRisk) (system : SystemRisk) : ℕ :=
  (rows.map fun c => c.threats.countP (·.source = .proposer) +
    c.vulnerabilities.countP (·.source = .proposer) +
    c.controls.countP (·.source = .proposer)).sum +
  system.trustBoundaries.countP (·.source = .proposer) +
  system.escalationPaths.countP (·.source = .proposer)

def applyJudgment (baseline : UnifiedRiskMap) (proposal : RiskProposal) (total : ℕ) :
    UnifiedRiskMap :=
  if baseline.collected ≠ .measured then baseline
  else
    let known := baseline.capabilities.map (·.bcId)
    let rows := baseline.capabilities.map (judgedCapability known proposal)
    let system := applySystemJudgment baseline.system proposal
    if appliedCount rows system = 0 then
      if total = 0 then degraded baseline "the proposer returned no dispositions"
      else
        degraded baseline
          ("the proposer returned " ++ toString total ++ " row(s) and none survived verification")
    else
      { capabilities := rows
        system := system
        collected := baseline.collected
        judgment := .measured }

/-- `_judge`, from what the proposer returned on. -/
def judge (D : UnicodeDigits) (rateText : ℕ → ℕ → String) (blobs : String → Option String)
    (baseline : UnifiedRiskMap) (proposal : RiskProposal) : UnifiedRiskMap :=
  let verification := verifyRiskRefs D blobs proposal
  if guardReason rateText verification ≠ "" then
    degraded baseline (guardReason rateText verification)
  else
    applyJudgment baseline (RiskProposal.ofRows verification.survivors) proposal.rows.length

end Kroker.Risk
