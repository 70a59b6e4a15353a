import Kroker.Capability.Corrections
import Kroker.Library.Keyed
import Mathlib.Data.Prod.Lex

/-!
# The assessment: what scan found and what discover decides

The records of `assessment/scan/models.py` that travel through discover, and the contracts of
`assessment/discover/map.py`: what the proposer may say about a candidate, and what code makes of
it.  A `CandidateDisposition` satisfies its validators, and so does a `SplitPartition`: a merge
without a target, a split into one part or a verdict of the proposer without a rationale cannot be
built.

The number of a `Measurement` is left out, as in the capability contracts.
-/

namespace Kroker.Discover

/-! ## Scan -/

inductive Confidence where
  | high
  | medium
  | low
  deriving DecidableEq

inductive ScanSignalId where
  | s1 | s2 | s3 | s4 | s5
  | ss1 | ss2 | ss3 | ss4
  | qs1 | qs2 | qs3 | qs4
  deriving DecidableEq

def ScanSignalId.value : ScanSignalId → String
  | .s1 => "S1"
  | .s2 => "S2"
  | .s3 => "S3"
  | .s4 => "S4"
  | .s5 => "S5"
  | .ss1 => "SS1"
  | .ss2 => "SS2"
  | .ss3 => "SS3"
  | .ss4 => "SS4"
  | .qs1 => "QS1"
  | .qs2 => "QS2"
  | .qs3 => "QS3"
  | .qs4 => "QS4"

inductive MemberKind where
  | httpRoute
  | cliCommand
  | dbTable
  | queueTopic
  | grpcMethod
  | scheduledJob
  | frontendRoute
  | entityName
  | testName
  | exportedSymbol
  | packagePath
  | filePath
  deriving DecidableEq

def MemberKind.value : MemberKind → String
  | .httpRoute => "http_route"
  | .cliCommand => "cli_command"
  | .dbTable => "db_table"
  | .queueTopic => "queue_topic"
  | .grpcMethod => "grpc_method"
  | .scheduledJob => "scheduled_job"
  | .frontendRoute => "frontend_route"
  | .entityName => "entity_name"
  | .testName => "test_name"
  | .exportedSymbol => "exported_symbol"
  | .packagePath => "package_path"
  | .filePath => "file_path"

structure CandidateMember where
  kind : MemberKind
  value : String
  path : String := ""
  line : Option ℤ := none
  deriving DecidableEq

/-- `(kind.value, value, path, line or 0)`. -/
def CandidateMember.sortKey (m : CandidateMember) : String ×ₗ String ×ₗ String ×ₗ ℤ :=
  toLex (m.kind.value, toLex (m.value, toLex (m.path, m.line.getD 0)))

structure EvidenceRef where
  path : String
  /-- `"42-78"`; empty for the whole file. -/
  lines : String := ""
  deriving DecidableEq

inductive Sensitivity where
  | pii
  | financial
  | authentication
  | health
  | regulatory
  deriving DecidableEq

def Sensitivity.value : Sensitivity → String
  | .pii => "pii"
  | .financial => "financial"
  | .authentication => "authentication"
  | .health => "health"
  | .regulatory => "regulatory"

inductive SensitivityOrigin where
  | table
  | model
  | dto
  deriving DecidableEq

structure SensitivityRecord where
  classification : Sensitivity
  entity : String
  origin : SensitivityOrigin
  fields : List String
  accessedBy : List String := []
  evidence : List EvidenceRef := []
  rule : String
  confidence : Confidence
  deriving DecidableEq

inductive TestabilitySeverity where
  | blocks
  | impedes
  | smell
  deriving DecidableEq

structure TestabilityFinding where
  severity : TestabilitySeverity
  pattern : String
  detail : String
  recommendedSeam : String
  path : String
  line : Option ℤ := none
  evidence : String := ""
  key : String := ""
  deriving DecidableEq

inductive SeverityHint where
  | info
  | low
  | medium
  | high
  | critical
  deriving DecidableEq

structure SecurityObservation where
  signal : ScanSignalId
  category : String
  rule : String
  detail : String
  severityHint : SeverityHint
  path : String
  line : Option ℤ := none
  evidence : String := ""
  key : String := ""
  confidence : Confidence
  deriving DecidableEq

inductive CoverageScope where
  | file
  | package
  deriving DecidableEq

inductive CoverageSource where
  | report
  | proxy
  deriving DecidableEq

structure CoverageRecord where
  scope : CoverageScope
  path : String
  covered : Measurement
  source : CoverageSource
  tool : String := ""
  confidence : Confidence
  deriving DecidableEq

/-! ## The context -/

/-- `GUARDRAIL_RULES`: the rules that name a layer or a container. -/
def guardrailRules : List String := ["s1_layer_name", "s1_generic_name"]

/-- One scan candidate as the proposer sees it. -/
structure CandidateContext where
  candidateId : String
  name : String
  confidence : Confidence
  sourceRules : List String := []
  members : List CandidateMember
  cohesion : Measurement := .measured
  coupling : Measurement := .measured
  possibleDuplicateOf : List String := []
  security : List SecurityObservation := []
  sensitivity : List SensitivityRecord := []
  testability : List TestabilityFinding := []
  coverage : List CoverageRecord := []

/-- `_guardrail_only_is_derived`. -/
def CandidateContext.guardrailOnly (c : CandidateContext) : Bool :=
  c.sourceRules ≠ [] && c.sourceRules.all (· ∈ guardrailRules)

/-- The packet handed to the proposer. -/
structure DiscoverContext where
  candidates : List CandidateContext := []

def DiscoverContext.ids (context : DiscoverContext) : List String :=
  context.candidates.map (·.candidateId)

/-- `{c.candidate_id: c for c in context.candidates}`. -/
def DiscoverContext.byId (context : DiscoverContext) : Table CandidateContext.candidateId :=
  Table.ofRows _ context.candidates

/-! ## Dispositions -/

inductive DiscoverAction where
  | confirm
  | split
  | merge
  | deScope
  | flag
  deriving DecidableEq

def DiscoverAction.value : DiscoverAction → String
  | .confirm => "confirm"
  | .split => "split"
  | .merge => "merge"
  | .deScope => "de_scope"
  | .flag => "flag"

def rejectingActions : List DiscoverAction := [.deScope, .flag]

inductive DispositionSource where
  | baseline
  | proposer
  | dropped
  deriving DecidableEq

/-- One side of a split; `sorted` is `_member_values_are_sorted`. -/
structure SplitPartition where
  name : String
  memberValues : List String
  sorted : memberValues.Pairwise (· < ·) := by decide
  deriving DecidableEq

/-- What the proposer returns for a candidate. -/
structure ProposedDisposition where
  candidateId : String
  action : DiscoverAction
  rationale : String
  mergeInto : Option String := none
  partitions : List SplitPartition := []
  evidence : List EvidenceRef := []
  quote : String := ""
  deriving DecidableEq

/-- The fields of a `CandidateDisposition`. -/
structure DispositionFields where
  candidateId : String
  action : DiscoverAction
  source : DispositionSource
  rule : String
  rationale : String := ""
  mergeInto : Option String := none
  partitions : List SplitPartition := []
  evidence : List EvidenceRef := []
  quote : String := ""
  deriving DecidableEq

def shownOption : Option String → String
  | none => "None"
  | some s => s

/-- `repr` of an optional string. -/
def reprOption : Option String → String
  | none => "None"
  | some s => quoted s

/-- What the first validator that refuses the fields says. -/
def DispositionFields.problem (d : DispositionFields) : Option String :=
  if ¬(d.action = .merge ↔ d.mergeInto.isSome = true) then
    some ("merge_into is set IFF action is merge -- got action=" ++ d.action.value ++
      " merge_into=" ++ shownOption d.mergeInto)
  else if d.action = .split ∧ d.partitions.length < 2 then
    some ("action=split needs at least two partitions, got " ++ toString d.partitions.length ++
      " -- a split into one is a confirm")
  else if d.action ≠ .split ∧ d.partitions ≠ [] then
    some ("action=" ++ d.action.value ++ " must not carry partitions")
  else if d.source = .proposer ∧ strip d.rationale = "" then
    some ("source=proposer requires a rationale -- a baseline's rule IS its rationale, but an " ++
      "unexplained model verdict is unreviewable")
  else none

/-- A disposition after code has stamped its provenance. -/
structure CandidateDisposition extends DispositionFields where
  valid : toDispositionFields.problem = none
  deriving DecidableEq

/-- The constructor. -/
def CandidateDisposition.of (d : DispositionFields) : Except String CandidateDisposition :=
  match h : d.problem with
  | none => .ok ⟨d, h⟩
  | some message => .error message

theorem CandidateDisposition.of_eq_ok {d : DispositionFields} {r : CandidateDisposition}
    (h : CandidateDisposition.of d = .ok r) : r.toDispositionFields = d := by
  unfold CandidateDisposition.of at h
  split at h
  · cases h
    rfl
  · cases h

/-- **A merge names a target, and nothing else does.** -/
theorem CandidateDisposition.merge_iff (d : CandidateDisposition) :
    d.action = .merge ↔ d.mergeInto.isSome = true := by
  by_contra h
  have hvalid := d.valid
  rw [DispositionFields.problem, if_pos h] at hvalid
  cases hvalid

theorem CandidateDisposition.exists_target {d : CandidateDisposition} (h : d.action = .merge) :
    ∃ t, d.mergeInto = some t :=
  Option.isSome_iff_exists.mp (d.merge_iff.mp h)

end Kroker.Discover
