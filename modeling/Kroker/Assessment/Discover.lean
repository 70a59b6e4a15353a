import Kroker.Assessment.Models

/-!
# Discover: dispositions in, boundaries out

`baseline`, `stamp` and `apply` of `assessment/discover/apply.py`.  `stamp` makes one disposition
for each candidate out of what the proposer returned and what verification refused; `apply` makes
the boundaries the lock will identify out of the dispositions.

A `StampedProposal` and an `ApplyResult` satisfy their validators, so where the code would raise
these functions return an error.  `errorText` is how pydantic prints a validation error, given what
the validator said.

The members of a merged boundary are a sorted set.  Python leaves the order of members that compare
equal (a line 0 and no line) to its hash; here the first comes first.
-/

namespace Kroker.Discover

/-! ## The baseline -/

/-- The row code computes for a candidate, read top to bottom. -/
def baseline (context : CandidateContext) : CandidateDisposition :=
  if context.guardrailOnly = true then
    { candidateId := context.candidateId
      source := .baseline
      action := .deScope
      rule := "baseline_guardrail"
      valid := rfl }
  else if context.possibleDuplicateOf ≠ [] then
    { candidateId := context.candidateId
      source := .baseline
      action := .flag
      rule := "baseline_possible_duplicate"
      valid := rfl }
  else
    { candidateId := context.candidateId
      source := .baseline
      action := .confirm
      rule := "baseline_confirm"
      valid := rfl }

def baselineDispositions (context : DiscoverContext) : List CandidateDisposition :=
  context.candidates.map baseline

/-! ## The stamped proposal -/

def droppedCount (dispositions : List CandidateDisposition) : ℕ :=
  dispositions.countP (·.source = .dropped)

/-- A tuple of strings, as Python prints it. -/
def reprTuple : List String → String
  | [item] => "(" ++ quoted item ++ ",)"
  | items => "(" ++ joinWith ", " (items.map quoted) ++ ")"

/-- Every candidate's verified disposition, plus what verification refused. -/
structure StampedProposal where
  dispositions : List CandidateDisposition
  unknownCandidateIds : List String
  dropped : ℕ
  dropped_is_derived : dropped = droppedCount dispositions
  one_row_per_candidate : (dispositions.map (·.candidateId)).Pairwise (· < ·)
  unknown_ids_are_sorted : unknownCandidateIds.Pairwise (· < ·)

/-- The constructor, with its three validators. -/
def StampedProposal.of (dispositions : List CandidateDisposition) (unknown : List String)
    (dropped : ℕ) : Except String StampedProposal :=
  if hdropped : dropped = droppedCount dispositions then
    if hrows : (dispositions.map (·.candidateId)).Pairwise (· < ·) then
      if hunknown : unknown.Pairwise (· < ·) then
        .ok ⟨dispositions, unknown, dropped, hdropped, hrows, hunknown⟩
      else .error ("unknown_candidate_ids " ++ reprTuple unknown ++ " are not sorted and deduped")
    else
      .error ("candidate ids " ++ Corrections.reprList (dispositions.map (·.candidateId)) ++
        " are not one-per-candidate and sorted -- DD8 requires exactly one disposition per " ++
        "candidate, and discovery order must not reach the artifact")
  else
    .error ("dropped=" ++ toString dropped ++ " but " ++ toString (droppedCount dispositions) ++
      " disposition(s) carry source=dropped -- counts are derived from rows, never assigned")

/-- `_dropped`: a refused verdict becomes a flag for its candidate, never the baseline. -/
def droppedDisposition (candidateId rule detail : String) : CandidateDisposition where
  candidateId := candidateId
  action := .flag
  source := .dropped
  rule := rule
  rationale := detail
  valid := rfl

/-- The loop of `_split_refusal` over the parts; `seen` holds the values of those before. -/
def partsRefusal (own : List String) : List String → List SplitPartition → String
  | _, [] => ""
  | seen, part :: parts =>
    if part.memberValues = [] ∨ ¬part.memberValues ⊆ own then "dropped_split_members"
    else if ∃ v ∈ part.memberValues, v ∈ seen then "dropped_split_overlap"
    else partsRefusal own (seen ++ part.memberValues) parts

/-- The rule naming why a split is refused, or nothing when it stands. -/
def splitRefusal (context : CandidateContext) (proposed : ProposedDisposition) : String :=
  if proposed.partitions.length < 2 then "dropped_split_partitions"
  else if ¬(proposed.partitions.map (·.name)).Nodup then "dropped_split_names"
  else partsRefusal (context.members.map (·.value)) [] proposed.partitions

def mergeRefusal (context : CandidateContext) (proposed : ProposedDisposition)
    (known : Table CandidateContext.candidateId) : String :=
  match proposed.mergeInto with
  | none => "dropped_merge_target"
  | some target =>
    if target = context.candidateId then "dropped_merge_self"
    else if known.find? target = none then "dropped_merge_target"
    else ""

/-- How many verdicts on one candidate the proposer returned, a refused one included. -/
def totalEmitted (rows : List ProposedDisposition) (refusal : Option (String × String)) : ℕ :=
  rows.length + (if refusal.isSome then 1 else 0)

def stampOne (errorText : String → String) (context : CandidateContext)
    (rows : List ProposedDisposition) (known : Table CandidateContext.candidateId)
    (refusal : Option (String × String)) : CandidateDisposition :=
  if 1 < totalEmitted rows refusal then
    droppedDisposition context.candidateId "dropped_duplicated"
      ("the proposer returned " ++ toString (totalEmitted rows refusal) ++
        " dispositions for this candidate; DD8 requires exactly one")
  else
    match refusal, rows with
    | some (rule, detail), _ => droppedDisposition context.candidateId rule detail
    | none, [] =>
      droppedDisposition context.candidateId "dropped_missing"
        "the proposer returned no disposition for this candidate"
    | none, proposed :: _ =>
      if proposed.action = .split ∧ splitRefusal context proposed ≠ "" then
        droppedDisposition context.candidateId (splitRefusal context proposed)
          "the split does not partition this candidate's own members"
      else if proposed.action = .merge ∧ mergeRefusal context proposed known ≠ "" then
        droppedDisposition context.candidateId (mergeRefusal context proposed known)
          ("merge_into=" ++ reprOption proposed.mergeInto ++
            " does not name another candidate in this context")
      else
        match CandidateDisposition.of
            { candidateId := context.candidateId
              action := proposed.action
              source := .proposer
              rule := "proposer"
              rationale := proposed.rationale
              mergeInto := proposed.mergeInto
              partitions := proposed.partitions
              evidence := proposed.evidence
              quote := proposed.quote } with
        | .ok d => d
        | .error message =>
          droppedDisposition context.candidateId "dropped_malformed"
            (String.ofList (("the disposition did not validate: " ++
              errorText message).toList.take 300))

/-- `by_candidate.get(candidate_id, ())`: the rows for one candidate, in order. -/
def rowsFor (rows : List ProposedDisposition) (candidateId : String) : List ProposedDisposition :=
  rows.filter (·.candidateId = candidateId)

def unknownIds (context : DiscoverContext) (rows : List ProposedDisposition)
    (refusals : Dict (String × String)) : List String :=
  sortedSet ((rows.map (·.candidateId) ++ refusals.keys).filter
    fun id => context.byId.find? id = none)

def firstPass (errorText : String → String) (context : DiscoverContext)
    (rows : List ProposedDisposition) (refusals : Dict (String × String)) :
    List CandidateDisposition :=
  context.candidates.map fun c =>
    stampOne errorText c (rowsFor rows c.candidateId) context.byId refusals[c.candidateId]?

def confirmed (dispositions : List CandidateDisposition) : List String :=
  (dispositions.filter (·.action = .confirm)).map (·.candidateId)

def demote (first : List CandidateDisposition) (d : CandidateDisposition) : CandidateDisposition :=
  if d.action = .merge ∧ ¬∃ t ∈ confirmed first, d.mergeInto = some t then
    droppedDisposition d.candidateId "dropped_merge_target_not_confirmed"
      ("merge_into=" ++ reprOption d.mergeInto ++
        " was not itself confirmed, so the merge would fold these members into nothing")
  else d

def secondPass (first : List CandidateDisposition) : List CandidateDisposition :=
  first.map (demote first)

/-- `stamp`.  No proposal is the proposer that was not there, and gives the baseline. -/
def stamp (errorText : String → String) (context : DiscoverContext)
    (proposal : Option (List ProposedDisposition)) (refusals : Dict (String × String)) :
    Except String StampedProposal :=
  match proposal with
  | none => StampedProposal.of (baselineDispositions context) [] 0
  | some rows =>
    let final := secondPass (firstPass errorText context rows refusals)
    StampedProposal.of final (unknownIds context rows refusals) (droppedCount final)

/-! ## The boundaries -/

def splitReason : String :=
  "this boundary is one partition of a split candidate, and the metric was computed over the " ++
    "whole candidate"

def mergeReason : String :=
  "this boundary absorbed another candidate's members, and the metric was computed before the merge"

/-- A boundary that survived disposition, before it has a `bc_id`. -/
structure LockedCandidate where
  localKey : String
  name : String
  confidence : Confidence
  members : List CandidateMember
  memberPaths : List String
  cohesion : Measurement
  coupling : Measurement
  disposition : CandidateDisposition
  security : List SecurityObservation := []
  sensitivity : List SensitivityRecord := []
  testability : List TestabilityFinding := []
  coverage : List CoverageRecord := []
  deriving DecidableEq

structure ApplyResult where
  locked : List LockedCandidate
  stamped : StampedProposal
  local_keys_are_unique_and_sorted : (locked.map (·.localKey)).Pairwise (· < ·)

/-- The constructor. -/
def ApplyResult.of (locked : List LockedCandidate) (stamped : StampedProposal) :
    Except String ApplyResult :=
  if h : (locked.map (·.localKey)).Pairwise (· < ·) then .ok ⟨locked, stamped, h⟩
  else
    .error ("local_keys " ++ Corrections.reprList (locked.map (·.localKey)) ++
      " are not unique and sorted -- resolve() raises on a duplicate local_key, and discovery " ++
      "order must not reach the artifact")

def memberPathsOf (members : List CandidateMember) : List String :=
  sortedSet ((members.map (·.path)).filter (· ≠ ""))

/-- `{key(x): x for x in chain(...)}`, and its values sorted by their keys. -/
def unionBy {α κ : Type} [LinearOrder κ] (key : α → κ) (groups : List (List α)) : List α :=
  sortedBy key (Table.ofRows key groups.flatten).rows

def securityKey (s : SecurityObservation) : String ×ₗ String ×ₗ String ×ₗ String :=
  toLex (s.signal.value, toLex (s.rule, toLex (s.path, s.key)))

def sensitivityKey (s : SensitivityRecord) : String ×ₗ String :=
  toLex (s.classification.value, s.entity)

def testabilityKey (t : TestabilityFinding) : String ×ₗ String ×ₗ String :=
  toLex (t.pattern, toLex (t.path, t.key))

def lockedPart (context : CandidateContext) (d : CandidateDisposition) (part : SplitPartition) :
    LockedCandidate :=
  let members := context.members.filter (·.value ∈ part.memberValues)
  { localKey := context.candidateId ++ "#" ++ part.name
    name := part.name
    confidence := context.confidence
    members := members
    memberPaths := memberPathsOf members
    cohesion := .notCollected splitReason
    coupling := .notCollected splitReason
    disposition := d
    security := context.security
    sensitivity := context.sensitivity
    testability := context.testability
    coverage := context.coverage }

/-- A confirmed candidate with what it absorbed. -/
def lockedWhole (context : CandidateContext) (d : CandidateDisposition)
    (taken : List CandidateContext) : LockedCandidate :=
  let members := sortedBy CandidateMember.sortKey
    (context.members ++ taken.flatMap (·.members)).dedup
  let whole : LockedCandidate :=
    { localKey := context.candidateId
      name := context.name
      confidence := context.confidence
      members := members
      memberPaths := memberPathsOf members
      cohesion := context.cohesion
      coupling := context.coupling
      disposition := d
      security := context.security
      sensitivity := context.sensitivity
      testability := context.testability
      coverage := context.coverage }
  if taken = [] then whole
  else
    { whole with
      cohesion := .notCollected mergeReason
      coupling := .notCollected mergeReason
      security := unionBy securityKey ((context :: taken).map (·.security))
      sensitivity := unionBy sensitivityKey ((context :: taken).map (·.sensitivity))
      testability := unionBy testabilityKey ((context :: taken).map (·.testability))
      coverage := unionBy CoverageRecord.path ((context :: taken).map (·.coverage)) }

/-- `d[key]`. -/
def lookup {α : Type} {key : α → String} (table : Table key) (k : String) : Except String α :=
  match table.find? k with
  | some a => .ok a
  | none => .error (quoted k)

def merges (stamped : StampedProposal) : List (String × String) :=
  stamped.dispositions.filterMap fun d =>
    if d.action = .merge then d.mergeInto.map fun target => (target, d.candidateId) else none

/-- `absorbed`: each target with a candidate it absorbs, in the order of the dispositions. -/
def absorbed (context : DiscoverContext) (stamped : StampedProposal) :
    Except String (List (String × CandidateContext)) :=
  (merges stamped).mapM fun m => (lookup context.byId m.2).map fun c => (m.1, c)

/-- `absorbed.get(candidate_id, [])`. -/
def takenBy (absorbed : List (String × CandidateContext)) (candidateId : String) :
    List CandidateContext :=
  (absorbed.filter (·.1 = candidateId)).map (·.2)

def boundaries (context : CandidateContext) (d : CandidateDisposition)
    (taken : List CandidateContext) : List LockedCandidate :=
  if d.action ∈ rejectingActions ∨ d.action = .merge then []
  else if d.action = .split then d.partitions.map (lockedPart context d)
  else [lockedWhole context d taken]

def apply (context : DiscoverContext) (stamped : StampedProposal) : Except String ApplyResult := do
  let dispositionOf : Table fun d : CandidateDisposition => d.candidateId :=
    Table.ofRows _ stamped.dispositions
  let absorbedRows ← absorbed context stamped
  let locked ← context.candidates.mapM fun c =>
    (lookup dispositionOf c.candidateId).map fun d =>
      boundaries c d (takenBy absorbedRows c.candidateId)
  ApplyResult.of (sortedBy (·.localKey) locked.flatten) stamped

end Kroker.Discover
