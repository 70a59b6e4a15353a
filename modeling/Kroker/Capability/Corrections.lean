import Kroker.Capability.Store

/-!
# Audited identity corrections

`apply_correction` of `capability/corrections.py`: a person merges two identities, reattaches one to
another, or splits one, which mints an id.  It reads the version and the rows, may call the
allocator, and applies the changed rows at the version it read, each a call of its own: between them
the store may serve others, and an `apply` at a version that has moved is refused.

`applyCorrection` is the correction with no other caller between.
-/

namespace Kroker

inductive CorrectionOp where
  | merge
  | split
  | reattach
  deriving DecidableEq

def CorrectionOp.value : CorrectionOp → String
  | .merge => "merge"
  | .split => "split"
  | .reattach => "reattach"

structure IdentityCorrection where
  operation : CorrectionOp
  approvedBy : String
  reason : String
  sourceBcId : String
  targetBcId : Option String := none
  partition : List String := []

namespace Corrections

/-- `rows.get(bc_id)`. -/
def rowOf (rows : List CapabilityIdentity) (bcId : String) : Option CapabilityIdentity :=
  rows.find? (·.bcId = bcId)

/-- The loop of `_live_head`, with `seen`; it visits each row once at most, so the number of rows
bounds its rounds. -/
def liveHeadLoop (rows : List CapabilityIdentity) (bcId : String) :
    ℕ → List String → String → String
  | 0, _, _ => bcId
  | rounds + 1, seen, cur =>
    if cur ∈ seen then bcId
    else
      match rowOf rows cur with
      | none => bcId
      | some row =>
        if row.status = .merged then
          match row.mergedInto with
          | some next => if next = "" then cur else liveHeadLoop rows bcId rounds (cur :: seen) next
          | none => cur
        else cur

def liveHead (bcId : String) (rows : List CapabilityIdentity) : String :=
  liveHeadLoop rows bcId (rows.length + 1) [] bcId

def absorbedRow (source target : CapabilityIdentity) (h : source.bcId ≠ target.bcId) :
    CapabilityIdentity :=
  { source with
    status := .merged
    retiredReason := none
    mergedInto := some target.bcId
    retiredReason_isSome := isSome_iff_of_merged
    mergedInto_isSome := fun _ => rfl
    mergedInto_ne := fun heq => h (Option.some.inj heq).symm }

/-- `_absorb`: the rows to write, none when they are in place already. -/
def absorb (source : CapabilityIdentity) (correction : IdentityCorrection)
    (rows : List CapabilityIdentity) : Except CapabilityError (Option (List CapabilityIdentity)) :=
  match correction.targetBcId with
  | none => .error (.value ("operation=" ++ correction.operation.value ++
      " requires target_bc_id"))
  | some targetBcId =>
    match rowOf rows targetBcId with
    | none => .error (.value ("unknown capability '" ++ targetBcId ++ "'"))
    | some target =>
      if h : source.bcId = target.bcId then
        .error (.value ("cannot " ++ correction.operation.value ++ " '" ++ source.bcId ++
          "' into itself"))
      else if target.status ≠ .active then
        let head := liveHead target.bcId rows
        .error (.value ("cannot " ++ correction.operation.value ++ " into '" ++ target.bcId ++
          "': it is " ++ target.status.value ++
          if head ≠ target.bcId then
            " (live head is '" ++ head ++ "'; re-issue with --into " ++ head ++ ")"
          else ""))
      else if source.status = .merged ∧ source.mergedInto = some target.bcId then .ok none
      else .ok (some [absorbedRow source target h, { target with fingerprint := source.fingerprint }])

def kept (source : CapabilityIdentity) (moving : List String) (t : SignalTier) : List String :=
  (source.fingerprint.tiers t).filter (· ∉ moving)

def taken (source : CapabilityIdentity) (moving : List String) (t : SignalTier) : List String :=
  (source.fingerprint.tiers t).filter (· ∈ moving)

/-- A list of strings, as Python prints it. -/
def reprList (items : List String) : String := "[" ++ joinWith ", " (items.map quoted) ++ "]"

/-- What `_split` checks before it mints an id. -/
def checkSplit (source : CapabilityIdentity) (correction : IdentityCorrection) :
    Except CapabilityError Unit :=
  let moving := correction.partition
  let unmatched := (sortedSet moving).filter
    (· ∉ SignalTier.all.flatMap (taken source moving))
  if moving = [] then .error (.value "operation=split requires a non-empty partition")
  else if unmatched ≠ [] then
    .error (.value ("partition members not present in " ++ source.bcId ++ ": " ++
      reprList unmatched))
  else if SignalTier.all.all fun t => (kept source moving t).isEmpty then
    .error (.value ("partition " ++ reprList (sortedSet moving) ++ " moves every member of " ++
      source.bcId ++ "; splitting it all out would leave an empty husk"))
  else .ok ()

/-- The rows `_split` returns for the id it minted. -/
def splitRows (source : CapabilityIdentity) (correction : IdentityCorrection) (newId : String) :
    Except CapabilityError (List CapabilityIdentity) :=
  let collected := source.fingerprint.collected
  if h : source.bcId = newId then
    .error (.value (newId ++ " cannot be derived from itself"))
  else .ok
    [{ source with fingerprint := .of (kept source correction.partition) collected },
     { bcId := newId, project := source.project, firstSeenRun := source.firstSeenRun,
       derivedFrom := some source.bcId,
       derivedFrom_ne := fun heq => h (Option.some.inj heq),
       fingerprint := .of (taken source correction.partition) collected }]

end Corrections

namespace CapabilityDb

open Corrections

/-- `store.allocator(project)()`. -/
def allocateOnce (db : CapabilityDb) (project : String) :
    CapabilityDb × Except CapabilityError String :=
  (db.ensureRegistry project).allocate project

/-- The rows a correction changes, and the tables once it may have minted an id. -/
def correctedRows (db : CapabilityDb) (project : String) (correction : IdentityCorrection) :
    CapabilityDb × Except CapabilityError (Option (List CapabilityIdentity)) :=
  let rows := db.load project
  match rowOf rows correction.sourceBcId with
  | none => (db, .error (.value ("unknown capability '" ++ correction.sourceBcId ++
      "' in project '" ++ project ++ "'")))
  | some source =>
    if correction.operation = .split then
      match checkSplit source correction with
      | .error e => (db.ensureRegistry project, .error e)
      | .ok () =>
        let (db', answer) := db.allocateOnce project
        (db', do return some (← splitRows source correction (← answer)))
    else (db, absorb source correction rows)

/-- `apply_correction`, with no other caller between its calls of the store. -/
def applyCorrection (D : UnicodeDigits) (db : CapabilityDb) (project : String)
    (correction : IdentityCorrection) : CapabilityDb × Except CapabilityError ℤ :=
  let version := db.registryVersion project
  match db.correctedRows project correction with
  | (db', .error e) => (db', .error e)
  | (db', .ok none) => (db', .ok version)
  | (db', .ok (some changed)) =>
    match db'.apply D project changed version correction.approvedBy correction.operation.value
        (some correction.reason) with
    | .ok (db'', version') => (db'', .ok version')
    | .error e => (db', .error e)

end CapabilityDb

end Kroker
