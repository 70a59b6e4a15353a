import Kroker.Library.Run
import Kroker.Library.Table
import Kroker.Capability.Models

/-!
# The capability identity store

`BoardIdentityStore` of `capability/store.py`.  `apply` is one `BEGIN IMMEDIATE` transaction that is
rolled back where it raises; the two statements of the allocator commit on their own.  Calls of any
number of connections are therefore interleaved call by call, except that an allocator's insertion
and each call of the function it returned are calls of their own (`CapabilityOp`).

Three limits of the arithmetic are kept, since a reused id could hide behind any of them: `int`
refuses a numeral of more than 4300 digits, SQLite refuses a parameter that does not fit 64 bits,
and an addition past 64 bits leaves a floating-point number in the column (`SqlInteger.real`).

What `str.isdigit` and `int` know of the characters beyond ASCII is a parameter (`UnicodeDigits`).
The columns `updated_at` and `created_at`, which nothing reads, are left out.
-/

namespace Kroker

/-! ## 1. Numerals -/

/-- `str.partition("-")[2]`: the text after the first hyphen, empty when there is none. -/
def suffixOf (bcId : String) : String :=
  match bcId.toList.dropWhile (· ≠ '-') with
  | [] => ""
  | _ :: suffix => String.ofList suffix

/-- `f"BC-{n:03d}"`. -/
def bcIdOf (n : ℕ) : String := "BC-" ++ String.ofList ((toString n).toList.leftpad 3 '0')

/-! ## 2. The tables -/

/-- The bound of SQLite's integers. -/
def int64Bound : ℕ := 2 ^ 63

/-- What an `INTEGER` column holds: a 64-bit integer, or the number an overflowing addition left. -/
inductive SqlInteger where
  | int (n : ℕ)
  | real

namespace SqlInteger

/-- `x + 1`. -/
def succ : SqlInteger → SqlInteger
  | .int n => if n + 1 < int64Bound then .int (n + 1) else .real
  | .real => .real

/-- `MAX(x, n)`, for a 64-bit `n`. -/
def max : SqlInteger → ℕ → SqlInteger
  | .int m, n => .int (Max.max m n)
  | .real, _ => .real

/-- The order of the numbers a column holds, against an integer. -/
def Above (x : SqlInteger) (n : ℕ) : Prop :=
  match x with
  | .int m => n < m
  | .real => True

end SqlInteger

structure RegistryRow where
  project : String
  registryVersion : ℤ
  nextOrdinal : SqlInteger

structure CapabilityEvent where
  project : String
  bcId : String
  actor : String
  operation : String
  detail : String

structure CapabilityDb where
  registry : Table RegistryRow.project := ∅
  identities : Table CapabilityIdentity.primaryKey := ∅
  events : List CapabilityEvent := []

inductive CapabilityError where
  | identityStore (message : String)
  | identityConflict (message : String)
  | value (message : String)
  | overflow (message : String)
  | type (message : String)
  | key (message : String)
  deriving DecidableEq

namespace CapabilityDb

/-! ## 3. Reading -/

def load (db : CapabilityDb) (project : String) : List CapabilityIdentity :=
  (db.identities.rows.filter (·.project = project)).insertionSort fun a b => a.bcId ≤ b.bcId

def registryVersion (db : CapabilityDb) (project : String) : ℤ :=
  match db.registry.find? project with
  | some row => row.registryVersion
  | none => 0

def storedIds (db : CapabilityDb) (project : String) : List String :=
  (db.identities.rows.filter (·.project = project)).map (·.bcId)

/-! ## 4. Writing -/

/-- `INSERT INTO capability_registry ... ON CONFLICT(project) DO NOTHING`. -/
def ensureRegistry (db : CapabilityDb) (project : String) : CapabilityDb :=
  { db with
    registry := db.registry.insertNew { project, registryVersion := 0, nextOrdinal := .int 1 } }

/-- The upsert of one row: an existing row keeps its `first_seen_run`. -/
def upsertIdentity (db : CapabilityDb) (row : CapabilityIdentity) : CapabilityDb :=
  { db with
    identities := (db.identities.modify row.primaryKey
      (fun stored => { row with firstSeenRun := stored.firstSeenRun }) fun _ _ => rfl).insertNew
        row }

def recordEvent (db : CapabilityDb) (project : String) (row : CapabilityIdentity)
    (actor operation : String) (detail : Option String) : CapabilityDb :=
  { db with
    events := db.events ++
      [{ project, bcId := row.bcId, actor, operation, detail := detail.getD row.status.value }] }

/-- One round of the loop of `apply`. -/
def applyRow (project actor operation : String) (detail : Option String) (db : CapabilityDb)
    (row : CapabilityIdentity) : Except CapabilityError CapabilityDb :=
  if row.project ≠ project then
    .error (.identityStore ("row " ++ row.bcId ++ " carries project='" ++ row.project ++
      "' but apply() was called for '" ++ project ++ "'"))
  else .ok ((db.upsertIdentity row).recordEvent project row actor operation detail)

/-- One round of the loop of `_max_ordinal`. -/
def maxOrdinalStep (D : UnicodeDigits) (best : ℕ) (row : CapabilityIdentity) :
    Except CapabilityError ℕ :=
  let suffix := suffixOf row.bcId
  if D.isDigits suffix then
    match D.intOf suffix with
    | .ok n => .ok (Max.max best n)
    | .error message => .error (.value message)
  else .ok best

def maxOrdinal (D : UnicodeDigits) (rows : List CapabilityIdentity) : Except CapabilityError ℕ :=
  rows.foldlM (maxOrdinalStep D) 0

/-- `UPDATE capability_registry SET registry_version = ?, next_ordinal = MAX(next_ordinal, ?)`. -/
def advanceRegistry (db : CapabilityDb) (project : String) (version : ℤ) (ordinal : ℕ) :
    Except CapabilityError CapabilityDb :=
  if version < int64Bound ∧ ordinal < int64Bound then
    .ok { db with
      registry := db.registry.modify project
        (fun r => { r with registryVersion := version, nextOrdinal := r.nextOrdinal.max ordinal })
        fun _ h => h }
  else .error (.overflow "Python int too large to convert to SQLite INTEGER")

/-- `apply`: the next tables and the new version, or the error it is rolled back with. -/
def apply (D : UnicodeDigits) (db : CapabilityDb) (project : String)
    (rows : List CapabilityIdentity) (expectedVersion : ℤ) (actor : String := "system")
    (operation : String := "resolve") (detail : Option String := none) :
    Except CapabilityError (CapabilityDb × ℤ) := do
  let current := db.registryVersion project
  if current ≠ expectedVersion then
    throw (.identityConflict ("registry_version for '" ++ project ++ "' is " ++ toString current ++
      ", caller expected " ++ toString expectedVersion ++
      "; reload and re-match (do not replay computed attachments)"))
  let written ← rows.foldlM (applyRow project actor operation detail) (db.ensureRegistry project)
  let best ← maxOrdinal D rows
  let advanced ← written.advanceRegistry project (expectedVersion + 1) (best + 1)
  return (advanced, expectedVersion + 1)

/-! ## 5. Allocating -/

/-- `UPDATE capability_registry SET next_ordinal = next_ordinal + 1`. -/
def advanceOrdinal (db : CapabilityDb) (project : String) : CapabilityDb :=
  { db with
    registry := db.registry.modify project
      (fun r => { r with nextOrdinal := r.nextOrdinal.succ }) fun _ h => h }

/-- `_allocate`: what it answers, and what its statement has committed by then. -/
def allocate (db : CapabilityDb) (project : String) :
    CapabilityDb × Except CapabilityError String :=
  let advanced := db.advanceOrdinal project
  match advanced.registry.find? project with
  | none => (advanced, .error (.type "'NoneType' object is not subscriptable"))
  | some row =>
    match row.nextOrdinal with
    | .int n => (advanced, .ok (bcIdOf (n - 1)))
    | .real => (advanced, .error (.value "Unknown format code 'd' for object of type 'float'"))

end CapabilityDb

/-! ## 6. Runs -/

/-- A call that writes: `allocator`, a call of the function it returned, and `apply`. -/
inductive CapabilityOp where
  | allocator (project : String)
  | allocate (project : String)
  | apply (project : String) (rows : List CapabilityIdentity) (expectedVersion : ℤ)
      (actor operation : String) (detail : Option String)

namespace CapabilityDb

/-- The tables after a call: an `apply` that raises is rolled back. -/
def perform (D : UnicodeDigits) (db : CapabilityDb) : CapabilityOp → CapabilityDb
  | .allocator project => db.ensureRegistry project
  | .allocate project => (db.allocate project).1
  | .apply project rows expectedVersion actor operation detail =>
    match db.apply D project rows expectedVersion actor operation detail with
    | .ok (db', _) => db'
    | .error _ => db

end CapabilityDb

/-- A run of the store: calls of any connections, in the order the database serves them. -/
abbrev CapabilityRun (D : UnicodeDigits) : List (Transition CapabilityDb CapabilityOp) →
    CapabilityDb → Prop :=
  Run {} fun db op => some (db.perform D op)

/-- The id a call of an allocator returned. -/
def allocatedBy (project : String) (t : Transition CapabilityDb CapabilityOp) : Option String :=
  match t.event with
  | .allocate p => if p = project then (t.before.allocate p).2.toOption else none
  | _ => none

end Kroker
