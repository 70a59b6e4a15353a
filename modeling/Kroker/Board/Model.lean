import Kroker.Core.Text
import Kroker.Library.Table

/-!
# The board's entities

The rows of `board/models.py` and `board/schema.py`, the task state machine of
`board/transitions.py`, and the claim-check store the bodies of artifacts live in.

Rows are never deleted, so an `AUTOINCREMENT` id is one more than the number of rows of its table;
an event's id is its position in the log, and is not kept.  Times are in microseconds, and one call
reads the clock once.
-/

namespace Kroker

inductive ArtifactStatus where
  | proposed
  | current
  | superseded
  | rejected
  deriving DecidableEq

def ArtifactStatus.value : ArtifactStatus → String
  | .proposed => "proposed"
  | .current => "current"
  | .superseded => "superseded"
  | .rejected => "rejected"

inductive TaskStatus where
  | pending
  | inProgress
  | done
  | failed
  | blocked
  | quarantined
  deriving DecidableEq

def TaskStatus.value : TaskStatus → String
  | .pending => "pending"
  | .inProgress => "in_progress"
  | .done => "done"
  | .failed => "failed"
  | .blocked => "blocked"
  | .quarantined => "quarantined"

def TaskStatus.all : List TaskStatus :=
  [.pending, .inProgress, .done, .failed, .blocked, .quarantined]

/-- Who moved a status: the workflow's activities, or an agent. -/
inductive Authority where
  | authoritative
  | observational
  deriving DecidableEq

abbrev Bytes := List UInt8

structure ArtifactRef where
  kind : String
  uri : String
  sha256 : String

structure ArtifactVersion where
  id : ℕ
  project : String
  key : String
  n : ℕ
  runId : String
  sha256 : String
  uri : String
  supersedes : Option ℕ := none
  createdAt : ℤ

structure BoardArtifact where
  project : String
  key : String
  status : ArtifactStatus
  currentVersion : Option ℕ := none

def BoardArtifact.primaryKey (a : BoardArtifact) : String × String := (a.project, a.key)

structure TaskKey where
  project : String
  planVersion : ℤ
  taskId : String
  deriving DecidableEq

structure BoardTask where
  project : String
  planVersion : ℤ
  taskId : String
  runId : String
  status : TaskStatus
  authoritativeStatus : TaskStatus
  rowVersion : ℕ
  fixAttempts : ℤ := 0
  error : Option String := none
  branch : Option String := none
  updatedAt : ℤ
  deriving DecidableEq

def BoardTask.primaryKey (t : BoardTask) : TaskKey := ⟨t.project, t.planVersion, t.taskId⟩

structure TaskEvidence where
  id : ℕ
  project : String
  planVersion : ℤ
  taskId : String
  runId : String
  kind : String
  sha256 : String
  uri : String
  createdAt : ℤ

structure BoardEvent where
  project : String
  subject : String
  actor : String
  authority : Authority
  fromStatus : Option String
  toStatus : Option String
  recordedAt : ℤ
  detail : String := ""

/-- The fields of a plan's task that the board reads. -/
structure DevTask where
  id : String
  title : String

def TaskKey.subject (k : TaskKey) : String := "task:" ++ toString k.planVersion ++ ":" ++ k.taskId

def artifactSubject (key : String) : String := "artifact:" ++ key

/-- The board's database, and the files of its claim-check store by their URI. -/
structure Board where
  projects : Dict String := ∅
  artifacts : Table BoardArtifact.primaryKey := ∅
  versions : List ArtifactVersion := []
  tasks : Table BoardTask.primaryKey := ∅
  evidence : List TaskEvidence := []
  events : List BoardEvent := []
  blobs : Dict Bytes := ∅

inductive BoardError where
  | notFound (detail : String)
  | conflict (detail : String)
  | invalidTransition (detail : String)
  | value (detail : String)
  deriving DecidableEq

/-! ## The task state machine -/

/-- `TASK_TRANSITIONS`. -/
def TaskStatus.transitions : TaskStatus → List TaskStatus
  | .pending => [.inProgress, .blocked]
  | .inProgress => [.done, .failed, .blocked, .quarantined]
  | .blocked => [.pending, .inProgress, .failed, .quarantined]
  | .failed => [.inProgress, .done]
  | .quarantined => [.inProgress]
  | .done => [.inProgress]

def checkTaskTransition (frm dest : TaskStatus) : Except BoardError Unit :=
  if dest ∈ frm.transitions then .ok ()
  else .error (.invalidTransition
    (frm.value ++ " -> " ++ dest.value ++ " is not a permitted task transition"))

theorem checkTaskTransition_eq_ok {frm dest : TaskStatus} :
    checkTaskTransition frm dest = .ok () ↔ dest ∈ frm.transitions := by
  unfold checkTaskTransition
  split <;> simp_all

/-! ## Subjects -/

theorem TaskKey.subject_injective {j k : TaskKey} (hproject : j.project = k.project)
    (h : j.subject = k.subject) : j = k := by
  obtain ⟨project, version, taskId⟩ := j
  obtain ⟨project', version', taskId'⟩ := k
  have hlist := congrArg String.toList h
  simp only [subject, String.toList_append, List.append_assoc, List.append_cancel_left_eq] at hlist
  obtain ⟨hversion, hid⟩ := append_cons_inj (notMem_toString_int (by decide) (by decide) version)
    (notMem_toString_int (by decide) (by decide) version') hlist
  obtain rfl : project = project' := hproject
  obtain rfl := toString_int_injective (String.toList_injective hversion)
  obtain rfl := String.toList_injective hid
  rfl

theorem TaskKey.subject_ne_artifact (k : TaskKey) (key : String) :
    artifactSubject key ≠ k.subject := by
  intro h
  have hlist := congrArg (fun s => s.toList.head?) h
  simp only [artifactSubject, subject, String.toList_append, List.append_assoc] at hlist
  rw [List.head?_append_of_ne_nil _ (by decide), List.head?_append_of_ne_nil _ (by decide)] at hlist
  exact absurd hlist (by decide)

end Kroker
