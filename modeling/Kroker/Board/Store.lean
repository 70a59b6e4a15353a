import Kroker.Board.Model
import Mathlib

/-!
# The board store

`BoardStore` of `board/store.py`, method by method.  A write runs in one `BEGIN IMMEDIATE`
transaction: where the code raises, the transaction is rolled back, so a write is a function to the
next board or to an error, and an error leaves the board as it was (`Board.run`).

The two task writes read the row they return after their transaction has ended; `authoritativeTx`
and `observationalTx` are the transactions alone.

The claim-check store writes the bytes of an artifact to the path of its run, kind and name.  The
digest and the path's URI are parameters (`BlobStore`): nothing here depends on which functions they
are.
-/

namespace Kroker

/-- The digest of a blob, and the URI of the path `root/run_id/subdir/name`. -/
structure BlobStore where
  sha256 : Bytes → String
  locate : String → String → String → String

namespace Board

def put (S : BlobStore) (b : Board) (kind subdir runId name : String) (data : Bytes) :
    Board × ArtifactRef :=
  let uri := S.locate runId subdir name
  ({ b with blobs := b.blobs.insert uri data }, { kind, uri, sha256 := S.sha256 data })

def ensureProject (b : Board) (key repo : String) : Board :=
  if key ∈ b.projects then b else { b with projects := b.projects.insert key repo }

def getProject (b : Board) (project : String) : Except BoardError (String × String) :=
  match b.projects[project]? with
  | some repo => .ok (project, repo)
  | none => .error (.notFound ("no project " ++ quoted project))

/-! ## Artifacts -/

/-- The version a run has already published with a digest: the first of them. -/
def priorVersion (b : Board) (project key runId sha : String) : Option ArtifactVersion :=
  b.versions.find? fun v =>
    v.project = project && v.key = key && v.runId = runId && v.sha256 = sha

def versionsOf (b : Board) (project key : String) : List ArtifactVersion :=
  b.versions.filter fun v => v.project = project && v.key = key

/-- `SELECT COALESCE(MAX(n),0)`. -/
def maxVersion (b : Board) (project key : String) : ℕ :=
  ((b.versionsOf project key).map (·.n)).foldl max 0

def currentVersion (b : Board) (project key : String) : Option ℕ :=
  (b.artifacts.find? (project, key)).bind (·.currentVersion)

/-- The artifact's row after a publication. -/
def publishPointer (t : Table BoardArtifact.primaryKey) (project key : String)
    (status : ArtifactStatus) (versionId : ℕ) : Table BoardArtifact.primaryKey :=
  if status = .current then
    (t.modify (project, key) (fun a =>
      { a with currentVersion := some versionId, status := .current }) fun _ h => h).insertNew
      { project, key, currentVersion := some versionId, status := .current }
  else t.insertNew { project, key, currentVersion := none, status }

def publishArtifactVersion (S : BlobStore) (b : Board) (project key runId : String)
    (content : Bytes) (status : ArtifactStatus) (actor : String) (now : ℤ) :
    Board × ArtifactRef × ℕ :=
  match b.priorVersion project key runId (S.sha256 content) with
  | some prior =>
    (b, { kind := "board_artifact", uri := prior.uri, sha256 := prior.sha256 }, prior.id)
  | none =>
    let n := b.maxVersion project key + 1
    let (b', ref) := b.put S "board_artifact" "artifacts" runId
      (key ++ "-v" ++ toString n ++ ".json") content
    let versionId := b.versions.length + 1
    let version : ArtifactVersion :=
      { id := versionId, project, key, n, runId, sha256 := ref.sha256, uri := ref.uri,
        supersedes := if status = .current then b.currentVersion project key else none,
        createdAt := now }
    let event : BoardEvent :=
      { project, subject := artifactSubject key, actor, authority := .authoritative,
        fromStatus := none, toStatus := some status.value, recordedAt := now,
        detail := "v" ++ toString n ++ " sha256=" ++
          String.ofList (ref.sha256.toList.take 12) }
    ({ b' with
        versions := b.versions ++ [version]
        artifacts := publishPointer b.artifacts project key status versionId
        events := b.events ++ [event] }, ref, versionId)

def getArtifact (b : Board) (project key : String) : Except BoardError BoardArtifact :=
  match b.artifacts.find? (project, key) with
  | some a => .ok a
  | none => .error (.notFound ("no artifact " ++ quoted key ++ " in project " ++ quoted project))

/-! ## Tasks -/

def taskEvent (k : TaskKey) (actor : String) (authority : Authority) (frm : Option TaskStatus)
    (dest : TaskStatus) (now : ℤ) (detail : String := "") : BoardEvent :=
  { project := k.project, subject := k.subject, actor, authority,
    fromStatus := frm.map TaskStatus.value, toStatus := some dest.value, recordedAt := now, detail }

/-- A freshly created task. -/
def newTask (k : TaskKey) (runId : String) (now : ℤ) : BoardTask :=
  { project := k.project, planVersion := k.planVersion, taskId := k.taskId, runId,
    status := .pending, authoritativeStatus := .pending, rowVersion := 1, updatedAt := now }

/-- One round of the loop of `sync_plan_tasks`. -/
def syncTask (project : String) (planVersion : ℤ) (runId actor : String) (now : ℤ)
    (acc : Board × ℕ) (t : DevTask) : Board × ℕ :=
  let k : TaskKey := ⟨project, planVersion, t.id⟩
  match acc.1.tasks.find? k with
  | some _ => acc
  | none =>
    ({ acc.1 with
        tasks := acc.1.tasks.insertNew (newTask k runId now)
        events := acc.1.events ++
          [taskEvent k actor .authoritative none .pending now t.title] }, acc.2 + 1)

def syncPlanTasks (b : Board) (project : String) (planVersion : ℤ) (runId : String)
    (tasks : List DevTask) (actor : String) (now : ℤ) : Board × ℕ :=
  tasks.foldl (syncTask project planVersion runId actor now) (b, 0)

def getTask (b : Board) (k : TaskKey) : Except BoardError BoardTask :=
  match b.tasks.find? k with
  | some t => .ok t
  | none => .error (.notFound ("no task " ++ quoted k.taskId ++ " in plan " ++
      toString k.planVersion ++ " of " ++ quoted k.project))

/-- What a workflow write sets besides the status. -/
structure TaskUpdate where
  fixAttempts : Option ℤ := none
  error : Option String := none
  branch : Option String := none

/-- The row after a workflow write. -/
def authoritativeRow (t : BoardTask) (status : TaskStatus) (u : TaskUpdate) (now : ℤ) : BoardTask :=
  { t with
    status, authoritativeStatus := status, rowVersion := t.rowVersion + 1,
    fixAttempts := u.fixAttempts.getD t.fixAttempts, error := u.error.or t.error,
    branch := u.branch.or t.branch, updatedAt := now }

/-- The row after an agent write. -/
def observationalRow (t : BoardTask) (status : TaskStatus) (now : ℤ) : BoardTask :=
  { t with status, rowVersion := t.rowVersion + 1, updatedAt := now }

/-- The transaction of `set_task_authoritative`; with the row read in it when that row already has
the status asked for. -/
def authoritativeTx (b : Board) (k : TaskKey) (status : TaskStatus) (actor : String)
    (u : TaskUpdate) (now : ℤ) : Except BoardError (Board × Option BoardTask) := do
  let t ← b.getTask k
  if t.authoritativeStatus = status then
    return (b, some t)
  checkTaskTransition t.authoritativeStatus status
  return ({ b with
    tasks := b.tasks.modify k (authoritativeRow · status u now) fun _ h => h
    events := b.events ++
      [taskEvent k actor .authoritative (some t.authoritativeStatus) status now] }, none)

/-- The transaction of `set_task_observational`. -/
def observationalTx (b : Board) (k : TaskKey) (status : TaskStatus) (actor : String)
    (expectRowVersion : ℤ) (detail : String) (now : ℤ) : Except BoardError Board := do
  let t ← b.getTask k
  if (t.rowVersion : ℤ) ≠ expectRowVersion then
    throw (.conflict ("row_version " ++ toString expectRowVersion ++ " is stale; current is " ++
      toString t.rowVersion))
  checkTaskTransition t.status status
  return { b with
    tasks := b.tasks.modify k (observationalRow · status now) fun _ h => h
    events := b.events ++ [taskEvent k actor .observational (some t.status) status now detail] }

def setTaskAuthoritative (b : Board) (k : TaskKey) (status : TaskStatus) (actor : String)
    (u : TaskUpdate) (now : ℤ) : Except BoardError (Board × BoardTask) := do
  let (b', early) ← b.authoritativeTx k status actor u now
  match early with
  | some t => return (b', t)
  | none => return (b', ← b'.getTask k)

def setTaskObservational (b : Board) (k : TaskKey) (status : TaskStatus) (actor : String)
    (expectRowVersion : ℤ) (detail : String) (now : ℤ) : Except BoardError (Board × BoardTask) := do
  let b' ← b.observationalTx k status actor expectRowVersion detail now
  return (b', ← b'.getTask k)

/-! ## Evidence -/

/-- `EVIDENCE_KINDS`, sorted. -/
def evidenceKinds : List String := ["deep_review", "qa", "review"]

def priorEvidence (b : Board) (k : TaskKey) (runId kind sha : String) : Option TaskEvidence :=
  b.evidence.find? fun e => e.project = k.project && e.planVersion = k.planVersion &&
    e.taskId = k.taskId && e.runId = runId && e.kind = kind && e.sha256 = sha

def attachTaskEvidence (S : BlobStore) (b : Board) (k : TaskKey) (runId kind : String)
    (content : Bytes) (now : ℤ) : Except BoardError (Board × ArtifactRef) :=
  if kind ∉ evidenceKinds then
    .error (.value ("evidence kind " ++ quoted kind ++ " not in [" ++
      joinWith ", " (evidenceKinds.map quoted) ++ "]"))
  else do
    let _ ← b.getTask k
    match b.priorEvidence k runId kind (S.sha256 content) with
    | some prior =>
      return (b, { kind := "board_evidence", uri := prior.uri, sha256 := prior.sha256 })
    | none =>
      let (b', ref) := b.put S "board_evidence" "evidence" runId
        (k.taskId ++ "-" ++ kind ++ ".json") content
      return ({ b' with
        evidence := b.evidence ++
          [{ id := b.evidence.length + 1, project := k.project, planVersion := k.planVersion,
             taskId := k.taskId, runId, kind, sha256 := ref.sha256, uri := ref.uri,
             createdAt := now }] }, ref)

/-! ## Statistics -/

structure BoardStats where
  project : String
  tasksByStatus : Dict ℕ
  totalFixAttempts : ℤ
  tasksWithError : ℕ
  divergedTasks : ℕ
  eventCount : ℕ

def stats (b : Board) (project : String) : BoardStats :=
  let rows := b.tasks.rows.filter (·.project = project)
  { project
    tasksByStatus := Dict.ofItems (TaskStatus.all.filterMap fun s =>
      let n := rows.countP (·.authoritativeStatus = s)
      if n = 0 then none else some (s.value, n))
    totalFixAttempts := (rows.map (·.fixAttempts)).sum
    tasksWithError := rows.countP (·.error.isSome)
    divergedTasks := rows.countP fun t => t.status ≠ t.authoritativeStatus
    eventCount := b.events.countP (·.project = project) }

end Board

/-! ## Runs -/

/-- A call of a method that writes. -/
inductive BoardOp where
  | ensureProject (key repo : String)
  | publish (project key runId : String) (content : Bytes) (status : ArtifactStatus)
      (actor : String) (now : ℤ)
  | syncPlanTasks (project : String) (planVersion : ℤ) (runId : String) (tasks : List DevTask)
      (actor : String) (now : ℤ)
  | authoritative (k : TaskKey) (status : TaskStatus) (actor : String) (u : Board.TaskUpdate)
      (now : ℤ)
  | observational (k : TaskKey) (status : TaskStatus) (actor : String) (expectRowVersion : ℤ)
      (detail : String) (now : ℤ)
  | evidence (k : TaskKey) (runId kind : String) (content : Bytes) (now : ℤ)

namespace Board

/-- What a call does to the board, if it does not raise. -/
def perform (S : BlobStore) (b : Board) : BoardOp → Except BoardError Board
  | .ensureProject key repo => .ok (b.ensureProject key repo)
  | .publish project key runId content status actor now =>
    .ok (b.publishArtifactVersion S project key runId content status actor now).1
  | .syncPlanTasks project planVersion runId tasks actor now =>
    .ok (b.syncPlanTasks project planVersion runId tasks actor now).1
  | .authoritative k status actor u now => (b.setTaskAuthoritative k status actor u now).map (·.1)
  | .observational k status actor expectRowVersion detail now =>
    (b.setTaskObservational k status actor expectRowVersion detail now).map (·.1)
  | .evidence k runId kind content now => (b.attachTaskEvidence S k runId kind content now).map (·.1)

/-- The board after a call: a call that raises is rolled back. -/
def run (S : BlobStore) (b : Board) (op : BoardOp) : Board :=
  match b.perform S op with
  | .ok b' => b'
  | .error _ => b

end Board

end Kroker
