import Kroker.Library.Run

/-!
# The board of a run

`board.store.ts`: the tasks of a run, polled, and the detail and the events of the one that is
selected.  A selection is fetched by two requests, for the detail and for the events, and both are
used when the second answer is there; the first failure fails the fetch.  A fetch remembers the
generation of the mount, which `stop` moves, and an answer of an earlier one is not used; where a
fetch that `select` began fails, what was selected before is put back, at any generation.

The steps of the initial load change nothing until the last, so that they are one request here; so
is a later poll of the tasks.
-/

namespace Kroker.BoardView

/-! ## 1.  The state -/

/-- A `BoardTaskWire`. -/
structure BoardTask where
  taskId : String
  planVersion : ℕ
  rowVersion : ℕ
  deriving DecidableEq

/-- A `TaskDetailWire`, of which the task is read here. -/
structure TaskDetail where
  task : BoardTask
  evidence : List String
  deriving DecidableEq

/-- A `BoardEventWire`, with what is not read of it. -/
structure BoardEvent where
  subject : String
  detail : String

/-- An `ArtifactVersionWire`. -/
structure ArtifactVersion where
  id : ℕ
  runId : String

inductive BoardPhase where
  | idle
  | loading
  | ready
  | empty
  | unavailable

inductive BoardReason where
  | noProject
  | notFound

/-- `selectedTaskId`, `selectedDetail` and `selectedEvents`. -/
structure Selection where
  taskId : Option String := none
  detail : Option TaskDetail := none
  events : List BoardEvent := []

def taskSubject (row : BoardTask) : String :=
  "task:" ++ toString row.planVersion ++ ":" ++ row.taskId

/-- A fetch of a selection, with the answers that are there: the server answers with the task it was
asked for, and with events of the subject it was asked for.  `prior` is what `select` remembers;
none for a refresh in the background. -/
structure Fetch where
  row : BoardTask
  generation : ℕ
  prior : Option Selection
  detail : Option TaskDetail := none
  events : Option (List BoardEvent) := none
  ofTask : ∀ d ∈ detail, d.task.taskId = row.taskId := by nofun
  ofSubject : ∀ es ∈ events, ∀ e ∈ es, e.subject = taskSubject row := by nofun

structure Poll where
  generation : ℕ
  initial : Bool

structure Store where
  phase : BoardPhase := .idle
  reason : Option BoardReason := none
  connectionLost : Bool := false
  tasks : List BoardTask := []
  versions : List (String × List ArtifactVersion) := []
  planVersion : Option ℕ := none
  selected : Selection := {}
  /-- `cancelPoll` is set. -/
  polling : Bool := false
  generation : ℕ := 0
  loadedOnce : Bool := false
  run : Option (String × String) := none
  selectedRowVersion : ℕ := 0
  /-- The failures in a row of the poll of the mount. -/
  failures : ℕ := 0
  polls : List Poll := []
  fetches : List Fetch := []

/-- `pickPlanVersion`: the newest version the run published. -/
def pickPlanVersion (versions : List ArtifactVersion) (runId : String) : Option ArtifactVersion :=
  versions.foldl
    (fun newest v =>
      if v.runId ≠ runId then newest
      else
        match newest with
        | none => some v
        | some n => if n.id < v.id then some v else some n)
    none

/-! ## 2.  Operations -/

namespace Store

variable (s : Store)

def stop : Store :=
  { s with
    generation := s.generation + 1
    polling := false
    loadedOnce := false
    run := none
    selectedRowVersion := 0
    phase := .idle
    reason := none
    connectionLost := false
    tasks := []
    versions := []
    planVersion := none
    selected := {} }

def permanentNotFound : Store :=
  { s with
    phase := .unavailable
    reason := some .notFound
    polling := false }

/-- `start`; the poll makes its first request. -/
def start (runId : String) : Option String → Store
  | none =>
    { s.stop with
      phase := .unavailable
      reason := some .noProject }
  | some projectKey =>
    let s := s.stop
    { s with
      run := some (runId, projectKey)
      phase := .loading
      polling := true
      failures := 0
      polls := s.polls ++ [{ generation := s.generation, initial := true }] }

/-- The two requests of `fetchSelection`. -/
def fetchSelection (row : BoardTask) (prior : Option Selection) : Store :=
  { s with
    fetches := s.fetches ++ [{ row := row, generation := s.generation, prior := prior }] }

/-- `select`, up to the requests. -/
def select (taskId : String) : Store :=
  match s.run, s.tasks.find? (·.taskId = taskId) with
  | some _, some row =>
    { s with selected := { s.selected with taskId := some taskId } }.fetchSelection row
      (some s.selected)
  | _, _ => s

/-- The next request of the poll. -/
def tick : Store :=
  { s with polls := s.polls ++ [{ generation := s.generation, initial := !s.loadedOnce }] }

end Store

/-! ## 3.  What arrives -/

/-- How a request of the poll is answered: not at all (`failed`), with the rows, or for the initial
load with those and the versions of the plan, if there are any, and of each artifact. -/
inductive PollAnswer where
  | notFound
  | failed
  | loaded (planVersions : Option (List ArtifactVersion)) (rows : List BoardTask)
      (byKey : List (String × List ArtifactVersion))
  | rows (rows : List BoardTask)

namespace Store

variable (s : Store)

def polled : Store :=
  if s.failures = 0 then s
  else
    { s with
      failures := 0
      connectionLost := false }

def pollFailed : Store :=
  { s with
    failures := s.failures + 1
    connectionLost := if 3 ≤ s.failures + 1 then true else s.connectionLost }

/-- The end of `loadInitial`. -/
def loaded (runId : String) (planVersions : Option (List ArtifactVersion)) (rows : List BoardTask)
    (byKey : List (String × List ArtifactVersion)) : Store :=
  { s with
    planVersion := (planVersions.bind fun versions => pickPlanVersion versions runId).map (·.id)
    tasks := rows
    versions := byKey.map fun (key, versions) => (key, versions.filter (·.runId = runId))
    loadedOnce := true
    phase := if rows = [] then .empty else .ready }

def moved? (rows : List BoardTask) : Option BoardTask :=
  (s.selected.taskId.bind fun id => rows.find? (·.taskId = id)).filter
    (·.rowVersion ≠ s.selectedRowVersion)

/-- The end of `pollTasks`: a row that has moved is fetched in the background. -/
def rowsArrived (rows : List BoardTask) : Store :=
  let refreshed := match s.moved? rows with
    | some row => s.fetchSelection row none
    | none => s
  { refreshed with
    tasks := rows
    phase := if rows = [] then .empty else .ready }

/-- A request of the poll is answered.  A 404 counts for a mount that is gone as well. -/
def pollArrived (poll : Poll) : PollAnswer → Option Store
  | .notFound => some s.permanentNotFound
  | answer =>
    if poll.generation ≠ s.generation ∨ s.polling = false then some s
    else
      match answer, s.run with
      | .loaded planVersions rows byKey, some (runId, _) =>
        if poll.initial = true then some (s.loaded runId planVersions rows byKey).polled else none
      | .rows rows, some _ => if poll.initial = false then some (s.rowsArrived rows).polled else none
      | .failed, _ => some s.pollFailed
      | _, _ => none

/-- Both answers of a fetch are there. -/
def fetched (fetch : Fetch) (detail : TaskDetail) (events : List BoardEvent) : Store :=
  if fetch.generation ≠ s.generation then s
  else
    { s with
      selected :=
        { s.selected with
          detail := some detail
          events := events }
      selectedRowVersion := detail.task.rowVersion }

/-- A fetch has failed.  A refresh is given up; a selection is cleared by a 404, and put back to
what it was by another failure. -/
def fetchFailed (fetch : Fetch) (notFound : Bool) : Store :=
  match fetch.prior with
  | none => s
  | some prior =>
    if notFound = true then { s with selected := {} }
    else
      { s with
        selected := prior
        connectionLost := true }

end Store

inductive Event where
  | start (runId : String) (projectKey : Option String)
  | stop
  | select (taskId : String)
  | tick
  | pollArrived (i : ℕ) (answer : PollAnswer)
  /-- The answers of the fetch at a position among those in flight. -/
  | detailArrived (i : ℕ) (detail : TaskDetail)
  | eventsArrived (i : ℕ) (events : List BoardEvent)
  | fetchFailed (i : ℕ) (notFound : Bool)

namespace Store

variable (s : Store)

def detailArrived (i : ℕ) (fetch : Fetch) (detail : TaskDetail) : Option Store :=
  if h : fetch.detail = none ∧ detail.task.taskId = fetch.row.taskId then
    match fetch.events with
    | some events => some ({ s with fetches := s.fetches.eraseIdx i }.fetched fetch detail events)
    | none =>
      let fetch := { fetch with
        detail := some detail
        ofTask := by
          rintro d ⟨⟩
          exact h.2 }
      some { s with fetches := s.fetches.set i fetch }
  else none

def eventsArrived (i : ℕ) (fetch : Fetch) (events : List BoardEvent) : Option Store :=
  if h : fetch.events = none ∧ ∀ e ∈ events, e.subject = taskSubject fetch.row then
    match fetch.detail with
    | some detail => some ({ s with fetches := s.fetches.eraseIdx i }.fetched fetch detail events)
    | none =>
      let fetch := { fetch with
        events := some events
        ofSubject := by
          rintro es ⟨⟩
          exact h.2 }
      some { s with fetches := s.fetches.set i fetch }
  else none

end Store

def step (s : Store) : Event → Option Store
  | .start runId projectKey => some (s.start runId projectKey)
  | .stop => some s.stop
  | .select taskId => some (s.select taskId)
  | .tick =>
    if s.polling = true ∧ ∀ poll ∈ s.polls, poll.generation ≠ s.generation then some s.tick else none
  | .pollArrived i answer =>
    s.polls[i]?.bind fun poll => { s with polls := s.polls.eraseIdx i }.pollArrived poll answer
  | .detailArrived i detail => s.fetches[i]?.bind fun fetch => s.detailArrived i fetch detail
  | .eventsArrived i events => s.fetches[i]?.bind fun fetch => s.eventsArrived i fetch events
  | .fetchFailed i notFound =>
    s.fetches[i]?.map fun fetch =>
      { s with fetches := s.fetches.eraseIdx i }.fetchFailed fetch notFound

end Kroker.BoardView
