import Kroker.Core.Text
import Kroker.Library.Run
import Mathlib.Data.Rat.Init

/-!
# The graph editor's store

`graphEditor.store.ts`: a working copy of a graph, what is known about it (its sha, the validation
of the server), and the requests that are in flight.  A request remembers the epoch it was
dispatched at; the responses arrive in any order.

The pure operations on graphs (`graphEdits.ts`, `graphCanvas.adapter.ts`) and the size of a request
body are parameters (`Ops`), and nothing here depends on what they do.  So is `contentSha`, the sha
the server computes for a graph: it is that of the canonical form, so that graphs which differ in
layout only have one.

Objects are compared by identity in the source.  Every graph that comes from the server or from an
edit is a new object, except that an edit may give back the graph it was given (`none` in an
`EditResult`).

Three things are kept that the source does not have: with a validation, the graph that was
validated; and with a request, whether the working copy has changed since it was dispatched and
whether text has been entered.
-/

namespace Kroker.Editor

/-! ## 1.  The state -/

/-- `EditorState`. -/
inductive Phase where
  | empty
  | textBroken
  | graphLoaded
  deriving DecidableEq

structure ShapeError where
  loc : List (String ⊕ ℕ)
  msg : String
  line : Option ℕ := none
  column : Option ℕ := none

structure FieldError where
  path : String
  msg : String

inductive Severity where
  | error
  | warning
  | notExecutable
  deriving DecidableEq

/-- A `ValidationWire`, of whose issues the severity is read, with the graph it is about. -/
structure Validation (G : Type) where
  graph : G
  issues : List Severity

/-- What the catalog says that the store reads. -/
structure Catalog where
  canValidate : Bool
  canSave : Bool
  maxGraphBytes : ℕ
  defaultId : String → Option String

/-- The result of a pure edit; `none` for the graph it was given. -/
inductive EditResult (G : Type) where
  | ok (graph : Option G) (select : Option (Option String)) (notice : Option String)
  | refused (field message : String)

/-- The requests of the store, with what their response is read against. -/
inductive Call (G Sha : Type) where
  | parseText
  | serialize (graph : G)
  | validate (graph : G)
  | save (graph : G)
  | load (sha : Sha)
  | runGraph (runId : String)
  | parseCandidate (isNode : Bool) (index : ℕ) (select : Option (Option String))
      (notice : Option String)

structure Request (G Sha : Type) where
  call : Call G Sha
  epoch : ℕ
  /-- The working copy has changed since the request was dispatched. -/
  moved : Bool := false
  /-- Text has been entered since the request was dispatched. -/
  typed : Bool := false

structure Store (G Sha : Type) where
  phase : Phase := .empty
  working : Option G := none
  sha : Option Sha := none
  savedSha : Option Sha := none
  epoch : ℕ := 0
  applying : Bool := false
  selection : Option String := none
  notice : Option String := none
  yamlText : String := ""
  yamlDirty : Bool := false
  yamlErrors : List ShapeError := []
  validation : Option (Validation G) := none
  inspectorErrors : List FieldError := []
  undoStack : List G := []
  redoStack : List G := []
  canUndo : Bool := false
  canRedo : Bool := false
  /-- `validateTimer` is set. -/
  timer : Bool := false
  catalog : Option Catalog := none
  inFlight : List (Request G Sha) := []

/-- The pure functions the store calls, and the server's sha. -/
structure Ops (G Sha Elem : Type) where
  emptyGraph : G
  addNode : G → String → String → ℚ → ℚ → EditResult G
  payloadRefusal : G → Option Catalog → String → String → String → String → Option String
  connect : G → String → String → String → String → EditResult G
  moveNode : G → String → ℚ → ℚ → EditResult G
  removeElement : G → Bool → String → EditResult G
  nodeIndex : G → String → Option ℕ
  edgeIndex : G → String → Option ℕ
  nodeEditCandidate : G → String → Elem → EditResult G
  edgeEditCandidate : G → String → Elem → EditResult G
  bodyBytes : String → ℕ
  contentSha : G → Sha

variable {G Sha Elem : Type} [DecidableEq G]

namespace Store

/-- `runnable`: a validation without errors. -/
def runnable (s : Store G Sha) : Bool :=
  match s.validation with
  | some v => v.issues.count .error = 0
  | none => false

def canvasLocked (s : Store G Sha) : Bool := s.applying || s.phase ≠ .graphLoaded

def canValidate (s : Store G Sha) : Bool := s.catalog.any (·.canValidate)

def canSave (s : Store G Sha) : Bool := s.catalog.any (·.canSave)

/-- A request of the present epoch is sent. -/
def dispatch (s : Store G Sha) (call : Call G Sha) : Store G Sha :=
  { s with inFlight := s.inFlight ++ [{ call := call, epoch := s.epoch }] }

/-- The working copy becomes `graph`, and the epoch goes on. -/
def setWorking (s : Store G Sha) (graph : G) : Store G Sha :=
  { s with
    working := some graph
    epoch := s.epoch + 1
    inFlight := s.inFlight.map fun r => { r with moved := r.moved || s.working ≠ some graph } }

/-- `scheduleValidate`, up to the timer. -/
def scheduleValidate (s : Store G Sha) : Store G Sha :=
  if s.canValidate && s.working.isSome then { s with timer := true } else s

/-- What `commit` does to the undo stack. -/
def pushUndo (s : Store G Sha) : Store G Sha :=
  match s.working with
  | some w =>
    { s with
      undoStack := w :: s.undoStack
      redoStack := []
      canUndo := true
      canRedo := false }
  | none => s

/-- `commit`, of a graph that is a new object. -/
def commit (s : Store G Sha) (graph : G) (sha : Option Sha) : Store G Sha :=
  let s := s.pushUndo.setWorking graph
  { s with
    sha := sha
    phase := .graphLoaded }.scheduleValidate

/-- `undo`.  An empty stack leaves the store as it is; a stack popped with no working copy does
not arise. -/
def undo (s : Store G Sha) : Store G Sha :=
  match s.undoStack, s.working with
  | prev :: rest, some w =>
    let s := { s with
      undoStack := rest
      redoStack := w :: s.redoStack }
    let s := s.setWorking prev
    { s with
      canUndo := !rest.isEmpty
      canRedo := true }.scheduleValidate
  | _ :: rest, none => { s with undoStack := rest }
  | [], _ => s

def redo (s : Store G Sha) : Store G Sha :=
  match s.redoStack, s.working with
  | next :: rest, some w =>
    let s := { s with
      redoStack := rest
      undoStack := w :: s.undoStack }
    let s := s.setWorking next
    { s with
      canUndo := true
      canRedo := !rest.isEmpty }.scheduleValidate
  | _ :: rest, none => { s with redoStack := rest }
  | [], _ => s

def validateTimer (s : Store G Sha) : Store G Sha :=
  let s := { s with timer := false }
  match s.working with
  | some graph => s.dispatch (.validate graph)
  | none => s

def applyEdit (s : Store G Sha) : EditResult G → Store G Sha
  | .refused _ _ => s
  | .ok graph select notice =>
    if s.working = none then s
    else
      let s := match graph with
        | some graph => s.commit graph none
        | none => s
      { s with
        selection := select.getD s.selection
        notice := notice.orElse fun _ => s.notice }

/-! ## 2.  Loading -/

variable (ops : Ops G Sha Elem)

def tooLarge (s : Store G Sha) (text : String) : Bool :=
  s.catalog.any fun c => c.maxGraphBytes < ops.bodyBytes text

/-- `applyText`, up to the request. -/
def applyText (s : Store G Sha) : Store G Sha :=
  if s.applying = true then s
  else if s.tooLarge ops s.yamlText = true then
    { s with
      yamlErrors :=
        [{ loc := []
           msg := "graph text exceeds " ++
             toString ((s.catalog.map (·.maxGraphBytes)).getD 0) ++ " bytes" }] }
  else { s with applying := true }.dispatch .parseText

def setYamlText (s : Store G Sha) (text : String) : Store G Sha :=
  { s with
    yamlText := text
    yamlDirty := true
    inFlight := s.inFlight.map fun r => { r with typed := true } }

def loadText (s : Store G Sha) (text : String) : Store G Sha :=
  (s.setYamlText text).applyText ops

/-- `openYaml`, up to the request. -/
def openYaml (s : Store G Sha) : Store G Sha :=
  match s.working with
  | some graph => if s.yamlDirty = true then s else s.dispatch (.serialize graph)
  | none => s

def loadGraph (s : Store G Sha) (graph : G) (sha : Option Sha) : Store G Sha :=
  ({ s with
    validation := none
    selection := none
    yamlDirty := false }.commit graph sha).openYaml

def newGraph (s : Store G Sha) : Store G Sha := s.loadGraph ops.emptyGraph none

def loadSha (s : Store G Sha) (sha : Sha) : Store G Sha := s.dispatch (.load sha)

def openRunCopy (s : Store G Sha) (runId : String) : Store G Sha := s.dispatch (.runGraph runId)

/-! ## 3.  Canvas operations -/

def addNode (s : Store G Sha) (type : String) (x y : ℚ) : Store G Sha :=
  match s.working, s.catalog.bind fun c => c.defaultId type with
  | some w, some id => if s.applying = true then s else s.applyEdit (ops.addNode w type id x y)
  | _, _ => s

def connect (s : Store G Sha) (fromKey fromPort toKey toPort : String) : Store G Sha :=
  match s.working with
  | none => s
  | some w =>
    if s.canvasLocked = true then s
    else
      match ops.payloadRefusal w s.catalog fromKey fromPort toKey toPort with
      | some reason => { s with notice := some reason }
      | none => s.applyEdit (ops.connect w fromKey fromPort toKey toPort)

def move (s : Store G Sha) (key : String) (x y : ℚ) : Store G Sha :=
  match s.working with
  | none => s
  | some w => if s.applying = true then s else s.applyEdit (ops.moveNode w key x y)

def remove (s : Store G Sha) (isNode : Bool) (key : String) : Store G Sha :=
  match s.working with
  | none => s
  | some w => if s.applying = true then s else s.applyEdit (ops.removeElement w isNode key)

def select (s : Store G Sha) (key : Option String) : Store G Sha :=
  { s with
    selection := key
    inspectorErrors := [] }

/-! ## 4.  Inspector apply and save -/

def sendCandidate (s : Store G Sha) (isNode : Bool) (index : ℕ) : EditResult G → Store G Sha
  | .refused field message => { s with inspectorErrors := [⟨field, message⟩] }
  | .ok _ select notice =>
    { s with applying := true }.dispatch (.parseCandidate isNode index select notice)

/-- `applyInspector`, up to the request. -/
def applyInspector (s : Store G Sha) (next : Elem) : Store G Sha :=
  match s.working, s.selection with
  | some w, some key =>
    if s.applying = true then s
    else
      match ops.nodeIndex w key, ops.edgeIndex w key with
      | some index, _ => s.sendCandidate true index (ops.nodeEditCandidate w key next)
      | none, some index => s.sendCandidate false index (ops.edgeEditCandidate w key next)
      | none, none => s
  | _, _ => s

/-- `save`, up to the request. -/
def save (s : Store G Sha) : Store G Sha :=
  match s.working with
  | some graph =>
    if s.canSave = false ∨ s.applying = true then s else s.dispatch (.save graph)
  | none => s

end Store

/-! ## 5.  Responses -/

/-- What the server answers.  The sha in an answer is that of the graph it is about. -/
inductive Response (G : Type) where
  | parsed (graph : G)
  | shapeErrors (errors : List ShapeError)
  | serialized (yaml : String)
  | validated (issues : List Severity)
  | saved (issues : Option (List Severity))
  | loaded (graph : G)
  | notFound
  | noGraph
  | failed (message : String)

def locWithin (loc : List (String ⊕ ℕ)) (collection : String) (index : ℕ) : Option String :=
  match loc with
  | .inl first :: .inr second :: rest =>
    if first = collection ∧ second = index then
      some (joinWith "." (rest.map fun part => part.elim id toString))
    else none
  | _ => none

namespace Store

variable (ops : Ops G Sha Elem)

/-- The response to `applyText`. -/
def textArrived (s : Store G Sha) (epoch : ℕ) : Response G → Option (Store G Sha)
  | .parsed graph =>
    if epoch ≠ s.epoch then some { s with applying := false }
    else
      let s := { s with
        yamlErrors := []
        yamlDirty := false
        validation := none }.commit graph (some (ops.contentSha graph))
      some { s with applying := false }
  | .shapeErrors errors =>
    if epoch ≠ s.epoch then some { s with applying := false }
    else
      some
        { s with
          yamlErrors := errors
          phase := .textBroken
          applying := false }
  | .failed _ => some { s with applying := false }
  | _ => none

/-- The response to `openYaml`. -/
def yamlArrived (s : Store G Sha) (epoch : ℕ) : Response G → Option (Store G Sha)
  | .serialized yaml =>
    if epoch ≠ s.epoch then some s
    else
      some
        { s with
          yamlText := yaml
          yamlErrors := [] }
  | .shapeErrors errors =>
    if epoch ≠ s.epoch then some s else some { s with yamlErrors := errors }
  | .failed message =>
    if epoch ≠ s.epoch then some s
    else some { s with notice := some ("serialize failed: " ++ message) }
  | _ => none

/-- The response to a validation of `graph`. -/
def validationArrived (s : Store G Sha) (epoch : ℕ) (graph : G) :
    Response G → Option (Store G Sha)
  | .validated issues =>
    if epoch ≠ s.epoch then some s else some { s with validation := some ⟨graph, issues⟩ }
  | .failed message =>
    if epoch ≠ s.epoch then some s
    else some { s with notice := some ("validation failed: " ++ message) }
  | _ => none

/-- The response to a save of `graph`. -/
def saveArrived (s : Store G Sha) (epoch : ℕ) (graph : G) : Response G → Option (Store G Sha)
  | .saved issues =>
    if epoch ≠ s.epoch then some s
    else
      some
        { s with
          savedSha := some (ops.contentSha graph)
          sha := some (ops.contentSha graph)
          validation := (issues.map fun issues => ⟨graph, issues⟩).or s.validation }
  | .shapeErrors errors =>
    if epoch ≠ s.epoch then some s
    else
      some
        { s with
          notice := some ("save refused: " ++ toString errors.length ++ " shape error(s)") }
  | .failed _ => some s
  | _ => none

/-- The response to `loadSha`; no epoch is compared. -/
def graphLoaded (s : Store G Sha) (shaText : String) : Response G → Option (Store G Sha)
  | .loaded graph => some (s.loadGraph graph (some (ops.contentSha graph)))
  | .notFound => some { s with notice := some ("no saved graph " ++ shaText) }
  | .failed _ => some s
  | _ => none

/-- The response to `openRunCopy`: a copy, with no sha. -/
def runGraphArrived (s : Store G Sha) : Response G → Option (Store G Sha)
  | .loaded graph => some (s.loadGraph graph none)
  | .noGraph => some { s with notice := some "this run predates graph execution" }
  | .failed _ => some s
  | _ => none

def inspectorErrorsOf (isNode : Bool) (index : ℕ) (errors : List ShapeError) : List FieldError :=
  let collection := if isNode then "nodes" else "edges"
  let mine := errors.filterMap fun e =>
    (locWithin e.loc collection index).map fun path => ⟨path, e.msg⟩
  let elsewhere := errors.length - mine.length
  if elsewhere = 0 then mine
  else mine ++ [⟨"", toString elsewhere ++ " shape error(s) elsewhere in the graph"⟩]

/-- The response to `applyInspector`. -/
def candidateArrived (s : Store G Sha) (epoch : ℕ) (isNode : Bool) (index : ℕ)
    (select : Option (Option String)) (notice : Option String) :
    Response G → Option (Store G Sha)
  | .parsed graph =>
    if epoch ≠ s.epoch then
      some
        { s with
          inspectorErrors := [⟨"", "the graph changed — apply again"⟩]
          applying := false }
    else
      let s := { s with inspectorErrors := [] }.commit graph (some (ops.contentSha graph))
      some
        { s with
          selection := select.getD s.selection
          notice := notice.orElse fun _ => s.notice
          applying := false }
  | .shapeErrors errors =>
    if epoch ≠ s.epoch then
      some
        { s with
          inspectorErrors := [⟨"", "the graph changed — apply again"⟩]
          applying := false }
    else
      some
        { s with
          inspectorErrors := inspectorErrorsOf isNode index errors
          applying := false }
  | .failed _ => some { s with applying := false }
  | _ => none

/-- A response arrives; `none` where it is not one the request can have. -/
def arrive (shaText : Sha → String) (s : Store G Sha) (r : Request G Sha)
    (response : Response G) : Option (Store G Sha) :=
  match r.call with
  | .parseText => s.textArrived ops r.epoch response
  | .serialize _ => s.yamlArrived r.epoch response
  | .validate graph => s.validationArrived r.epoch graph response
  | .save graph => s.saveArrived ops r.epoch graph response
  | .load sha => s.graphLoaded ops (shaText sha) response
  | .runGraph _ => s.runGraphArrived response
  | .parseCandidate isNode index select notice =>
    s.candidateArrived ops r.epoch isNode index select notice response

end Store

/-! ## 6.  Runs -/

inductive Event (G Sha Elem : Type) where
  | applyText
  | loadText (text : String)
  | setYamlText (text : String)
  | openYaml
  | loadGraph (graph : G) (sha : Option Sha)
  | newGraph
  | loadSha (sha : Sha)
  | openRunCopy (runId : String)
  | addNode (type : String) (x y : ℚ)
  | connect (fromKey fromPort toKey toPort : String)
  | move (key : String) (x y : ℚ)
  | remove (isNode : Bool) (key : String)
  | select (key : Option String)
  | applyInspector (next : Elem)
  | save
  | undo
  | redo
  | validateTimer
  | catalogLoaded (catalog : Catalog)
  /-- The response to the request at a position among those in flight. -/
  | response (i : ℕ) (response : Response G)

variable [DecidableEq Sha]

/-- One operation of the store, or one response.  `loadGraph` is called with the sha of the graph,
or with none; the timer goes off where it is set. -/
def step (ops : Ops G Sha Elem) (shaText : Sha → String) (s : Store G Sha) :
    Event G Sha Elem → Option (Store G Sha)
  | .applyText => some (s.applyText ops)
  | .loadText text => some (s.loadText ops text)
  | .setYamlText text => some (s.setYamlText text)
  | .openYaml => some s.openYaml
  | .loadGraph graph sha =>
    if sha = none ∨ sha = some (ops.contentSha graph) then some (s.loadGraph graph sha) else none
  | .newGraph => some (s.newGraph ops)
  | .loadSha sha => some (s.loadSha sha)
  | .openRunCopy runId => some (s.openRunCopy runId)
  | .addNode type x y => some (s.addNode ops type x y)
  | .connect fromKey fromPort toKey toPort => some (s.connect ops fromKey fromPort toKey toPort)
  | .move key x y => some (s.move ops key x y)
  | .remove isNode key => some (s.remove ops isNode key)
  | .select key => some (s.select key)
  | .applyInspector next => some (s.applyInspector ops next)
  | .save => some s.save
  | .undo => some s.undo
  | .redo => some s.redo
  | .validateTimer => if s.timer = true then some s.validateTimer else none
  | .catalogLoaded catalog => some { s with catalog := some catalog }
  | .response i response =>
    (s.inFlight[i]?).bind fun r =>
      { s with inFlight := s.inFlight.eraseIdx i }.arrive ops shaText r response

end Kroker.Editor
