import Kroker.Editor.Store

/-!
# The requests in flight

What the epoch of a request says.  A request of the present epoch was dispatched from the present
working copy, and text has been entered since a serialize request exactly where the text is dirty
(`Fresh`): each replacement of the working copy begins a new epoch, and no request is of a later
one.  `sound_of_reachable` says that this is so in every state reached.

An operation is *quiet* where it leaves the working copy, its sha and its validation as they are
(`Quiet`); the others put a graph in the place of the working copy (`Replaced`, `Loaded`).
`Advance` says once what a step can do.
-/

namespace Kroker.Editor

variable {G Sha Elem : Type}

namespace Store

theorem scheduleValidate_eq (s : Store G Sha) :
    ∃ timer, s.scheduleValidate = { s with timer := timer } := by
  rw [scheduleValidate]
  split
  · exact ⟨true, rfl⟩
  · exact ⟨s.timer, rfl⟩

theorem pushUndo_eq (s : Store G Sha) : ∃ undoStack redoStack canUndo canRedo,
    s.pushUndo =
      { s with
        undoStack := undoStack
        redoStack := redoStack
        canUndo := canUndo
        canRedo := canRedo } := by
  unfold pushUndo
  split
  · exact ⟨_, _, _, _, rfl⟩
  · exact ⟨s.undoStack, s.redoStack, s.canUndo, s.canRedo, rfl⟩

end Store

/-! ## 1.  What is in flight -/

/-- The working copy a request was dispatched from, where the request carries it. -/
def Call.graph? : Call G Sha → Option G
  | .serialize graph => some graph
  | .validate graph => some graph
  | .save graph => some graph
  | _ => none

def Call.isSerialize : Call G Sha → Bool
  | .serialize _ => true
  | _ => false

/-- A request of the present epoch was dispatched from the present working copy; text has been
entered since a serialize request exactly where the text is dirty. -/
structure Fresh (s : Store G Sha) (r : Request G Sha) : Prop where
  unmoved : r.moved = false
  graph : ∀ g, r.call.graph? = some g → s.working = some g
  typed : r.call.isSerialize = true → r.typed = s.yamlDirty

/-- No request is of a later epoch. -/
def Bounded (s : Store G Sha) : Prop := ∀ r ∈ s.inFlight, r.epoch ≤ s.epoch

/-- And those of the present one are fresh. -/
def Sound (s : Store G Sha) : Prop := Bounded s ∧ ∀ r ∈ s.inFlight, r.epoch = s.epoch → Fresh s r

theorem Sound.congr {s s' : Store G Sha} (h : Sound s) (hinFlight : s'.inFlight = s.inFlight)
    (hepoch : s'.epoch = s.epoch) (hworking : s'.working = s.working)
    (hdirty : s'.yamlDirty = s.yamlDirty) : Sound s' := by
  refine ⟨fun r hr => hepoch ▸ h.1 r (hinFlight ▸ hr), fun r hr hr' => ?_⟩
  obtain ⟨hunmoved, hgraph, htyped⟩ := h.2 r (hinFlight ▸ hr) (hepoch ▸ hr')
  exact ⟨hunmoved, hworking ▸ hgraph, hdirty ▸ htyped⟩

theorem Sound.eraseIdx {s : Store G Sha} (h : Sound s) (i : ℕ) :
    Sound { s with inFlight := s.inFlight.eraseIdx i } := by
  have hsub : ∀ r ∈ s.inFlight.eraseIdx i, r ∈ s.inFlight := fun r hr => List.mem_of_mem_eraseIdx hr
  refine ⟨fun r hr => h.1 r (hsub r hr), fun r hr hepoch => ?_⟩
  obtain ⟨hunmoved, hgraph, htyped⟩ := h.2 r (hsub r hr) hepoch
  exact ⟨hunmoved, hgraph, htyped⟩

theorem Sound.dispatch {s : Store G Sha} (h : Sound s) {call : Call G Sha}
    (hgraph : ∀ g, call.graph? = some g → s.working = some g)
    (hserialize : call.isSerialize = true → s.yamlDirty = false) : Sound (s.dispatch call) := by
  have hcases : ∀ r ∈ (s.dispatch call).inFlight,
      r ∈ s.inFlight ∨ r = { call := call, epoch := s.epoch } := by
    intro r hr
    simpa [Store.dispatch] using hr
  constructor
  · intro r hr
    rcases hcases r hr with hr | rfl
    · exact h.1 r hr
    · exact Nat.le_refl _
  · intro r hr hepoch
    rcases hcases r hr with hr | rfl
    · obtain ⟨hunmoved, hgraph, htyped⟩ := h.2 r hr hepoch
      exact ⟨hunmoved, hgraph, htyped⟩
    · exact ⟨rfl, hgraph, fun hcall => (hserialize hcall).symm⟩

/-! ## 2.  Quiet operations -/

/-- The working copy and what is known about it are as they were. -/
structure Quiet (s s' : Store G Sha) : Prop where
  working : s'.working = s.working
  sha : s'.sha = s.sha
  validation : s'.validation = s.validation
  sound : Sound s → Sound s'

namespace Store

variable (s : Store G Sha) (ops : Ops G Sha Elem)

theorem quiet_refl : Quiet s s := ⟨rfl, rfl, rfl, id⟩

theorem quiet_dispatch {call : Call G Sha} (hgraph : ∀ g, call.graph? = some g → s.working = some g)
    (hserialize : call.isSerialize = true → s.yamlDirty = false) : Quiet s (s.dispatch call) :=
  ⟨rfl, rfl, rfl, fun h => h.dispatch hgraph hserialize⟩

theorem quiet_applyText : Quiet s (s.applyText ops) := by
  rw [applyText]
  split
  · exact s.quiet_refl
  · split
    · exact ⟨rfl, rfl, rfl, fun h => h.congr rfl rfl rfl rfl⟩
    · refine ⟨rfl, rfl, rfl, fun h => ?_⟩
      have hidle : Sound { s with applying := true } := h.congr rfl rfl rfl rfl
      exact hidle.dispatch nofun nofun

theorem quiet_setYamlText (text : String) : Quiet s (s.setYamlText text) := by
  refine ⟨rfl, rfl, rfl, fun h => ⟨fun r hr => ?_, fun r hr hepoch => ?_⟩⟩
  · obtain ⟨r', hr', rfl⟩ := List.mem_map.mp hr
    exact h.1 r' hr'
  · obtain ⟨r', hr', rfl⟩ := List.mem_map.mp hr
    obtain ⟨hunmoved, hgraph, -⟩ := h.2 r' hr' hepoch
    exact ⟨hunmoved, hgraph, fun _ => rfl⟩

theorem quiet_loadText (text : String) : Quiet s (s.loadText ops text) := by
  obtain ⟨hworking, hsha, hvalidation, hsound⟩ := s.quiet_setYamlText text
  obtain ⟨hworking', hsha', hvalidation', hsound'⟩ := (s.setYamlText text).quiet_applyText ops
  exact ⟨hworking'.trans hworking, hsha'.trans hsha, hvalidation'.trans hvalidation,
    fun h => hsound' (hsound h)⟩

theorem quiet_openYaml : Quiet s s.openYaml := by
  unfold openYaml
  split
  · rename_i graph hworking
    split
    · exact s.quiet_refl
    · rename_i hdirty
      refine s.quiet_dispatch (fun g hg => ?_) fun _ => by simpa using hdirty
      rw [hworking]
      exact hg
  · exact s.quiet_refl

theorem quiet_select (key : Option String) : Quiet s (s.select key) :=
  ⟨rfl, rfl, rfl, fun h => h.congr rfl rfl rfl rfl⟩

theorem quiet_sendCandidate (isNode : Bool) (index : ℕ) (result : EditResult G) :
    Quiet s (s.sendCandidate isNode index result) := by
  cases result with
  | refused field message => exact ⟨rfl, rfl, rfl, fun h => h.congr rfl rfl rfl rfl⟩
  | ok graph select notice =>
    refine ⟨rfl, rfl, rfl, fun h => ?_⟩
    have hidle : Sound { s with applying := true } := h.congr rfl rfl rfl rfl
    exact hidle.dispatch nofun nofun

theorem quiet_applyInspector (next : Elem) : Quiet s (s.applyInspector ops next) := by
  unfold applyInspector
  split
  · split
    · exact s.quiet_refl
    · split
      · exact s.quiet_sendCandidate _ _ _
      · exact s.quiet_sendCandidate _ _ _
      · exact s.quiet_refl
  · exact s.quiet_refl

theorem quiet_save : Quiet s s.save := by
  unfold save
  split
  · rename_i graph hworking
    split
    · exact s.quiet_refl
    · refine s.quiet_dispatch (fun g hg => ?_) nofun
      rw [hworking]
      exact hg
  · exact s.quiet_refl

theorem quiet_validateTimer : Quiet s s.validateTimer := by
  have hoff : Sound s → Sound { s with timer := false } := fun h => h.congr rfl rfl rfl rfl
  simp only [validateTimer]
  split
  · rename_i graph hworking
    refine ⟨rfl, rfl, rfl, fun h => (hoff h).dispatch (fun g hg => ?_) nofun⟩
    exact hworking.trans hg
  · exact ⟨rfl, rfl, rfl, hoff⟩

end Store

/-! ## 3.  Operations that replace the working copy -/

variable [DecidableEq G]

namespace Store

theorem commit_eq (s : Store G Sha) (graph : G) (sha : Option Sha) :
    ∃ undoStack redoStack canUndo canRedo timer,
      s.commit graph sha =
        { s.setWorking graph with
          sha := sha
          phase := .graphLoaded
          undoStack := undoStack
          redoStack := redoStack
          canUndo := canUndo
          canRedo := canRedo
          timer := timer } := by
  obtain ⟨undoStack, redoStack, canUndo, canRedo, hpush⟩ := s.pushUndo_eq
  obtain ⟨timer, htimer⟩ : ∃ timer, s.commit graph sha =
      { s.pushUndo.setWorking graph with
        sha := sha
        phase := .graphLoaded
        timer := timer } := scheduleValidate_eq _
  refine ⟨undoStack, redoStack, canUndo, canRedo, timer, ?_⟩
  rw [htimer, hpush]
  rfl

section Commit

variable (s : Store G Sha) (graph : G) (sha : Option Sha)

@[simp] theorem commit_working : (s.commit graph sha).working = some graph := by
  obtain ⟨_, _, _, _, _, h⟩ := s.commit_eq graph sha
  rw [h]
  rfl

@[simp] theorem commit_sha : (s.commit graph sha).sha = sha := by
  obtain ⟨_, _, _, _, _, h⟩ := s.commit_eq graph sha
  rw [h]

@[simp] theorem commit_savedSha : (s.commit graph sha).savedSha = s.savedSha := by
  obtain ⟨_, _, _, _, _, h⟩ := s.commit_eq graph sha
  rw [h]
  rfl

@[simp] theorem commit_epoch : (s.commit graph sha).epoch = s.epoch + 1 := by
  obtain ⟨_, _, _, _, _, h⟩ := s.commit_eq graph sha
  rw [h]
  rfl

@[simp] theorem commit_validation : (s.commit graph sha).validation = s.validation := by
  obtain ⟨_, _, _, _, _, h⟩ := s.commit_eq graph sha
  rw [h]
  rfl

@[simp] theorem commit_yamlText : (s.commit graph sha).yamlText = s.yamlText := by
  obtain ⟨_, _, _, _, _, h⟩ := s.commit_eq graph sha
  rw [h]
  rfl

@[simp] theorem commit_yamlDirty : (s.commit graph sha).yamlDirty = s.yamlDirty := by
  obtain ⟨_, _, _, _, _, h⟩ := s.commit_eq graph sha
  rw [h]
  rfl

@[simp] theorem commit_inFlight :
    (s.commit graph sha).inFlight = (s.setWorking graph).inFlight := by
  obtain ⟨_, _, _, _, _, h⟩ := s.commit_eq graph sha
  rw [h]

end Commit

end Store

theorem Bounded.setWorking {s : Store G Sha} (h : Bounded s) (graph : G) :
    Sound (s.setWorking graph) := by
  have hold : ∀ r ∈ (s.setWorking graph).inFlight, r.epoch ≤ s.epoch := by
    intro r hr
    obtain ⟨r', hr', rfl⟩ := List.mem_map.mp hr
    exact h r' hr'
  have hepoch : (s.setWorking graph).epoch = s.epoch + 1 := rfl
  refine ⟨fun r hr => ?_, fun r hr hr' => ?_⟩
  · have := hold r hr
    omega
  · have := hold r hr
    omega

structure Replaced (s s' : Store G Sha) (graph : G) (sha : Option Sha) : Prop where
  working : s'.working = some graph
  sha : s'.sha = sha
  validation : s'.validation = s.validation
  sound : Bounded s → Sound s'

/-- And its validation is cleared. -/
structure Loaded (s s' : Store G Sha) (graph : G) (sha : Option Sha) : Prop where
  working : s'.working = some graph
  sha : s'.sha = sha
  validation : s'.validation = none
  sound : Bounded s → Sound s'

/-- The graph of an edit, where it is another one than it was given. -/
def EditResult.newGraph? : EditResult G → Option G
  | .ok graph _ _ => graph
  | .refused _ _ => none

/-- The graph `undo` or `redo` restores from a stack. -/
def restored? : List G → Option G → Option G
  | graph :: _, some _ => some graph
  | _, _ => none

namespace Store

variable (s : Store G Sha) (ops : Ops G Sha Elem)

theorem replaced_commit (graph : G) (sha : Option Sha) :
    Replaced s (s.commit graph sha) graph sha := by
  refine ⟨by simp, by simp, by simp, fun h => ?_⟩
  exact (h.setWorking graph).congr (by simp) (by simp [setWorking]) (by simp [setWorking])
    (by simp [setWorking])

theorem applyEdit_cases (hworking : s.working ≠ none) (result : EditResult G) :
    (∃ graph, result.newGraph? = some graph ∧ Replaced s (s.applyEdit result) graph none) ∨
      (result.newGraph? = none ∧ Quiet s (s.applyEdit result)) := by
  cases result with
  | refused field message => exact .inr ⟨rfl, s.quiet_refl⟩
  | ok graph select notice =>
    simp only [applyEdit, if_neg hworking]
    cases graph with
    | none => exact .inr ⟨rfl, rfl, rfl, rfl, fun h => h.congr rfl rfl rfl rfl⟩
    | some graph =>
      obtain ⟨hgraph, hsha, hvalidation, hsound⟩ := s.replaced_commit graph none
      refine .inl ⟨graph, rfl, hgraph, hsha, hvalidation, fun h => ?_⟩
      exact (hsound h).congr rfl rfl rfl rfl

/-- The edit a canvas operation makes, where it is not refused. -/
def editOf? (ops : Ops G Sha Elem) (s : Store G Sha) : Event G Sha Elem → Option (EditResult G)
  | .addNode type x y =>
    match s.working, s.catalog.bind fun c => c.defaultId type with
    | some w, some id => if s.applying = true then none else some (ops.addNode w type id x y)
    | _, _ => none
  | .connect fromKey fromPort toKey toPort =>
    match s.working with
    | none => none
    | some w =>
      if s.canvasLocked = true then none
      else
        match ops.payloadRefusal w s.catalog fromKey fromPort toKey toPort with
        | some _ => none
        | none => some (ops.connect w fromKey fromPort toKey toPort)
  | .move key x y =>
    match s.working with
    | none => none
    | some w => if s.applying = true then none else some (ops.moveNode w key x y)
  | .remove isNode key =>
    match s.working with
    | none => none
    | some w => if s.applying = true then none else some (ops.removeElement w isNode key)
  | _ => none

/-- The graph that `undo` or `redo` or an edit puts in the place of the working copy, with the sha
that it gets. -/
def replaces? (ops : Ops G Sha Elem) (s : Store G Sha) : Event G Sha Elem → Option (G × Option Sha)
  | .undo => (restored? s.undoStack s.working).map fun graph => (graph, s.sha)
  | .redo => (restored? s.redoStack s.working).map fun graph => (graph, s.sha)
  | e => ((s.editOf? ops e).bind EditResult.newGraph?).map fun graph => (graph, none)

/-- **What an operation does**, that is not a response. -/
inductive Operation (ops : Ops G Sha Elem) (s : Store G Sha) (e : Event G Sha Elem) :
    Store G Sha → Prop
  | quiet {s' : Store G Sha} (hreplaces : s.replaces? ops e = none) (h : Quiet s s') :
      Operation ops s e s'
  | replaced {s' : Store G Sha} {graph : G} {sha : Option Sha}
      (hreplaces : s.replaces? ops e = some (graph, sha)) (h : Replaced s s' graph sha) :
      Operation ops s e s'
  | loaded {s' : Store G Sha} {graph : G} {sha : Option Sha} (hreplaces : s.replaces? ops e = none)
      (hsha : sha = none ∨ sha = some (ops.contentSha graph)) (h : Loaded s s' graph sha) :
      Operation ops s e s'

variable {s ops}

theorem operation_of_edit {e : Event G Sha Elem} {result : EditResult G}
    (hworking : s.working ≠ none)
    (h : s.replaces? ops e = result.newGraph?.map fun graph => (graph, none)) :
    Operation ops s e (s.applyEdit result) := by
  rcases s.applyEdit_cases hworking result with ⟨graph, hgraph, hreplaced⟩ | ⟨hgraph, hquiet⟩
  · exact .replaced (by rw [h, hgraph]; rfl) hreplaced
  · exact .quiet (by rw [h, hgraph]; rfl) hquiet

theorem operation_addNode (type : String) (x y : ℚ) :
    Operation ops s (.addNode type x y) (s.addNode ops type x y) := by
  unfold addNode
  split
  · rename_i w id hworking hid
    split
    · exact .quiet (by simp [replaces?, editOf?, *]) s.quiet_refl
    · exact operation_of_edit (by simp [hworking]) (by simp [replaces?, editOf?, *])
  · exact .quiet (by simp only [replaces?, editOf?]; rfl) s.quiet_refl

theorem operation_connect (fromKey fromPort toKey toPort : String) :
    Operation ops s (.connect fromKey fromPort toKey toPort)
      (s.connect ops fromKey fromPort toKey toPort) := by
  unfold connect
  split
  · exact .quiet (by simp [replaces?, editOf?, *]) s.quiet_refl
  · split
    · exact .quiet (by simp [replaces?, editOf?, *]) s.quiet_refl
    · split
      · refine .quiet (by simp [replaces?, editOf?, *]) ⟨rfl, rfl, rfl, fun h => ?_⟩
        exact h.congr rfl rfl rfl rfl
      · exact operation_of_edit (by simp [*]) (by simp [replaces?, editOf?, *])

theorem operation_move (key : String) (x y : ℚ) :
    Operation ops s (.move key x y) (s.move ops key x y) := by
  unfold move
  split
  · exact .quiet (by simp [replaces?, editOf?, *]) s.quiet_refl
  · split
    · exact .quiet (by simp [replaces?, editOf?, *]) s.quiet_refl
    · exact operation_of_edit (by simp [*]) (by simp [replaces?, editOf?, *])

theorem operation_remove (isNode : Bool) (key : String) :
    Operation ops s (.remove isNode key) (s.remove ops isNode key) := by
  unfold remove
  split
  · exact .quiet (by simp [replaces?, editOf?, *]) s.quiet_refl
  · split
    · exact .quiet (by simp [replaces?, editOf?, *]) s.quiet_refl
    · exact operation_of_edit (by simp [*]) (by simp [replaces?, editOf?, *])

/-- **`undo` swaps the working copy** and keeps its sha and its validation. -/
theorem operation_undo : Operation ops s .undo s.undo := by
  unfold undo
  split
  · rename_i prev rest w hstack hworking
    obtain ⟨timer, htimer⟩ := scheduleValidate_eq
      { ({ s with
          undoStack := rest
          redoStack := w :: s.redoStack }.setWorking prev) with
        canUndo := !rest.isEmpty
        canRedo := true }
    have hreplaces : s.replaces? ops .undo = some (prev, s.sha) := by
      simp [replaces?, restored?, *]
    rw [htimer]
    refine .replaced hreplaces ⟨rfl, rfl, rfl, fun h => ?_⟩
    exact (h.setWorking prev).congr rfl rfl rfl rfl
  · refine .quiet (by simp [replaces?, restored?, *]) ⟨rfl, rfl, rfl, fun h => ?_⟩
    exact h.congr rfl rfl rfl rfl
  · exact .quiet (by simp [replaces?, restored?, *]) s.quiet_refl

theorem operation_redo : Operation ops s .redo s.redo := by
  unfold redo
  split
  · rename_i next rest w hstack hworking
    obtain ⟨timer, htimer⟩ := scheduleValidate_eq
      { ({ s with
          redoStack := rest
          undoStack := w :: s.undoStack }.setWorking next) with
        canUndo := true
        canRedo := !rest.isEmpty }
    have hreplaces : s.replaces? ops .redo = some (next, s.sha) := by
      simp [replaces?, restored?, *]
    rw [htimer]
    refine .replaced hreplaces ⟨rfl, rfl, rfl, fun h => ?_⟩
    exact (h.setWorking next).congr rfl rfl rfl rfl
  · refine .quiet (by simp [replaces?, restored?, *]) ⟨rfl, rfl, rfl, fun h => ?_⟩
    exact h.congr rfl rfl rfl rfl
  · exact .quiet (by simp [replaces?, restored?, *]) s.quiet_refl

/-- **A graph that is loaded** begins with no validation. -/
theorem loaded_loadGraph (s : Store G Sha) (graph : G) (sha : Option Sha) :
    Loaded s (s.loadGraph graph sha) graph sha := by
  obtain ⟨hworking, hsha, hvalidation, hsound⟩ := Store.replaced_commit
    { s with
      validation := none
      selection := none
      yamlDirty := false } graph sha
  obtain ⟨hworking', hsha', hvalidation', hsound'⟩ := quiet_openYaml (commit
    { s with
      validation := none
      selection := none
      yamlDirty := false } graph sha)
  exact ⟨hworking'.trans hworking, hsha'.trans hsha, hvalidation'.trans hvalidation,
    fun h => hsound' (hsound h)⟩

end Store

/-! ## 4.  Responses -/

def Call.loadedSha? (ops : Ops G Sha Elem) (graph : G) : Call G Sha → Option (Option Sha)
  | .load _ => some (some (ops.contentSha graph))
  | .runGraph _ => some none
  | _ => none

def Response.answers : Response G → Bool
  | .parsed _ => true
  | .serialized _ => true
  | .validated _ => true
  | .saved _ => true
  | _ => false

structure Kept (s s' : Store G Sha) : Prop extends Quiet s s' where
  savedSha : s'.savedSha = s.savedSha
  yamlText : s'.yamlText = s.yamlText

structure KeptText (s s' : Store G Sha) : Prop where
  savedSha : s'.savedSha = s.savedSha
  yamlText : s'.yamlText = s.yamlText

/-- **What a response does.**  An answer is used at the epoch of its request only; a loaded graph
is used at any. -/
inductive Arrival (ops : Ops G Sha Elem) (s : Store G Sha) (r : Request G Sha) :
    Response G → Store G Sha → Prop
  | kept {response : Response G} {s' : Store G Sha} (hloaded : ∀ graph, response ≠ .loaded graph)
      (hlate : response.answers = true → r.epoch ≠ s.epoch) (h : Kept s s') :
      Arrival ops s r response s'
  | loaded {graph : G} {sha : Option Sha} {s' : Store G Sha}
      (hcall : r.call.loadedSha? ops graph = some sha) (h : Loaded s s' graph sha)
      (htext : KeptText s s') : Arrival ops s r (.loaded graph) s'
  | text {graph : G} {s' : Store G Sha} (hcall : r.call = .parseText) (hepoch : r.epoch = s.epoch)
      (h : Loaded s s' graph (some (ops.contentSha graph))) (htext : KeptText s s') :
      Arrival ops s r (.parsed graph) s'
  | candidate {graph : G} {s' : Store G Sha} {isNode : Bool} {index : ℕ}
      {select : Option (Option String)} {notice : Option String}
      (hcall : r.call = .parseCandidate isNode index select notice) (hepoch : r.epoch = s.epoch)
      (h : Replaced s s' graph (some (ops.contentSha graph))) (htext : KeptText s s') :
      Arrival ops s r (.parsed graph) s'
  | serialized {graph : G} {yaml : String} (hcall : r.call = .serialize graph)
      (hepoch : r.epoch = s.epoch) :
      Arrival ops s r (.serialized yaml)
        { s with
          yamlText := yaml
          yamlErrors := [] }
  | validated {graph : G} {issues : List Severity} (hcall : r.call = .validate graph)
      (hepoch : r.epoch = s.epoch) :
      Arrival ops s r (.validated issues) { s with validation := some ⟨graph, issues⟩ }
  | saved {graph : G} {issues : Option (List Severity)} (hcall : r.call = .save graph)
      (hepoch : r.epoch = s.epoch) :
      Arrival ops s r (.saved issues)
        { s with
          savedSha := some (ops.contentSha graph)
          sha := some (ops.contentSha graph)
          validation := (issues.map fun issues => ⟨graph, issues⟩).or s.validation }

namespace Store

variable {s s' : Store G Sha} {ops : Ops G Sha Elem} {r : Request G Sha}

omit [DecidableEq G] in
theorem kept_refl (s : Store G Sha) : Kept s s := ⟨s.quiet_refl, rfl, rfl⟩

omit [DecidableEq G] in
theorem late_or_timely {epoch : ℕ} {late timely : Store G Sha}
    (h : (if epoch ≠ s.epoch then some late else some timely) = some s') :
    (epoch ≠ s.epoch ∧ late = s') ∨ (epoch = s.epoch ∧ timely = s') := by
  split at h
  · exact .inl ⟨‹_›, Option.some.inj h⟩
  · exact .inr ⟨not_not.mp ‹_›, Option.some.inj h⟩

theorem keptText_loadGraph (s : Store G Sha) (graph : G) (sha : Option Sha) :
    KeptText s (s.loadGraph graph sha) := by
  have hopen : ∀ s : Store G Sha, KeptText s s.openYaml := by
    intro s
    unfold openYaml
    split
    · split
      · exact ⟨rfl, rfl⟩
      · exact ⟨rfl, rfl⟩
    · exact ⟨rfl, rfl⟩
  obtain ⟨hsaved, htext⟩ := hopen (commit
    { s with
      validation := none
      selection := none
      yamlDirty := false } graph sha)
  exact ⟨hsaved.trans (commit_savedSha _ _ _), htext.trans (commit_yamlText _ _ _)⟩

variable {response : Response G}

theorem arrival_of_textArrived (hcall : r.call = .parseText)
    (h : s.textArrived ops r.epoch response = some s') : Arrival ops s r response s' := by
  have hidle : Kept s { s with applying := false } :=
    ⟨⟨rfl, rfl, rfl, fun h => h.congr rfl rfl rfl rfl⟩, rfl, rfl⟩
  cases response with
  | parsed graph =>
    rcases late_or_timely h with ⟨hlate, rfl⟩ | ⟨hepoch, rfl⟩
    · exact .kept nofun (fun _ => hlate) hidle
    · refine .text hcall hepoch ⟨?_, ?_, ?_, fun h => ?_⟩ ⟨?_, ?_⟩
      · simp
      · simp
      · simp
      · have hsound := replaced_commit
          { s with
            yamlErrors := []
            yamlDirty := false
            validation := none } graph (some (ops.contentSha graph))
        exact (hsound.sound h).congr rfl rfl rfl rfl
      · simp
      · simp
  | shapeErrors errors =>
    rcases late_or_timely h with ⟨-, rfl⟩ | ⟨-, rfl⟩
    · exact .kept nofun nofun hidle
    · exact .kept nofun nofun ⟨⟨rfl, rfl, rfl, fun h => h.congr rfl rfl rfl rfl⟩, rfl, rfl⟩
  | failed message =>
    cases h
    exact .kept nofun nofun hidle
  | _ => cases h

omit [DecidableEq G] in
theorem arrival_of_yamlArrived {graph : G} (hcall : r.call = .serialize graph)
    (h : s.yamlArrived r.epoch response = some s') :
    Arrival ops s r response s' := by
  cases response with
  | serialized yaml =>
    rcases late_or_timely h with ⟨hlate, rfl⟩ | ⟨hepoch, rfl⟩
    · exact .kept nofun (fun _ => hlate) s.kept_refl
    · exact .serialized hcall hepoch
  | shapeErrors errors =>
    rcases late_or_timely h with ⟨-, rfl⟩ | ⟨-, rfl⟩
    · exact .kept nofun nofun s.kept_refl
    · exact .kept nofun nofun ⟨⟨rfl, rfl, rfl, fun h => h.congr rfl rfl rfl rfl⟩, rfl, rfl⟩
  | failed message =>
    rcases late_or_timely h with ⟨-, rfl⟩ | ⟨-, rfl⟩
    · exact .kept nofun nofun s.kept_refl
    · exact .kept nofun nofun ⟨⟨rfl, rfl, rfl, fun h => h.congr rfl rfl rfl rfl⟩, rfl, rfl⟩
  | _ => cases h

omit [DecidableEq G] in
theorem arrival_of_validationArrived {graph : G} (hcall : r.call = .validate graph)
    (h : s.validationArrived r.epoch graph response = some s') :
    Arrival ops s r response s' := by
  cases response with
  | validated issues =>
    rcases late_or_timely h with ⟨hlate, rfl⟩ | ⟨hepoch, rfl⟩
    · exact .kept nofun (fun _ => hlate) s.kept_refl
    · exact .validated hcall hepoch
  | failed message =>
    rcases late_or_timely h with ⟨-, rfl⟩ | ⟨-, rfl⟩
    · exact .kept nofun nofun s.kept_refl
    · exact .kept nofun nofun ⟨⟨rfl, rfl, rfl, fun h => h.congr rfl rfl rfl rfl⟩, rfl, rfl⟩
  | _ => cases h

omit [DecidableEq G] in
theorem arrival_of_saveArrived {graph : G} (hcall : r.call = .save graph)
    (h : s.saveArrived ops r.epoch graph response = some s') :
    Arrival ops s r response s' := by
  cases response with
  | saved issues =>
    rcases late_or_timely h with ⟨hlate, rfl⟩ | ⟨hepoch, rfl⟩
    · exact .kept nofun (fun _ => hlate) s.kept_refl
    · exact .saved hcall hepoch
  | shapeErrors errors =>
    rcases late_or_timely h with ⟨-, rfl⟩ | ⟨-, rfl⟩
    · exact .kept nofun nofun s.kept_refl
    · exact .kept nofun nofun ⟨⟨rfl, rfl, rfl, fun h => h.congr rfl rfl rfl rfl⟩, rfl, rfl⟩
  | failed message =>
    cases h
    exact .kept nofun nofun s.kept_refl
  | _ => cases h

theorem arrival_of_graphLoaded {sha : Sha} (hcall : r.call = .load sha) {shaText : String}
    (h : s.graphLoaded ops shaText response = some s') :
    Arrival ops s r response s' := by
  cases response with
  | loaded graph =>
    cases h
    exact .loaded (by rw [hcall]; rfl) (s.loaded_loadGraph graph _) (s.keptText_loadGraph graph _)
  | notFound =>
    cases h
    exact .kept nofun nofun ⟨⟨rfl, rfl, rfl, fun h => h.congr rfl rfl rfl rfl⟩, rfl, rfl⟩
  | failed message =>
    cases h
    exact .kept nofun nofun s.kept_refl
  | _ => cases h

theorem arrival_of_runGraphArrived {runId : String} (hcall : r.call = .runGraph runId)
    (h : s.runGraphArrived response = some s') :
    Arrival ops s r response s' := by
  cases response with
  | loaded graph =>
    cases h
    exact .loaded (by rw [hcall]; rfl) (s.loaded_loadGraph graph _) (s.keptText_loadGraph graph _)
  | noGraph =>
    cases h
    exact .kept nofun nofun ⟨⟨rfl, rfl, rfl, fun h => h.congr rfl rfl rfl rfl⟩, rfl, rfl⟩
  | failed message =>
    cases h
    exact .kept nofun nofun s.kept_refl
  | _ => cases h

theorem arrival_of_candidateArrived {isNode : Bool} {index : ℕ} {select : Option (Option String)}
    {notice : Option String} (hcall : r.call = .parseCandidate isNode index select notice)
    (h : s.candidateArrived ops r.epoch isNode index select notice response = some s') :
    Arrival ops s r response s' := by
  cases response with
  | parsed graph =>
    rcases late_or_timely h with ⟨hlate, rfl⟩ | ⟨hepoch, rfl⟩
    · exact .kept nofun (fun _ => hlate)
        ⟨⟨rfl, rfl, rfl, fun h => h.congr rfl rfl rfl rfl⟩, rfl, rfl⟩
    · obtain ⟨hworking, hsha, hvalidation, hsound⟩ := replaced_commit
        { s with inspectorErrors := [] } graph (some (ops.contentSha graph))
      refine .candidate hcall hepoch ⟨hworking, hsha, hvalidation, fun h => ?_⟩ ⟨?_, ?_⟩
      · exact (hsound h).congr rfl rfl rfl rfl
      · simp
      · simp
  | shapeErrors errors =>
    rcases late_or_timely h with ⟨-, rfl⟩ | ⟨-, rfl⟩
    · exact .kept nofun nofun ⟨⟨rfl, rfl, rfl, fun h => h.congr rfl rfl rfl rfl⟩, rfl, rfl⟩
    · exact .kept nofun nofun ⟨⟨rfl, rfl, rfl, fun h => h.congr rfl rfl rfl rfl⟩, rfl, rfl⟩
  | failed message =>
    cases h
    exact .kept nofun nofun ⟨⟨rfl, rfl, rfl, fun h => h.congr rfl rfl rfl rfl⟩, rfl, rfl⟩
  | _ => cases h

theorem arrival_of_arrive {shaText : Sha → String} (h : s.arrive ops shaText r response = some s') :
    Arrival ops s r response s' := by
  unfold arrive at h
  split at h
  · rename_i hcall
    exact arrival_of_textArrived hcall h
  · rename_i hcall
    exact arrival_of_yamlArrived hcall h
  · rename_i hcall
    exact arrival_of_validationArrived hcall h
  · rename_i hcall
    exact arrival_of_saveArrived hcall h
  · rename_i hcall
    exact arrival_of_graphLoaded hcall h
  · rename_i hcall
    exact arrival_of_runGraphArrived hcall h
  · rename_i hcall
    exact arrival_of_candidateArrived hcall h

end Store

omit [DecidableEq G] in
/-- **Every response keeps what is known of the requests.** -/
theorem Arrival.sound {ops : Ops G Sha Elem} {s s' : Store G Sha} {r : Request G Sha}
    {response : Response G} (h : Arrival ops s r response s') (hsound : Sound s) : Sound s' := by
  cases h with
  | kept hloaded hlate h => exact h.sound hsound
  | loaded hcall h htext => exact h.sound hsound.1
  | text hcall hepoch h htext => exact h.sound hsound.1
  | candidate hcall hepoch h htext => exact h.sound hsound.1
  | serialized hcall hepoch => exact hsound.congr rfl rfl rfl rfl
  | validated hcall hepoch => exact hsound.congr rfl rfl rfl rfl
  | saved hcall hepoch => exact hsound.congr rfl rfl rfl rfl

/-! ## 5.  Runs -/

variable [DecidableEq Sha] {ops : Ops G Sha Elem} {shaText : Sha → String}

/-- **What one step does**: an operation, or the arrival of the response to a request that is taken
from those in flight. -/
inductive Advance (ops : Ops G Sha Elem) (s : Store G Sha) : Event G Sha Elem → Store G Sha → Prop
  | operation {e : Event G Sha Elem} {s' : Store G Sha}
      (hlocal : ∀ i response, e ≠ .response i response) (h : Store.Operation ops s e s') :
      Advance ops s e s'
  | response {i : ℕ} {r : Request G Sha} {response : Response G} {s' : Store G Sha}
      (hr : s.inFlight[i]? = some r)
      (h : Arrival ops { s with inFlight := s.inFlight.eraseIdx i } r response s') :
      Advance ops s (.response i response) s'

theorem advance_of_step {s s' : Store G Sha} {e : Event G Sha Elem}
    (h : step ops shaText s e = some s') : Advance ops s e s' := by
  cases e with
  | applyText =>
    cases h
    exact .operation nofun (.quiet rfl (s.quiet_applyText ops))
  | loadText text =>
    cases h
    exact .operation nofun (.quiet rfl (s.quiet_loadText ops text))
  | setYamlText text =>
    cases h
    exact .operation nofun (.quiet rfl (s.quiet_setYamlText text))
  | openYaml =>
    cases h
    exact .operation nofun (.quiet rfl s.quiet_openYaml)
  | loadGraph graph sha =>
    obtain ⟨hsha, h⟩ := Option.ite_none_right_eq_some.mp h
    cases h
    exact .operation nofun (.loaded rfl hsha (s.loaded_loadGraph graph sha))
  | newGraph =>
    cases h
    exact .operation nofun (.loaded rfl (.inl rfl) (s.loaded_loadGraph ops.emptyGraph none))
  | loadSha sha =>
    cases h
    exact .operation nofun (.quiet rfl (s.quiet_dispatch nofun nofun))
  | openRunCopy runId =>
    cases h
    exact .operation nofun (.quiet rfl (s.quiet_dispatch nofun nofun))
  | addNode type x y =>
    cases h
    exact .operation nofun (Store.operation_addNode type x y)
  | connect fromKey fromPort toKey toPort =>
    cases h
    exact .operation nofun (Store.operation_connect fromKey fromPort toKey toPort)
  | move key x y =>
    cases h
    exact .operation nofun (Store.operation_move key x y)
  | remove isNode key =>
    cases h
    exact .operation nofun (Store.operation_remove isNode key)
  | select key =>
    cases h
    exact .operation nofun (.quiet rfl (s.quiet_select key))
  | applyInspector next =>
    cases h
    exact .operation nofun (.quiet rfl (s.quiet_applyInspector ops next))
  | save =>
    cases h
    exact .operation nofun (.quiet rfl s.quiet_save)
  | undo =>
    cases h
    exact .operation nofun Store.operation_undo
  | redo =>
    cases h
    exact .operation nofun Store.operation_redo
  | validateTimer =>
    obtain ⟨-, h⟩ := Option.ite_none_right_eq_some.mp h
    cases h
    exact .operation nofun (.quiet rfl s.quiet_validateTimer)
  | catalogLoaded catalog =>
    cases h
    exact .operation nofun (.quiet rfl ⟨rfl, rfl, rfl, fun h => h.congr rfl rfl rfl rfl⟩)
  | response i response =>
    obtain ⟨r, hr, harrive⟩ := Option.bind_eq_some_iff.mp h
    exact .response hr (Store.arrival_of_arrive harrive)

omit [DecidableEq G] [DecidableEq Sha] in
theorem Store.Operation.sound {s s' : Store G Sha} {e : Event G Sha Elem}
    (h : Store.Operation ops s e s') (hsound : Sound s) : Sound s' := by
  cases h with
  | quiet hreplaces h => exact h.sound hsound
  | replaced hreplaces h => exact h.sound hsound.1
  | loaded hreplaces hsha h => exact h.sound hsound.1

/-- **A request of the present epoch is fresh**, in every state that is reached. -/
theorem sound_of_reachable {s : Store G Sha} (h : Reachable {} (step ops shaText) s) : Sound s := by
  refine Reachable.induct ⟨nofun, nofun⟩ ?_ h
  intro s e s' hs hsound haccepted
  cases advance_of_step haccepted with
  | operation hlocal h => exact h.sound hsound
  | @response i r response s' hr h => exact h.sound (hsound.eraseIdx i)

end Kroker.Editor
