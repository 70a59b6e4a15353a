import Kroker.Editor.InFlight

/-!
# What is known is known of the working copy

The store keeps a sha, "of the working copy, when known", and a validation; both are `Identified`
where they are of the present working copy.  A response is compared by its epoch, and the request of
a present epoch was sent from the present working copy, so that what the server answers is
identified (`Advance.identified_iff`).

Three operations put a graph in the place of the working copy and do not look at the validation: an
edit on the canvas, an edit in the inspector, and `undo` and `redo`, which do not look at the sha
either.  `identified_iff_keeps` is exact: a run is identified after each of its steps where each of
these finds that what is kept fits the graph it puts in place (`Keeps`).
-/

namespace Kroker.Editor

variable {G Sha Elem : Type}

/-! ## 1.  The invariant -/

/-- The sha is that of the working copy, and a graph that may run was validated as it stands. -/
def Identified (ops : Ops G Sha Elem) (s : Store G Sha) : Prop :=
  (s.sha ≠ none → s.sha = s.working.map ops.contentSha) ∧
    (s.runnable = true → s.validation.map (·.graph) = s.working)

/-- A graph with a sha may take the place of the working copy, under the validation that is kept. -/
def Fits (ops : Ops G Sha Elem) (s : Store G Sha) (graph : G) (sha : Option Sha) : Prop :=
  (sha ≠ none → sha = some (ops.contentSha graph)) ∧
    (s.runnable = true → s.validation.map (·.graph) = some graph)

/-- What a step has to find: what is kept fits the graph that is put in place.  The sha of an edit
in the inspector is the server's. -/
def Keeps (ops : Ops G Sha Elem) (s : Store G Sha) (e : Event G Sha Elem) : Prop :=
  (∀ graph sha, s.replaces? ops e = some (graph, sha) → Fits ops s graph sha) ∧
    ∀ i graph r, e = .response i (.parsed graph) → s.inFlight[i]? = some r →
      r.call ≠ .parseText → r.epoch = s.epoch →
      s.runnable = true → s.validation.map (·.graph) = some graph

instance [DecidableEq G] [DecidableEq Sha] (ops : Ops G Sha Elem) (s : Store G Sha) :
    Decidable (Identified ops s) :=
  inferInstanceAs (Decidable (_ ∧ _))

variable {s s' : Store G Sha}

theorem runnable_congr (h : s'.validation = s.validation) :
    s'.runnable = s.runnable := by
  rw [Store.runnable, Store.runnable, h]

variable {ops : Ops G Sha Elem}

theorem identified_congr (hworking : s'.working = s.working) (hsha : s'.sha = s.sha)
    (hvalidation : s'.validation = s.validation) : Identified ops s' ↔ Identified ops s := by
  rw [Identified, Identified, runnable_congr hvalidation, hworking, hsha, hvalidation]

theorem Quiet.identified_iff (h : Quiet s s') :
    Identified ops s' ↔ Identified ops s :=
  identified_congr h.working h.sha h.validation

theorem Replaced.identified_iff {graph : G} {sha : Option Sha} (h : Replaced s s' graph sha) :
    Identified ops s' ↔ Fits ops s graph sha := by
  rw [Identified, Fits, runnable_congr h.validation, h.working, h.sha, h.validation]
  rfl

theorem Loaded.identified {graph : G} {sha : Option Sha} (h : Loaded s s' graph sha)
    (hsha : sha = none ∨ sha = some (ops.contentSha graph)) : Identified ops s' := by
  constructor
  · intro hsome
    rw [h.sha] at hsome ⊢
    rw [h.working]
    rcases hsha with rfl | rfl
    · exact absurd rfl hsome
    · rfl
  · intro hrunnable
    rw [Store.runnable, h.validation] at hrunnable
    exact absurd hrunnable (by simp)

/-! ## 2.  Steps -/

/-- **Every operation** keeps the invariant exactly where it fits. -/
theorem Store.Operation.identified_iff {e : Event G Sha Elem} (h : Store.Operation ops s e s')
    (hs : Identified ops s) :
    Identified ops s' ↔
      ∀ graph sha, s.replaces? ops e = some (graph, sha) → Fits ops s graph sha := by
  cases h with
  | quiet hreplaces h =>
    rw [h.identified_iff, hreplaces]
    exact iff_of_true hs nofun
  | @replaced graph sha hreplaces h =>
    rw [h.identified_iff, hreplaces]
    constructor
    · intro hfits graph' sha' heq
      cases heq
      exact hfits
    · intro hfits
      exact hfits graph sha rfl
  | loaded hreplaces hsha h =>
    rw [hreplaces]
    exact iff_of_true (h.identified hsha) nofun

theorem identified_validated {graph : G} (hs : Identified ops s) (hworking : s.working = some graph)
    (issues : List Severity) :
    Identified ops { s with validation := some ⟨graph, issues⟩ } :=
  ⟨hs.1, fun _ => hworking.symm⟩

theorem identified_saved {graph : G} (hs : Identified ops s) (hworking : s.working = some graph)
    (issues : Option (List Severity)) :
    Identified ops
      { s with
        savedSha := some (ops.contentSha graph)
        sha := some (ops.contentSha graph)
        validation := (issues.map fun issues => ⟨graph, issues⟩).or s.validation } := by
  constructor
  · intro _
    simp [hworking]
  · cases issues with
    | none => exact hs.2
    | some issues => exact fun _ => hworking.symm

/-- **Every response** keeps the invariant, except that an edit in the inspector has to fit. -/
theorem Arrival.identified_iff {r : Request G Sha} {response : Response G}
    (h : Arrival ops s r response s') (hs : Identified ops s)
    (hfresh : r.epoch = s.epoch → Fresh s r) :
    Identified ops s' ↔
      ∀ graph, response = .parsed graph → r.call ≠ .parseText → r.epoch = s.epoch →
        s.runnable = true → s.validation.map (·.graph) = some graph := by
  cases h with
  | kept hloaded hlate h =>
    rw [h.identified_iff]
    refine iff_of_true hs fun graph hparsed _ hepoch => ?_
    exact absurd hepoch (hlate (by rw [hparsed]; rfl))
  | @loaded graph sha s' hcall h htext =>
    refine iff_of_true (h.identified ?_) nofun
    unfold Call.loadedSha? at hcall
    split at hcall
    · exact .inr (Option.some.inj hcall).symm
    · exact .inl (Option.some.inj hcall).symm
    · cases hcall
  | text hcall hepoch h htext =>
    exact iff_of_true (h.identified (.inr rfl)) fun graph _ hother => absurd hcall hother
  | @candidate graph s' isNode index select notice hcall hepoch h htext =>
    rw [h.identified_iff]
    constructor
    · intro hfits graph' hparsed _ _
      cases hparsed
      exact hfits.2
    · intro hfits
      exact ⟨fun _ => rfl, hfits graph rfl (by rw [hcall]; nofun) hepoch⟩
  | serialized hcall hepoch => exact iff_of_true ((identified_congr rfl rfl rfl).mpr hs) nofun
  | @validated graph issues hcall hepoch =>
    have hworking := (hfresh hepoch).graph graph (by rw [hcall]; rfl)
    exact iff_of_true (identified_validated hs hworking issues) nofun
  | @saved graph issues hcall hepoch =>
    have hworking := (hfresh hepoch).graph graph (by rw [hcall]; rfl)
    exact iff_of_true (identified_saved hs hworking issues) nofun

/-- **Every step** keeps the invariant exactly where it finds what it has to. -/
theorem Advance.identified_iff {e : Event G Sha Elem} (h : Advance ops s e s')
    (hs : Identified ops s) (hsound : Sound s) :
    Identified ops s' ↔ Keeps ops s e := by
  cases h with
  | operation hlocal h =>
    rw [h.identified_iff hs, Keeps]
    refine (and_iff_left fun i graph r he => ?_).symm
    exact absurd he (hlocal i _)
  | @response i r response s' hr h =>
    have hfresh : r.epoch = s.epoch → Fresh { s with inFlight := s.inFlight.eraseIdx i } r := by
      intro hepoch
      obtain ⟨hunmoved, hgraph, htyped⟩ := hsound.2 r (List.mem_of_getElem? hr) hepoch
      exact ⟨hunmoved, hgraph, htyped⟩
    rw [h.identified_iff ((identified_congr rfl rfl rfl).mpr hs) hfresh, Keeps]
    constructor
    · intro hparsed
      refine ⟨nofun, fun i' graph r' he hr' hcall hepoch => ?_⟩
      cases he
      cases hr.symm.trans hr'
      exact hparsed graph rfl hcall hepoch
    · intro hkeeps graph hparsed
      exact hkeeps.2 i graph r (by rw [hparsed]) hr

variable [DecidableEq G] [DecidableEq Sha]

/-- **The sha and the validation are those of the working copy exactly where each step finds that
they fit** the graph it puts in place. -/
theorem identified_iff_keeps (ops : Ops G Sha Elem) (shaText : Sha → String)
    {log : List (Transition (Store G Sha) (Event G Sha Elem))} {s : Store G Sha}
    (run : Run {} (step ops shaText) log s) :
    (∀ x ∈ log, Identified ops x.after) ↔ ∀ x ∈ log, Keeps ops x.before x.event := by
  refine Run.forall_after_iff ⟨nofun, nofun⟩ ?_ run
  intro s e s' hreachable hs haccepted
  exact (advance_of_step haccepted).identified_iff hs (sound_of_reachable hreachable)

/-! ## 3.  Samples -/

def nodeOps : Ops (List String) (List String) Unit where
  emptyGraph := []
  addNode graph _ defaultId _ _ := .ok (some (graph ++ [defaultId])) (some (some defaultId)) none
  payloadRefusal _ _ _ _ _ _ := some "unknown port"
  connect _ _ _ _ _ := .refused "" "unknown port"
  moveNode _ _ _ _ := .ok none none none
  removeElement graph _ key := .ok (some (graph.erase key)) (some none) none
  nodeIndex graph key := graph.idxOf? key
  edgeIndex _ _ := none
  nodeEditCandidate _ _ _ := .refused "id" "duplicate id"
  edgeEditCandidate _ _ _ := .refused "" "no such edge"
  bodyBytes text := text.length
  contentSha graph := graph

def wholeCatalog : Catalog where
  canValidate := true
  canSave := true
  maxGraphBytes := 1000
  defaultId type := some type

abbrev NodeStore := Store (List String) (List String)

abbrev NodeEvent := Event (List String) (List String) Unit

def nodeStep : NodeStore → NodeEvent → Option NodeStore := step nodeOps String.join

def saved : List NodeEvent :=
  [.catalogLoaded wholeCatalog, .loadText "plan", .response 0 (.parsed ["plan"]), .validateTimer,
    .response 0 (.validated [.error]), .addNode "code" 0 0, .save,
    .response 0 (.saved (some [.warning]))]

theorem identified_iff_keeps_sample :
    ∃ log s, Run {} nodeStep log s ∧ (∀ x ∈ log, Keeps nodeOps x.before x.event) ∧
      s.sha = some ["plan", "code"] ∧ s.runnable = true := by
  have heval : (runScript nodeStep ([], {}) saved).map (fun q =>
      (q.1.all fun x => decide (Identified nodeOps x.after), q.2.sha, q.2.runnable)) =
      some (true, some ["plan", "code"], true) := by decide +kernel
  obtain ⟨log, s, run, hview⟩ := Run.exists_of_runScript heval
  obtain ⟨hall, hend⟩ := Prod.mk.inj hview
  obtain ⟨hsha, hrunnable⟩ := Prod.mk.inj hend
  have hidentified : ∀ x ∈ log, Identified nodeOps x.after :=
    fun x hx => of_decide_eq_true (List.all_eq_true.mp hall x hx)
  exact ⟨log, s, run, (identified_iff_keeps nodeOps String.join run).mp hidentified, hsha,
    hrunnable⟩

/-- Two graphs are entered, and the second is undone. -/
def undone : List NodeEvent :=
  [.loadText "plan", .response 0 (.parsed ["plan"]), .loadText "plan code",
    .response 0 (.parsed ["plan", "code"]), .undo]

def extended : List NodeEvent :=
  [.catalogLoaded wholeCatalog, .loadText "plan", .response 0 (.parsed ["plan"]), .validateTimer,
    .response 0 (.validated []), .addNode "code" 0 0]

/-- **After an undo the sha is that of the graph undone; after an edit the graph may run that was
not validated.** -/
theorem identity_lost :
    (∃ log s, Run {} nodeStep log s ∧ s.working = some ["plan"] ∧ s.sha = some ["plan", "code"] ∧
        ¬Identified nodeOps s) ∧
      ∃ log s, Run {} nodeStep log s ∧ s.working = some ["plan", "code"] ∧ s.runnable = true ∧
        s.validation.map (·.graph) = some ["plan"] ∧ ¬Identified nodeOps s := by
  constructor
  · have heval : (runScript nodeStep ([], {}) undone).map (fun q => (q.2.working, q.2.sha)) =
        some (some ["plan"], some ["plan", "code"]) := by decide +kernel
    obtain ⟨log, s, run, hview⟩ := Run.exists_of_runScript heval
    obtain ⟨hworking, hsha⟩ := Prod.mk.inj hview
    refine ⟨log, s, run, hworking, hsha, fun h => ?_⟩
    have hnamed := h.1 (by rw [hsha]; nofun)
    rw [hsha, hworking] at hnamed
    exact absurd hnamed (by decide)
  · have heval : (runScript nodeStep ([], {}) extended).map (fun q =>
        (q.2.working, q.2.runnable, q.2.validation.map (·.graph))) =
        some (some ["plan", "code"], true, some ["plan"]) := by decide +kernel
    obtain ⟨log, s, run, hview⟩ := Run.exists_of_runScript heval
    obtain ⟨hworking, hview⟩ := Prod.mk.inj hview
    obtain ⟨hrunnable, hvalidation⟩ := Prod.mk.inj hview
    refine ⟨log, s, run, hworking, hrunnable, hvalidation, fun h => ?_⟩
    have hvalidated := h.2 hrunnable
    rw [hvalidation, hworking] at hvalidated
    exact absurd hvalidated (by decide)

end Kroker.Editor
