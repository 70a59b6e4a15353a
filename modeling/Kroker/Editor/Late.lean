import Kroker.Editor.Identity

/-!
# Late responses

"Every async response carries the epoch it was dispatched at and is discarded if the working copy
moved since."  A load by sha and the copy of a run's graph carry none, and typing begins no epoch.
`respectful_iff_timely` says exactly which runs keep newer work: those in which a loaded graph comes
before the working copy has changed, or changes nothing, and a serialized text comes before text is
typed, or is that text (`Timely`).
-/

namespace Kroker.Editor

variable {G Sha Elem : Type}

/-- The work that a late response is not to touch. -/
structure Untouched (s s' : Store G Sha) : Prop where
  working : s'.working = s.working
  sha : s'.sha = s.sha
  savedSha : s'.savedSha = s.savedSha
  validation : s'.validation = s.validation
  yamlText : s'.yamlText = s.yamlText

/-- A response to a request since which the working copy has changed touches nothing, and a
serialized text does not replace what was typed since. -/
def Respectful (s : Store G Sha) (e : Event G Sha Elem) (s' : Store G Sha) : Prop :=
  ∀ i response r, e = .response i response → s.inFlight[i]? = some r →
    (r.moved = true → Untouched s s') ∧
      (r.call.isSerialize = true → r.typed = true → s'.yamlText = s.yamlText)

/-- What a step has to find: a loaded graph is not late, or is the working copy already; where text
is typed, a serialized text of the present epoch is that text. -/
def Timely (ops : Ops G Sha Elem) (s : Store G Sha) (e : Event G Sha Elem) : Prop :=
  (∀ i graph r sha, e = .response i (.loaded graph) → s.inFlight[i]? = some r →
      r.call.loadedSha? ops graph = some sha → r.moved = true →
      s.working = some graph ∧ s.sha = sha ∧ s.validation = none) ∧
    ∀ i yaml r, e = .response i (.serialized yaml) → s.inFlight[i]? = some r →
      r.epoch = s.epoch → s.yamlDirty = true → yaml = s.yamlText

/-! ## 1.  One response -/

section Arrival

variable {ops : Ops G Sha Elem} {s s' : Store G Sha} {r : Request G Sha} {i : ℕ}
  {response : Response G}

theorem respectful_of_unmoved (hr : s.inFlight[i]? = some r) (hmoved : r.moved = false)
    (hserialize : r.call.isSerialize = false) :
    Respectful s (.response i response : Event G Sha Elem) s' := by
  intro i' response' r' he hr'
  cases he
  cases hr.symm.trans hr'
  constructor
  · intro hlate
    rw [hmoved] at hlate
    cases hlate
  · intro hcall
    rw [hserialize] at hcall
    cases hcall

theorem Kept.respectful (h : Kept s s') (e : Event G Sha Elem) : Respectful s e s' :=
  fun _ _ _ _ _ =>
    ⟨fun _ => ⟨h.working, h.sha, h.savedSha, h.validation, h.yamlText⟩, fun _ _ => h.yamlText⟩

/-- **A loaded graph** is used whenever it comes, and touches nothing only where it changes
nothing. -/
theorem Loaded.untouched_iff {graph : G} {sha : Option Sha} (h : Loaded s s' graph sha)
    (htext : KeptText s s') :
    Untouched s s' ↔ s.working = some graph ∧ s.sha = sha ∧ s.validation = none := by
  constructor
  · intro hsame
    exact ⟨hsame.working.symm.trans h.working, hsame.sha.symm.trans h.sha,
      hsame.validation.symm.trans h.validation⟩
  · rintro ⟨hworking, hsha, hvalidation⟩
    exact ⟨h.working.trans hworking.symm, h.sha.trans hsha.symm, htext.savedSha,
      h.validation.trans hvalidation.symm, htext.yamlText⟩

theorem isSerialize_of_loadedSha? {call : Call G Sha} {graph : G} {sha : Option Sha}
    (h : call.loadedSha? ops graph = some sha) : call.isSerialize = false := by
  cases call with
  | serialize graph => cases h
  | parseText => rfl
  | validate graph => rfl
  | save graph => rfl
  | load sha => rfl
  | runGraph runId => rfl
  | parseCandidate isNode index select notice => rfl

/-- **Every response is respectful exactly where it is timely.** -/
theorem Arrival.respectful_iff (hr : s.inFlight[i]? = some r)
    (hfresh : r.epoch = s.epoch → Fresh s r)
    (h : Arrival ops { s with inFlight := s.inFlight.eraseIdx i } r response s') :
    Respectful s (.response i response : Event G Sha Elem) s' ↔
      Timely ops s (.response i response) := by
  cases h with
  | kept hloaded hlate h =>
    have hkept : Kept s s' :=
      ⟨⟨h.working, h.sha, h.validation, fun hs => h.sound (hs.eraseIdx i)⟩, h.savedSha, h.yamlText⟩
    refine iff_of_true (hkept.respectful _) ⟨fun i' graph r' sha he => ?_, fun i' yaml r' he hr' => ?_⟩
    · cases he
      exact absurd rfl (hloaded graph)
    · cases he
      cases hr.symm.trans hr'
      exact fun hepoch => absurd hepoch (hlate rfl)
  | @loaded graph sha s' hcall h htext =>
    have huntouched : Untouched s s' ↔ s.working = some graph ∧ s.sha = sha ∧ s.validation = none :=
      Loaded.untouched_iff (s := s) ⟨h.working, h.sha, h.validation,
        fun hs => h.sound fun r hr => hs r (List.mem_of_mem_eraseIdx hr)⟩
        ⟨htext.savedSha, htext.yamlText⟩
    constructor
    · intro hrespectful
      refine ⟨fun i' graph' r' sha' he hr' hcall' hmoved => ?_, nofun⟩
      cases he
      cases hr.symm.trans hr'
      cases hcall.symm.trans hcall'
      exact huntouched.mp ((hrespectful i _ r rfl hr).1 hmoved)
    · intro htimely i' response' r' he hr'
      cases he
      cases hr.symm.trans hr'
      constructor
      · intro hmoved
        exact huntouched.mpr (htimely.1 i graph r sha rfl hr hcall hmoved)
      · intro hserialize
        rw [isSerialize_of_loadedSha? hcall] at hserialize
        cases hserialize
  | text hcall hepoch h htext =>
    refine iff_of_true ?_ ⟨nofun, nofun⟩
    exact respectful_of_unmoved hr (hfresh hepoch).unmoved (by rw [hcall]; rfl)
  | candidate hcall hepoch h htext =>
    refine iff_of_true ?_ ⟨nofun, nofun⟩
    exact respectful_of_unmoved hr (hfresh hepoch).unmoved (by rw [hcall]; rfl)
  | validated hcall hepoch =>
    refine iff_of_true ?_ ⟨nofun, nofun⟩
    exact respectful_of_unmoved hr (hfresh hepoch).unmoved (by rw [hcall]; rfl)
  | saved hcall hepoch =>
    refine iff_of_true ?_ ⟨nofun, nofun⟩
    exact respectful_of_unmoved hr (hfresh hepoch).unmoved (by rw [hcall]; rfl)
  | @serialized graph yaml hcall hepoch =>
    -- Text has been typed since exactly where the text is dirty.
    have hserialize : r.call.isSerialize = true := by rw [hcall]; rfl
    have htyped := (hfresh hepoch).typed hserialize
    constructor
    · intro hrespectful
      refine ⟨nofun, fun i' yaml' r' he hr' _ hdirty => ?_⟩
      cases he
      exact (hrespectful i _ r rfl hr).2 hserialize (htyped.trans hdirty)
    · intro htimely i' response' r' he hr'
      cases he
      cases hr.symm.trans hr'
      constructor
      · intro hmoved
        rw [(hfresh hepoch).unmoved] at hmoved
        cases hmoved
      · intro _ htyped'
        exact htimely.2 i yaml r rfl hr hepoch (htyped.symm.trans htyped')

end Arrival

/-! ## 2.  Runs -/

variable [DecidableEq G] [DecidableEq Sha]

/-- **Late responses keep newer work exactly in the runs whose responses are timely.** -/
theorem respectful_iff_timely (ops : Ops G Sha Elem) (shaText : Sha → String)
    {log : List (Transition (Store G Sha) (Event G Sha Elem))} {s : Store G Sha}
    (run : Run {} (step ops shaText) log s) :
    (∀ x ∈ log, Respectful x.before x.event x.after) ↔ ∀ x ∈ log, Timely ops x.before x.event := by
  refine forall₂_congr fun x hx => ?_
  obtain ⟨hreachable, haccepted, -⟩ := run.reachable_of_mem x hx
  have hsound := sound_of_reachable hreachable
  rcases x with ⟨s, e, s'⟩
  cases advance_of_step haccepted with
  | operation hlocal h =>
    refine iff_of_true (fun i response r he => absurd he (hlocal i response)) ⟨?_, ?_⟩
    · exact fun i graph r sha he => absurd he (hlocal i _)
    · exact fun i yaml r he => absurd he (hlocal i _)
  | @response i r response s' hr h =>
    exact h.respectful_iff hr (hsound.2 r (List.mem_of_getElem? hr))

/-! ## 3.  Samples -/

omit [DecidableEq G] [DecidableEq Sha] in
/-- A step is timely where nothing has changed since any request in flight. -/
theorem timely_of_unchanged {ops : Ops G Sha Elem} {s : Store G Sha} {e : Event G Sha Elem}
    (hmoved : ∀ r ∈ s.inFlight, r.moved = false) (hdirty : s.yamlDirty = false) :
    Timely ops s e := by
  constructor
  · intro i graph r sha _ hr _ hlate
    rw [hmoved r (List.mem_of_getElem? hr)] at hlate
    cases hlate
  · intro i yaml r _ _ _ htyped
    rw [hdirty] at htyped
    cases htyped

/-- A graph is opened with its text, and a saved one is asked for. -/
def prompt : List NodeEvent :=
  [.loadGraph ["plan"] none, .loadSha ["code"], .response 0 (.serialized "nodes: [plan]"),
    .response 0 (.loaded ["code"])]

theorem respectful_iff_timely_sample :
    ∃ log s, Run {} nodeStep log s ∧ (∀ x ∈ log, Respectful x.before x.event x.after) ∧
      s.working = some ["code"] ∧ s.yamlText = "nodes: [plan]" := by
  have heval : (runScript nodeStep ([], {}) prompt).map (fun q =>
      (q.1.all fun x => (x.before.inFlight.all fun r => !r.moved) && !x.before.yamlDirty,
        q.2.working, q.2.yamlText)) = some (true, some ["code"], "nodes: [plan]") := by
    decide +kernel
  obtain ⟨log, s, run, hview⟩ := Run.exists_of_runScript heval
  obtain ⟨hall, hend⟩ := Prod.mk.inj hview
  obtain ⟨hworking, htext⟩ := Prod.mk.inj hend
  have htimely : ∀ x ∈ log, Timely nodeOps x.before x.event := by
    intro x hx
    have hunchanged := List.all_eq_true.mp hall x hx
    simp only [Bool.and_eq_true, List.all_eq_true, Bool.not_eq_true'] at hunchanged
    exact timely_of_unchanged hunchanged.1 hunchanged.2
  exact ⟨log, s, run, (respectful_iff_timely nodeOps String.join run).mpr htimely, hworking, htext⟩

def overtaken : List NodeEvent :=
  [.catalogLoaded wholeCatalog, .loadSha ["code"], .newGraph, .addNode "plan" 0 0]

def typedOver : List NodeEvent := [.newGraph, .setYamlText "nodes: [plan]"]

/-- **A saved graph that comes late replaces the graph begun since, and a serialized text what was
typed since.** -/
theorem late_overwrites :
    (∃ log s s', Run {} nodeStep log s ∧
        nodeStep s (.response 0 (.loaded ["code"])) = some s' ∧
        s.working = some ["plan"] ∧ s'.working = some ["code"] ∧
        ¬Respectful s (.response 0 (.loaded ["code"]) : NodeEvent) s') ∧
      ∃ log s s', Run {} nodeStep log s ∧
        nodeStep s (.response 0 (.serialized "nodes: []")) = some s' ∧
        s.yamlText = "nodes: [plan]" ∧ s'.yamlText = "nodes: []" ∧
        ¬Respectful s (.response 0 (.serialized "nodes: []") : NodeEvent) s' := by
  constructor
  · have heval : (runScript nodeStep ([], {}) overtaken).map (fun q =>
        (q.2.working, q.2.inFlight[0]?.map (·.moved),
          (nodeStep q.2 (.response 0 (.loaded ["code"]))).map (·.working))) =
        some (some ["plan"], some true, some (some ["code"])) := by decide +kernel
    obtain ⟨log, s, run, hview⟩ := Run.exists_of_runScript heval
    obtain ⟨hworking, hview⟩ := Prod.mk.inj hview
    obtain ⟨hrequest, hafter⟩ := Prod.mk.inj hview
    obtain ⟨r, hr, hmoved⟩ := Option.map_eq_some_iff.mp hrequest
    obtain ⟨s', haccepted, hworking'⟩ := Option.map_eq_some_iff.mp hafter
    refine ⟨log, s, s', run, haccepted,
      hworking, hworking', fun h => ?_⟩
    have hsame := ((h 0 _ r rfl hr).1 hmoved).working
    rw [hworking, hworking'] at hsame
    exact absurd hsame (by decide)
  · have heval : (runScript nodeStep ([], {}) typedOver).map (fun q =>
        (q.2.yamlText, q.2.inFlight[0]?.map (fun r => (r.call.isSerialize, r.typed)),
          (nodeStep q.2 (.response 0 (.serialized "nodes: []"))).map (·.yamlText))) =
        some ("nodes: [plan]", some (true, true), some "nodes: []") := by decide +kernel
    obtain ⟨log, s, run, hview⟩ := Run.exists_of_runScript heval
    obtain ⟨htext, hview⟩ := Prod.mk.inj hview
    obtain ⟨hrequest, hafter⟩ := Prod.mk.inj hview
    obtain ⟨r, hr, hflags⟩ := Option.map_eq_some_iff.mp hrequest
    obtain ⟨hserialize, htyped⟩ := Prod.mk.inj hflags
    obtain ⟨s', haccepted, htext'⟩ := Option.map_eq_some_iff.mp hafter
    refine ⟨log, s, s', run, haccepted,
      htext, htext', fun h => ?_⟩
    have hsame := (h 0 _ r rfl hr).2 hserialize htyped
    rw [htext, htext'] at hsame
    exact absurd hsame (by decide)

end Kroker.Editor
