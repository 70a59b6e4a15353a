import Kroker.Graph.Issue

/-!
# Re-entry over a fail edge

`fail_reentry` of `graph/run_view.py` says of an activation whether it runs again because something
downstream of it failed.  It does not see the edge an input came over: it reads the refs the
activation is issued with, which the dispatcher mints as `<activation>.<port>`.
-/

namespace Kroker

namespace GraphRouter

/-! ## 1.  The indicator -/

/-- The last part of a ref. -/
def refPort (ref : String) : String := (rpartition ref '.').2.2

def failReentry (t : Topology) (a : Activation) : Option ℕ :=
  let hasFailBack := (t.inPortsOf a.nodeId).toList.any fun w =>
    w.2.backEdges.any fun eid => (t.endpoints eid).sourcePort = "fail"
  if !hasFailBack then none
  else if a.inputs.toList.any fun value => value.2.refs.any fun r => refPort r = "fail" then some 1
  else some 0

def minted : Event → Bool
  | .emitted e => e.payloadRef = e.activationId ++ "." ++ e.port
  | .halt _ => true

/-- The dispatcher mints the ref of every emission. -/
def Minted (log : List (Transition Step Event)) : Prop := ∀ x ∈ log, minted x.event = true

section Reentry

variable {t : Topology}

/-- A loop edge into a node starts at a `fail` port. -/
def FailBack (t : Topology) (n eid : String) (k : EdgeKey) : Prop :=
  t.IsBack eid k ∧ k.target = n ∧ k.sourcePort = "fail"

/-- The latest emission that reset the node traversed a loop edge into it that starts at a `fail`
port. -/
def ResetByFail (t : Topology) (past : List Applied) (n : String) : Prop :=
  ∃ eid k newer r older, FailBack t n eid k ∧ past = newer ++ r :: older ∧ r.loop t = some eid ∧
    ∀ x ∈ newer, x.resets t n = false

/-- The same, and the source of the edge has not been reset since. -/
def ReenteredByFail (t : Topology) (past : List Applied) (n : String) : Prop :=
  ∃ eid k newer r older, FailBack t n eid k ∧ past = newer ++ r :: older ∧ r.loop t = some eid ∧
    ∀ x ∈ newer, x.resets t n = false ∧ x.resets t k.source = false

/-- No forward edge into the node brings anything from a `fail` port. -/
def NoForwardFail (t : Topology) (w : RouterState) (n : String) : Prop :=
  ∀ eid k, t.IsForward eid k → k.target = n → k.sourcePort = "fail" → eid ∉ w.slots

theorem exists_failBack_iff (hlegal : t.Legal) (n : String) :
    ((t.inPortsOf n).toList.any fun w => w.2.backEdges.any fun eid =>
      (t.endpoints eid).sourcePort = "fail") = true ↔ ∃ eid k, FailBack t n eid k := by
  simp only [List.any_eq_true, decide_eq_true_eq]
  constructor
  · rintro ⟨w, hw, eid, heid, hfail⟩
    have hport := hlegal.inPort _ _ _ (Std.ExtTreeMap.mem_toList_iff_getElem?_eq_some.mp hw)
    obtain ⟨k, hk, htarget, -⟩ := (hport.mem_backEdges eid).mp heid
    rw [Topology.endpoints_of_get? hk.1] at hfail
    exact ⟨eid, k, hk, htarget, hfail⟩
  · rintro ⟨eid, k, hk, rfl, hfail⟩
    obtain ⟨w, hw⟩ := hlegal.inPort_of_edge eid k hk.1
    refine ⟨(k.targetPort, w), Std.ExtTreeMap.mem_toList_iff_getElem?_eq_some.mpr hw, eid, ?_, ?_⟩
    · exact ((hlegal.inPort _ _ _ hw).mem_backEdges eid).mpr ⟨k, hk, rfl, rfl⟩
    · rw [Topology.endpoints_of_get? hk.1, hfail]

theorem failReentry_eq (hlegal : t.Legal) (a : Activation) :
    (failReentry t a = none ↔ ¬∃ eid k, FailBack t a.nodeId eid k) ∧
      (failReentry t a = some 1 ↔ (∃ eid k, FailBack t a.nodeId eid k) ∧
        ∃ ref ∈ a.refs, refPort ref = "fail") ∧
      failReentry t a ∈ [none, some 0, some 1] := by
  have hrefs : (a.inputs.toList.any fun value => value.2.refs.any fun r => refPort r = "fail") =
      true ↔ ∃ ref ∈ a.refs, refPort ref = "fail" := by
    simp only [List.any_eq_true, decide_eq_true_eq, Activation.refs, List.mem_flatMap]
    constructor
    · rintro ⟨p, hp, ref, href, hfail⟩
      exact ⟨ref, ⟨p, hp, href⟩, hfail⟩
    · rintro ⟨ref, ⟨p, hp, href⟩, hfail⟩
      exact ⟨p, hp, ref, href, hfail⟩
  rw [← exists_failBack_iff hlegal, ← hrefs, failReentry]
  generalize (t.inPortsOf a.nodeId).toList.any _ = back
  generalize a.inputs.toList.any _ = fails
  cases back <;> cases fails <;> decide

/-! ## 2.  Refs and edges -/

theorem refPort_minted {activationId port : String} (h : isId port = true) :
    refPort (activationId ++ "." ++ port) = port := by
  have hdot : '.' ∉ port.toList := notMem_of_isId h (by decide)
  have hsplit := rpartition_append activationId port '.' hdot
  rw [refPort, show "." = String.singleton '.' from rfl, hsplit]

theorem isId_sourcePort {proposer_model_error : String → String → Option String}
    {graph : PipelineGraph} {registry : Registry} {roles : Dict RoleConfig}
    (hval : validate proposer_model_error graph registry roles =
      { problems := [], topology := some t }) {eid : String} {k : EdgeKey}
    (hk : t.edges[eid]? = some k) : isId k.sourcePort = true := by
  obtain ⟨hclean, rfl⟩ := built_of_validate (by rw [hval])
  obtain ⟨e, -, -, rfl⟩ := (get?_edges (clean_of_validate hclean) eid k).mp hk
  exact e.sourcePort_shape

variable {log : List (Transition Step Event)}

theorem refPort_of_contents (hminted : Minted log) {eid ref : String} {k : EdgeKey}
    (hk : t.edges[eid]? = some k) (hshape : isId k.sourcePort = true)
    (h : contents t (history log) eid = some ref) :
    refPort ref = k.sourcePort := by
  rw [contents, hk, Option.bind_some, carried_eq_some_iff] at h
  obtain ⟨newer, r, older, heq, -, hport, href, -⟩ := h
  have hmem : r ∈ history log := heq ▸ List.mem_append_right _ List.mem_cons_self
  obtain ⟨x, hx, happlied⟩ := List.mem_filterMap.mp hmem
  obtain ⟨e, hevent, heport, heref⟩ := emitted_of_appliedIn happlied
  have hmint := hminted x hx
  rw [hevent, minted, decide_eq_true_eq] at hmint
  rw [← href, heref, hmint, ← heport, hport]
  exact refPort_minted hshape

variable {proposer_model_error : String → String → Option String} {graph : PipelineGraph}
  {registry : Registry} {roles : Dict RoleConfig}

/-- **A ref of an activation ends in `fail` exactly where it came from a `fail` port.** -/
theorem mem_refs_fail_iff
    (hval : validate proposer_model_error graph registry roles =
      { problems := [], topology := some t }) {s : Step} (run : RouterRun t log s)
    (hminted : Minted log) {a : Activation} (ha : a ∈ s.activations) :
    (∃ ref ∈ a.refs, refPort ref = "fail") ↔
      ∃ eid k, t.edges[eid]? = some k ∧ k.target = a.nodeId ∧ k.sourcePort = "fail" ∧
        ∃ ref, contents t (history log) eid = some ref := by
  have hlegal := legal_of_report hval
  constructor
  · rintro ⟨ref, href, hfail⟩
    obtain ⟨eid, k, hk, htarget, hcarries⟩ := (mem_refs_iff hlegal run ha).mp href
    have hport := refPort_of_contents hminted hk (isId_sourcePort hval hk) hcarries
    exact ⟨eid, k, hk, htarget, hport.symm.trans hfail, ref, hcarries⟩
  · rintro ⟨eid, k, hk, htarget, hfail, ref, hcarries⟩
    have hport := refPort_of_contents hminted hk (isId_sourcePort hval hk) hcarries
    exact ⟨ref, (mem_refs_iff hlegal run ha).mpr ⟨eid, k, hk, htarget, hcarries⟩,
      hport.trans hfail⟩

/-- **When the indicator is 1**: a loop edge into the node starts at a `fail` port, and such a loop
edge was traversed or a forward edge brings something from a `fail` port. -/
theorem failReentry_eq_one_iff
    (hval : validate proposer_model_error graph registry roles =
      { problems := [], topology := some t }) {s : Step} (run : RouterRun t log s)
    (hminted : Minted log) {a : Activation} (ha : a ∈ s.activations) :
    failReentry t a = some 1 ↔ (∃ eid k, FailBack t a.nodeId eid k) ∧
      (ReenteredByFail t (history log) a.nodeId ∨ ¬NoForwardFail t s.state a.nodeId) := by
  have hlegal := legal_of_report hval
  have hslots := (recorded_of_run hlegal run).slots
  rw [(failReentry_eq hlegal a).2.1, mem_refs_fail_iff hval run hminted ha]
  refine and_congr_right fun _ => ?_
  constructor
  · rintro ⟨eid, k, hk, htarget, hfail, ref, hcarries⟩
    rcases Topology.isForward_or_isBack hk with hfwd | hback
    · refine Or.inr fun hnone => hnone eid k hfwd htarget hfail ?_
      exact isSome_slotPayload.mp (by rw [hslots, hcarries]; rfl)
    · obtain ⟨newer, r, older, heq, hloop, -, hnewer⟩ :=
        (contents_back_iff hlegal hback ref).mp hcarries
      exact Or.inl ⟨eid, k, newer, r, older, ⟨hback, htarget, hfail⟩, heq, hloop,
        htarget ▸ hnewer⟩
  · rintro (⟨eid, k, newer, r, older, hfail, heq, hloop, hnewer⟩ | hforward)
    · refine ⟨eid, k, hfail.1.1, hfail.2.1, hfail.2.2, r.payloadRef, ?_⟩
      exact (contents_back_iff hlegal hfail.1 r.payloadRef).mpr
        ⟨newer, r, older, heq, hloop, rfl, hfail.2.1 ▸ hnewer⟩
    · unfold NoForwardFail at hforward
      push Not at hforward
      obtain ⟨eid, k, hk, htarget, hfail, hslot⟩ := hforward
      have hsome := isSome_slotPayload.mpr hslot
      rw [hslots] at hsome
      exact ⟨eid, k, hk.1, htarget, hfail, Option.isSome_iff_exists.mp hsome⟩

/-- **A fail edge counts after a traversal that was the latest to reset the node, as long as its
source has not been reset since.** -/
theorem fail_reentry_counts (hval : validate proposer_model_error graph registry roles =
      { problems := [], topology := some t })
    {log : List (Transition Step Event)} {s : Step} (run : RouterRun t log s)
    (hminted : Minted log) : ∀ a ∈ s.activations,
      (failReentry t a = none ↔ ¬∃ eid k, FailBack t a.nodeId eid k) ∧
      (NoForwardFail t s.state a.nodeId →
        (failReentry t a = some 1 ↔ ReenteredByFail t (history log) a.nodeId)) ∧
      failReentry t a ∈ [none, some 0, some 1] := by
  intro a ha
  obtain ⟨hnone, -, hvalues⟩ := failReentry_eq (legal_of_report hval) a
  refine ⟨hnone, fun hforward => ?_, hvalues⟩
  rw [failReentry_eq_one_iff hval run hminted ha]
  constructor
  · rintro ⟨-, hreentered | hnot⟩
    · exact hreentered
    · exact absurd hforward hnot
  · rintro ⟨eid, k, newer, r, older, hfail, hrest⟩
    exact ⟨⟨eid, k, hfail⟩, Or.inl ⟨eid, k, newer, r, older, hfail, hrest⟩⟩

end Reentry

/-! ## 3.  A failure that is taken back

`unit` may fail, which sends `note` back, or send back `core`.  When it has failed and then, after
it ran again, sent back `core` before `note` ran, the token on the way to `note` came from an
activation that is no longer valid, and `note` runs without it. -/

def failRegistry : Registry := Dict.ofItems [
  ("entry", ⟨"entry", .stage, none, [
    { name := "ok", direction := .output, payload := some "text" },
    { name := "alt", direction := .output, payload := some "text" }]⟩),
  ("side", ⟨"side", .stage, none, [
    { name := "work", direction := .input, payload := some "text", outPorts_plain := outPorts_plain_of_input _ _ },
    { name := "ok", direction := .output, payload := some "text" }]⟩),
  ("core", ⟨"core", .stage, none, [
    { name := "work", direction := .input, payload := some "text", outPorts_plain := outPorts_plain_of_input _ _ },
    { name := "again", direction := .input, payload := some "text", required := false,
      outPorts_plain := outPorts_plain_of_input _ _ },
    { name := "ok", direction := .output, payload := some "text" }]⟩),
  ("note", ⟨"note", .stage, none, [
    { name := "work", direction := .input, payload := some "text", outPorts_plain := outPorts_plain_of_input _ _ },
    { name := "failure", direction := .input, payload := some "NodeFailure", required := false,
      outPorts_plain := outPorts_plain_of_input _ _ },
    { name := "ok", direction := .output, payload := some "text" }]⟩),
  ("write", ⟨"write", .stage, none, [
    { name := "work", direction := .input, payload := some "text", outPorts_plain := outPorts_plain_of_input _ _ },
    { name := "note", direction := .input, payload := some "text", required := false,
      outPorts_plain := outPorts_plain_of_input _ _ },
    { name := "ok", direction := .output, payload := some "text" }]⟩),
  ("unit", ⟨"unit", .stage, none, [
    { name := "work", direction := .input, payload := some "text", outPorts_plain := outPorts_plain_of_input _ _ },
    { name := "text", direction := .input, payload := some "text", required := false,
      outPorts_plain := outPorts_plain_of_input _ _ },
    { name := "core", direction := .output, payload := some "text" },
    { name := "fail", direction := .output, payload := some "NodeFailure",
      terminal := some .failed }]⟩)]

def failGraph : PipelineGraph where
  nodes := [{ id := "entry", type := "entry" }, { id := "side", type := "side" },
    { id := "core", type := "core" }, { id := "note", type := "note" },
    { id := "write", type := "write" }, { id := "unit", type := "unit" }]
  edges := [
    { source := "entry", sourcePort := "ok", target := "side", targetPort := "work" },
    { source := "entry", sourcePort := "ok", target := "core", targetPort := "work" },
    { source := "entry", sourcePort := "alt", target := "write", targetPort := "work" },
    { source := "side", sourcePort := "ok", target := "note", targetPort := "work" },
    { source := "core", sourcePort := "ok", target := "unit", targetPort := "work" },
    { source := "note", sourcePort := "ok", target := "write", targetPort := "note" },
    { source := "write", sourcePort := "ok", target := "unit", targetPort := "text" },
    { source := "unit", sourcePort := "fail", target := "note", targetPort := "failure",
      maxTraversals := some 1 },
    { source := "unit", sourcePort := "core", target := "core", targetPort := "again",
      maxTraversals := some 1 }]

def failTopology : Topology := buildTopology failGraph (firstNodes failGraph) failRegistry

theorem validate_failGraph : validate (fun _ _ => none) failGraph failRegistry sampleRoles =
    { problems := [], topology := some failTopology } :=
  validate_of_allProblems (by decide +kernel)

/-- `unit` fails and `note` has not run yet; then `side` lets it run. -/
def reentryScript (loops : List Emitted) : List Emitted :=
  [⟨"entry#1", "ok", "entry#1.ok"⟩, ⟨"core#1", "ok", "core#1.ok"⟩,
    ⟨"unit#1", "fail", "unit#1.fail"⟩] ++ loops ++ [⟨"side#1", "ok", "side#1.ok"⟩]

def reenteredRun : List (Transition Step Event) × Step :=
  (scripted failTopology (reentryScript [])).get (by decide +kernel)

def clearedRun : List (Transition Step Event) × Step :=
  (scripted failTopology (reentryScript [⟨"unit#2", "core", "unit#2.core"⟩])).get
    (by decide +kernel)

theorem noForwardFail_note (w : RouterState) : NoForwardFail failTopology w "note" := by
  have hedges : ∀ p ∈ failTopology.edges.toList, p.2.target = "note" → p.2.sourcePort = "fail" →
      p.1 ∈ failTopology.bounds := by decide +kernel
  intro eid k hk htarget hfail
  have hmem := Std.ExtTreeMap.mem_toList_iff_getElem?_eq_some.mpr hk.1
  exact absurd (hedges (eid, k) hmem htarget hfail) hk.2

theorem fail_reentry_counts_sample : ∃ a ∈ reenteredRun.2.activations, a.nodeId = "note" ∧
    failReentry failTopology a = some 1 ∧
      ReenteredByFail failTopology (history reenteredRun.1) "note" := by
  obtain ⟨a, ha, hnode, hone⟩ : ∃ a ∈ reenteredRun.2.activations, a.nodeId = "note" ∧
      failReentry failTopology a = some 1 := by decide +kernel
  have hcounts := fail_reentry_counts validate_failGraph
    (run_scripted (Option.some_get (by decide +kernel)).symm)
    (show ∀ x ∈ reenteredRun.1, minted x.event = true by decide +kernel) a ha
  rw [hnode] at hcounts
  exact ⟨a, ha, hnode, hone, (hcounts.2.1 (noForwardFail_note _)).mp hone⟩

/-- **The latest traversal that reset a node does not always count**: the condition on the source in
`fail_reentry_counts` cannot be left out. -/
theorem fail_token_cleared : ¬∀ (graph : PipelineGraph) (registry : Registry)
    (roles : Dict RoleConfig) (t : Topology), validate (fun _ _ => none) graph registry roles =
      { problems := [], topology := some t } →
    ∀ log s, RouterRun t log s → Minted log → ∀ a ∈ s.activations,
      (failReentry t a = some 1 ↔ ResetByFail t (history log) a.nodeId) := by
  intro h
  have hrun : RouterRun failTopology clearedRun.1 clearedRun.2 :=
    run_scripted (Option.some_get (by decide +kernel)).symm
  obtain ⟨a, ha, hnode, hzero⟩ : ∃ a ∈ clearedRun.2.activations, a.nodeId = "note" ∧
      failReentry failTopology a = some 0 := by decide +kernel
  have hiff := h failGraph failRegistry sampleRoles failTopology validate_failGraph
    clearedRun.1 clearedRun.2 hrun
    (show ∀ x ∈ clearedRun.1, minted x.event = true by decide +kernel) a ha
  rw [hnode, hzero] at hiff
  have hpast : history clearedRun.1 = [⟨"side", "ok", "side#1.ok"⟩,
      ⟨"unit", "core", "unit#2.core"⟩, ⟨"unit", "fail", "unit#1.fail"⟩,
      ⟨"core", "ok", "core#1.ok"⟩, ⟨"entry", "ok", "entry#1.ok"⟩] := by decide +kernel
  have hback : FailBack failTopology "note" "unit.fail->note.failure"
      ⟨"unit", "fail", "note", "failure"⟩ := ⟨⟨by decide +kernel, by decide +kernel⟩, rfl, rfl⟩
  have hreset : ResetByFail failTopology (history clearedRun.1) "note" :=
    ⟨_, _, [⟨"side", "ok", "side#1.ok"⟩, ⟨"unit", "core", "unit#2.core"⟩], _, _, hback, hpast,
      by decide +kernel, by decide +kernel⟩
  exact absurd (hiff.mpr hreset) (by decide)

end GraphRouter

end Kroker
