import Kroker.Graph.Moves
import Mathlib.Algebra.BigOperators.Group.Finset.Piecewise
import Mathlib.Algebra.Order.BigOperators.Group.Finset

/-!
# What every run of the router keeps

Four results about the runs of a router on a legal graph, each for every reachable state or every
run:

* `slots_faithful` --- a forward slot holds the token of its source's latest activation, a loop slot
  one from the region it closes, and no `one` port ever holds two, so neither backstop is taken;
* `nothing_starves` --- a completed run leaves no node pending;
* `applied_le` --- the number of applied emissions is bounded by the graph alone;
* `region_isolation` --- a traversal touches nothing outside the region it resets.

A call of `advance` that raises returns no state, so a run is a sequence of calls that do not.
-/

namespace Kroker

/-! ## 1. A small graph

`plan` feeds two workers, whose results are joined; the join may send the left worker back twice. -/

def sampleRegistry : Registry := Dict.ofItems [
  ("plan", ⟨"plan", .stage, none, [
    { name := "ok", direction := .output, payload := some "text" }]⟩),
  ("work", ⟨"work", .stage, none, [
    { name := "plan", direction := .input, payload := some "text", outPorts_plain := outPorts_plain_of_input _ _ },
    { name := "redo", direction := .input, payload := some "text", required := false,
      outPorts_plain := outPorts_plain_of_input _ _ },
    { name := "ok", direction := .output, payload := some "text" }]⟩),
  ("join", ⟨"join", .stage, none, [
    { name := "left", direction := .input, payload := some "text", outPorts_plain := outPorts_plain_of_input _ _ },
    { name := "right", direction := .input, payload := some "text", outPorts_plain := outPorts_plain_of_input _ _ },
    { name := "done", direction := .output, payload := none },
    { name := "again", direction := .output, payload := some "text" }]⟩)]

def sampleRoles : Dict RoleConfig := Dict.ofItems [
  ("dev", { model := some "alpha:one" }), ("reviewer", { model := some "beta:two" })]

def sampleGraph : PipelineGraph where
  nodes := [{ id := "plan", type := "plan" }, { id := "left", type := "work" },
    { id := "right", type := "work" }, { id := "join", type := "join" }]
  edges := [
    { source := "plan", sourcePort := "ok", target := "left", targetPort := "plan" },
    { source := "plan", sourcePort := "ok", target := "right", targetPort := "plan" },
    { source := "left", sourcePort := "ok", target := "join", targetPort := "left" },
    { source := "right", sourcePort := "ok", target := "join", targetPort := "right" },
    { source := "join", sourcePort := "again", target := "left", targetPort := "redo",
      maxTraversals := some 2 }]

def sampleTopology : Topology := buildTopology sampleGraph (firstNodes sampleGraph) sampleRegistry

theorem validate_sampleGraph : validate (fun _ _ => none) sampleGraph sampleRegistry sampleRoles =
    { problems := [], topology := some sampleTopology } :=
  validate_of_allProblems (by decide +kernel)

namespace GraphRouter

def scripted (t : Topology) (script : List Emitted) : Option (List (Transition Step Event) × Step) :=
  runScript (next t) ([], start t) (script.map Event.emitted)

theorem run_scripted {t : Topology} {script : List Emitted}
    {q : List (Transition Step Event) × Step} (h : scripted t script = some q) :
    RouterRun t q.1 q.2 :=
  Run.start.of_runScript h

/-- The left worker has been sent back once and is running again. -/
def sampleScript : List Emitted :=
  [⟨"plan#1", "ok", "p"⟩, ⟨"left#1", "ok", "l"⟩, ⟨"right#1", "ok", "r"⟩, ⟨"join#1", "again", "j"⟩]

theorem isSome_sampleScript : (scripted sampleTopology sampleScript).isSome = true := by
  decide +kernel

def sampleStep : Step := ((scripted sampleTopology sampleScript).get isSome_sampleScript).2

theorem reachable_sampleStep : Reachable (start sampleTopology) (next sampleTopology) sampleStep :=
  ⟨_, run_scripted (Option.some_get _).symm⟩

variable {proposer_model_error : String → String → Option String} {graph : PipelineGraph}
  {registry : Registry} {roles : Dict RoleConfig} {t : Topology}

theorem legal_of_report (hval : validate proposer_model_error graph registry roles =
    { problems := [], topology := some t }) : t.Legal :=
  legal_of_validate (by rw [hval])

/-! ## 2. Slots -/

theorem not_prefix_escalationText {n : String} (hn : isId n = true) (p : String)
    (why : Unavailable) :
    ¬"router_invariant:".toList <+: (escalationText n p why).toList := by
  rintro ⟨rest, hrest⟩
  have htext : (escalationText n p why).toList =
      n.toList ++ '.' :: (p.toList ++ ':' :: ' ' :: why.value.toList) := by
    show (n ++ "." ++ p ++ ": " ++ why.value).toList = _
    simp [String.toList_append]
  have hdot : ∀ c ∈ n.toList, c ≠ ':' := by
    rintro c hc rfl
    exact notMem_of_isId hn (by decide) hc
  have hcolon : "router_invariant:".toList = "router_invariant".toList ++ [':'] := by decide
  have hplain : ':' ∉ "router_invariant".toList ∧ '.' ∉ "router_invariant".toList := by decide
  rw [htext, hcolon, List.append_assoc, List.singleton_append] at hrest
  -- cut both sides at the first of the two separators
  rcases List.append_eq_append_iff.mp hrest with ⟨m, hm, hrest⟩ | ⟨m, hm, hrest⟩
  · cases m with
    | nil => exact absurd (List.cons.inj hrest).1 (by decide)
    | cons c m =>
      have hc : c = ':' := (List.cons.inj hrest).1.symm
      exact hdot c (hm ▸ List.mem_append_right _ List.mem_cons_self) hc
  · cases m with
    | nil => exact absurd (List.cons.inj hrest).1 (by decide)
    | cons c m =>
      have hc : c = '.' := (List.cons.inj hrest).1.symm
      exact hplain.2 (hm ▸ List.mem_append_right _ (hc ▸ List.mem_cons_self))

/-- **Slots are faithful in every reachable state.**  A forward slot holds a token of the latest
activation of its source, which is done on that port; a loop slot holds one produced in the region
of its target; and a `one` port holds at most one token.  So an escalated run was not ended by one
of the two backstops, whose texts start with `router_invariant:`. -/
theorem slots_faithful (hval : validate proposer_model_error graph registry roles =
      { problems := [], topology := some t })
    {w : RouterState} (hw : ReachableState t w) :
    (∀ eid k tok, t.IsForward eid k → w.slots[eid]? = some tok →
      tok.producer = gateKey k.source (w.node k.source).round ∧
        (w.node k.source).status = .done ∧ (w.node k.source).takenPort = some k.sourcePort) ∧
    (∀ eid k tok, t.IsBack eid k → w.slots[eid]? = some tok →
      nodeOf tok.producer ∈ t.region k.target) ∧
    (∀ (n p : String) (wiring : PortWiring), (t.inPortsOf n)[p]? = some wiring →
      wiring.multiplicity = .one →
        ((wiring.forwardEdges ++ wiring.backEdges).filter (· ∈ w.slots)).length ≤ 1) ∧
    ∀ reason, w.outcome = .escalated → w.reason = some reason →
      ¬"router_invariant:".toList <+: reason.toList := by
  have hlegal := legal_of_report hval
  obtain ⟨hc, -, -, -, -, -, hesc⟩ := inv_of_reachableState hlegal hw
  refine ⟨hc.forward, fun eid k tok hk htok => ?_, fun n p wiring hp hone => ?_,
    fun reason hout hreason => ?_⟩
  · rw [hc.back eid k tok hk htok, hlegal.mem_region eid k hk]
    exact hlegal.closes_cycle eid k hk
  · have hover := hc.noOverfull hlegal n p wiring hp
    rw [overfull, hone, decide_eq_true rfl, Bool.true_and, decide_eq_false_iff_not, not_lt,
      occupied, List.length_insertionSort] at hover
    refine le_of_eq_of_le ?_ hover
    congr 1
    refine List.filter_congr fun e _ => ?_
    rw [Bool.eq_iff_iff, decide_eq_true_eq, isSome_slotPayload]
  · obtain ⟨n, hn, p, why, htext⟩ := hesc hout
    rw [htext, Option.some.injEq] at hreason
    rw [← hreason]
    exact not_prefix_escalationText (hlegal.isId_of_mem n hn) p why

theorem slots_faithful_sample :
    (∀ eid k tok, sampleTopology.IsForward eid k → sampleStep.state.slots[eid]? = some tok →
      tok.producer = gateKey k.source (sampleStep.state.node k.source).round ∧
        (sampleStep.state.node k.source).status = .done ∧
        (sampleStep.state.node k.source).takenPort = some k.sourcePort) ∧
    sampleStep.state.slots.keys = ["join.again->left.redo", "plan.ok->left.plan",
      "plan.ok->right.plan", "right.ok->join.right"] :=
  ⟨(slots_faithful validate_sampleGraph ⟨sampleStep, reachable_sampleStep, rfl⟩).1,
    by decide +kernel⟩

/-! ## 3. Completion -/

/-- **Nothing starves.**  A completed run leaves every node done or dead; a state without live
activations has a final outcome; and a node that is neither dead nor ready waits for a source that
is still pending or running. -/
theorem nothing_starves (hval : validate proposer_model_error graph registry roles =
      { problems := [], topology := some t })
    {w : RouterState} (hw : ReachableState t w) :
    (w.outcome = .completed → ∀ n ∈ t.nodeIds,
      (w.node n).status = .done ∨ (w.node n).status = .dead) ∧
    (w.live = ∅ → w.outcome ≠ .running) ∧
    ∀ n, isDead t w n = false → isReady t w n = false →
      ∃ eid k, t.IsForward eid k ∧ k.target = n ∧
        ((w.node k.source).status = .pending ∨ (w.node k.source).status = .running) := by
  have hlegal := legal_of_report hval
  have hinv := inv_of_reachableState hlegal hw
  have hwaits : ∀ n, isDead t w n = false → isReady t w n = false →
      ∃ eid k, t.IsForward eid k ∧ k.target = n ∧ ¬Resolved w k.source := by
    intro n hdead hready
    by_contra hnone
    push Not at hnone
    rcases hinv.consistent.dead_or_ready hlegal hnone with h | h
    · rw [hdead] at h
      cases h
    · rw [hready] at h
      cases h
  refine ⟨fun hcompleted n => ?_, fun hempty hrunning => ?_, fun n hdead hready => ?_⟩
  · have hnot : w.outcome.isTerminal = false := by rw [hcompleted]; rfl
    have hempty : w.live.isEmpty = true := by
      have hout := hinv.outcome hnot
      rw [hcompleted] at hout
      by_contra hne
      rw [if_neg hne] at hout
      cases hout
    have hnotRunning : ∀ m, (w.node m).status ≠ .running := by
      intro m hm
      have hmem := hinv.running_live hnot m hm
      exact (Dict.notMem_iff_get? _ _).mpr ((Dict.isEmpty_iff _).mp hempty _) hmem
    -- along the forward skeleton: a node whose sources have finished is not left pending
    induction n using hlegal.acyclic.induction with
    | h n ih =>
      intro hn
      by_contra hunfinished
      have hpending : (w.node n).status = .pending := by
        cases hs : (w.node n).status with
        | pending => rfl
        | running => exact absurd hs (hnotRunning n)
        | done => exact absurd (Or.inl hs) hunfinished
        | dead => exact absurd (Or.inr hs) hunfinished
      obtain ⟨hdead, hready⟩ := hinv.waiting hnot n hn hpending
      obtain ⟨eid, k, hk, ht, hunresolved⟩ := hwaits n hdead hready
      exact hunresolved (ih k.source ⟨eid, k, hk, rfl, ht⟩ (hlegal.source_mem eid k hk.1))
  · have hout := hinv.outcome (by rw [hrunning]; rfl)
    rw [hrunning, if_pos ((Dict.isEmpty_iff _).mpr ((Dict.eq_empty_iff _).mp hempty))] at hout
    cases hout
  · obtain ⟨eid, k, hk, ht, hunresolved⟩ := hwaits n hdead hready
    refine ⟨eid, k, hk, ht, ?_⟩
    cases hs : (w.node k.source).status with
    | pending => exact Or.inl rfl
    | running => exact Or.inr rfl
    | done => exact absurd (Or.inl hs) hunresolved
    | dead => exact absurd (Or.inr hs) hunresolved

/-- The run of the small graph that is never sent back. -/
def sampleCompleted : Step := ((scripted sampleTopology [⟨"plan#1", "ok", "p"⟩,
  ⟨"left#1", "ok", "l"⟩, ⟨"right#1", "ok", "r"⟩, ⟨"join#1", "done", "j"⟩]).get
    (by decide +kernel)).2

theorem nothing_starves_sample : sampleCompleted.state.outcome = .completed ∧
    ∀ n ∈ sampleTopology.nodeIds, (sampleCompleted.state.node n).status = .done ∨
      (sampleCompleted.state.node n).status = .dead := by
  have hcompleted : sampleCompleted.state.outcome = .completed := by decide +kernel
  have hreach : ReachableState sampleTopology sampleCompleted.state :=
    ⟨sampleCompleted, ⟨_, run_scripted (Option.some_get _).symm⟩, rfl⟩
  exact ⟨hcompleted, (nothing_starves validate_sampleGraph hreach).1 hcompleted⟩

/-! ## 4. How long a run can last

The nodes that are done, plus the traversals counted once for each node of the graph: delivering
along forward edges adds a done node, and a traversal takes back fewer done nodes than it counts. -/

/-- A call of `advance` on a live activation that does not end the run. -/
def appliedCall (x : Transition Step Event) : Bool :=
  match x.event with
  | .halt _ => false
  | .emitted e => e.activationId ∈ x.before.state.live && !x.after.outcome.isTerminal

/-- The sum of `bounds`. -/
def totalBound (t : Topology) : ℕ := ∑ eid ∈ t.bounds.keys.toFinset, t.bounds.getD eid 0

def totalTraversed (t : Topology) (w : RouterState) : ℕ :=
  ∑ eid ∈ t.bounds.keys.toFinset, w.traversed eid

def doneNodes (t : Topology) (w : RouterState) : Finset String :=
  t.nodeIds.toFinset.filter fun n => (w.node n).status = .done

def progress (t : Topology) (w : RouterState) : ℕ :=
  (doneNodes t w).card + t.nodeIds.length * totalTraversed t w

variable {w : RouterState}

theorem mem_doneNodes {n : String} :
    n ∈ doneNodes t w ↔ n ∈ t.nodeIds ∧ (w.node n).status = .done := by
  rw [doneNodes, Finset.mem_filter, List.mem_toFinset]

theorem card_doneNodes_le (w : RouterState) : (doneNodes t w).card ≤ t.nodeIds.length :=
  (Finset.card_filter_le _ _).trans (List.toFinset_card_le _)

theorem card_doneNodes_lt {n : String} (hid : n ∈ t.nodeIds) (hn : (w.node n).status ≠ .done) :
    (doneNodes t w).card < t.nodeIds.length := by
  have hmem : n ∈ t.nodeIds.toFinset := List.mem_toFinset.mpr hid
  have hlt : doneNodes t w ⊂ t.nodeIds.toFinset :=
    Finset.filter_ssubset.mpr ⟨n, hmem, hn⟩
  exact (Finset.card_lt_card hlt).trans_le (List.toFinset_card_le _)

theorem mem_keys_bounds {eid : String} : eid ∈ t.bounds.keys.toFinset ↔ eid ∈ t.bounds := by
  rw [List.mem_toFinset, Std.ExtTreeMap.mem_keys]

theorem Consistent.progress_le (h : Consistent t w) :
    progress t w ≤ t.nodeIds.length * (1 + totalBound t) := by
  have htraversed : totalTraversed t w ≤ totalBound t := by
    refine Finset.sum_le_sum fun eid heid => ?_
    obtain ⟨b, hb⟩ := (Dict.mem_iff_get? _ _).mp (mem_keys_bounds.mp heid)
    rw [Dict.getD_eq, hb]
    exact h.traversed_le eid b hb
  rw [progress, Nat.mul_add, Nat.mul_one]
  exact Nat.add_le_add (card_doneNodes_le w) (Nat.mul_le_mul_left _ htraversed)

/-- The nodes that are done when a move has settled, and the traversals counted by then. -/
theorem Moved.progress_lt {e : Emitted} {n : String} {edges cleared : List String} {s : Step}
    (h : Moved t w e n edges cleared s) (hid : n ∈ t.nodeIds) (hn : (w.node n).status = .running) :
    progress t w < progress t s.state := by
  obtain ⟨b, _, hmoves, hb, hsettled, -⟩ := h.exists_settled
  have hnotDone : (w.node n).status ≠ .done := by
    rw [hn]
    exact nofun
  cases h.footprint with
  | forward edges port forward =>
    have hsame : totalTraversed t s.state = totalTraversed t w := by
      refine Finset.sum_congr rfl fun x _ => ?_
      rw [h.traversed, if_neg fun hx => forward x hx.1 hx.2]
    have hdone : doneNodes t s.state = insert n (doneNodes t w) := by
      ext x
      have hsx : (s.state.node x).status = .done ↔ (b.node x).status = .done := by
        refine ⟨fun hx => hsettled.done_iff hb hx ▸ hx, fun hx => ?_⟩
        rw [hsettled.node_of_resolved (Or.inl hx), hx]
      rw [Finset.mem_insert, mem_doneNodes, mem_doneNodes, hsx, hmoves.node,
        if_neg List.not_mem_nil]
      by_cases hx : x = n
      · rw [if_pos hx, hx]
        exact ⟨fun _ => Or.inl rfl, fun _ => ⟨hid, rfl⟩⟩
      · rw [if_neg hx]
        exact ⟨Or.inr, fun h => h.resolve_left hx⟩
    have hfresh : n ∉ doneNodes t w := fun hmem => hnotDone (mem_doneNodes.mp hmem).2
    rw [progress, progress, hsame, hdone, Finset.card_insert_of_notMem hfresh]
    omega
  | back eid k port back source sourcePort =>
    have hsum : totalTraversed t s.state = totalTraversed t w + 1 := by
      have hpoint : ∀ x ∈ t.bounds.keys.toFinset,
          s.state.traversed x = w.traversed x + if x = eid then 1 else 0 := by
        intro x hx
        rw [h.traversed]
        by_cases heq : x = eid
        · rw [if_pos ⟨List.mem_singleton.mpr heq, mem_keys_bounds.mp hx⟩, if_pos heq]
        · rw [if_neg fun h => heq (List.mem_singleton.mp h.1), if_neg heq, Nat.add_zero]
      rw [totalTraversed, Finset.sum_congr rfl hpoint, Finset.sum_add_distrib,
        Finset.sum_ite_eq', if_pos (mem_keys_bounds.mpr back.2)]
      rfl
    have hlt := card_doneNodes_lt hid hnotDone
    rw [progress, progress, hsum, Nat.mul_add, Nat.mul_one]
    omega

/-- No call of `advance` takes progress back, and each applied emission makes some. -/
theorem progress_le_of_advance (hlegal : t.Legal) {s s' : Step} {event : Event} (h : Inv t s.state)
    (hadv : advance t s.state event = .ok s') :
    progress t s.state + (if appliedCall ⟨s, event, s'⟩ then 1 else 0) ≤ progress t s'.state := by
  have hmove : ∀ {e l edges cleared s'}, Emits s.state e l →
      Moved t s.state e l.nodeId edges cleared s' →
        ∀ b : Bool, progress t s.state + (if b then 1 else 0) ≤ progress t s'.state := by
    intro e l edges cleared s' he hmoved b
    obtain ⟨-, hrunning, hid⟩ := h.consistent.emitter he
    have hlt := hmoved.progress_lt hid hrunning
    split <;> omega
  cases advanced_of_advance hlegal h.consistent hadv with
  | halted x running => exact le_rfl
  | late e reason notLive =>
    have hnot : appliedCall ⟨s, .emitted e, drop s.state e reason⟩ = false := by
      show (decide (e.activationId ∈ s.state.live) && _) = false
      rw [decide_eq_false ((Dict.notMem_iff_get? _ _).mpr notLive), Bool.false_and]
    rw [hnot, if_neg Bool.false_ne_true]
    exact le_rfl
  | escalated e l why live unavailable =>
    have hnot : appliedCall ⟨s, .emitted e, terminate s.state .escalated
        (escalationText l.nodeId e.port why) (some e.activationId) []⟩ = false :=
      Bool.and_false _
    rw [hnot, if_neg Bool.false_ne_true]
    exact le_rfl
  | ended e l kind emits port terminal =>
    have hnot : appliedCall ⟨s, .emitted e, terminate (delivered s.state l.nodeId e [])
        kind.outcome s!"{l.nodeId}.{e.port}" none []⟩ = false := by
      show (_ && !kind.outcome.isTerminal) = false
      rw [Terminal.isTerminal_outcome, Bool.not_true, Bool.and_false]
    rw [hnot, if_neg Bool.false_ne_true]
    -- the emitter is done, every other node is what it was
    refine Nat.add_le_add_right (Finset.card_le_card fun x hx => ?_) _
    obtain ⟨hid, hdone⟩ := mem_doneNodes.mp hx
    refine mem_doneNodes.mpr ⟨hid, ?_⟩
    show ((delivered s.state l.nodeId e []).node x).status = .done
    rw [node_delivered]
    split
    · rfl
    · exact hdone
  | forwarded e l edges emits port forward =>
    exact hmove emits (h.moved_forwarded hlegal emits port forward) _
  | traversed e l eid k emits port back source sourcePort =>
    exact hmove emits (h.moved_traversed hlegal emits port back source sourcePort) _

/-- **A run is bounded by the graph**: no loop is traversed more often than its bound says, and the
number of emissions a run applies is at most the number of nodes times one more than the sum of the
bounds. -/
theorem applied_le (hval : validate proposer_model_error graph registry roles =
      { problems := [], topology := some t }) :
    (∀ w, ReachableState t w → ∀ (eid : String) (b : ℕ), t.bounds[eid]? = some b →
      w.traversed eid ≤ b) ∧
    ∀ log s, RouterRun t log s →
      log.countP appliedCall ≤ t.nodeIds.length * (1 + totalBound t) := by
  have hlegal := legal_of_report hval
  refine ⟨fun w hw => (inv_of_reachableState hlegal hw).consistent.traversed_le,
    fun log s hrun => ?_⟩
  have hcount := Run.countP_add_le appliedCall (fun s => progress t s.state)
    (fun s e s' hs hnext => progress_le_of_advance hlegal (inv_of_reachable hlegal hs)
      (advance_of_next hnext)) hrun
  have hbound := (inv_of_reachable hlegal ⟨log, hrun⟩).consistent.progress_le
  exact (Nat.le_of_add_right_le hcount).trans hbound

theorem applied_le_sample : totalBound sampleTopology = 2 ∧
    sampleStep.state.traversed "join.again->left.redo" ≤ 2 ∧
    ∀ log s, RouterRun sampleTopology log s → log.countP appliedCall ≤ 12 :=
  ⟨by decide +kernel,
    (applied_le validate_sampleGraph).1 _ ⟨sampleStep, reachable_sampleStep, rfl⟩ _ _
      (by decide +kernel),
    fun log s h => le_of_le_of_eq ((applied_le validate_sampleGraph).2 log s h) (by decide +kernel)⟩

/-! ## 5. What a loop leaves alone -/

/-- The step applies a traversal of the loop edge `eid` into `v`, and touches `REGION(v)` only. -/
structure Isolated (t : Topology) (w : RouterState) (e : Emitted) (eid v : String) (s : Step) :
    Prop where
  cancelled : ∀ aid, aid ∈ s.cancelled ↔
    aid ≠ e.activationId ∧ ∃ l : LiveActivation, w.live[aid]? = some l ∧ l.nodeId ∈ t.region v
  retired : ∀ aid, aid ∈ s.state.retired ↔ aid ∈ w.retired ∨ aid ∈ s.cancelled
  not_live : ∀ aid ∈ s.cancelled, aid ∉ s.state.live
  node : ∀ n, n ∉ t.region v → s.state.node n = w.node n
  slot : ∀ x : String, x ≠ eid →
    s.state.slots[x]? = w.slots[x]?.filter fun tok => nodeOf tok.producer ∉ t.region v
  token : s.state.slots[eid]? = some ⟨e.payloadRef, e.activationId⟩
  live : ∀ (aid : String) (l : LiveActivation), l.nodeId ∉ t.region v →
    (s.state.live[aid]? = some l ↔ w.live[aid]? = some l)
  traversed : ∀ x : String, x ≠ eid → s.state.traversed x = w.traversed x
  traversed_self : s.state.traversed eid = w.traversed eid + 1
  issued : ∀ a ∈ s.activations, a.nodeId ∈ t.region v

theorem Moved.isolated (hlegal : t.Legal) (h : Inv t w) {e : Emitted} {l : LiveActivation}
    (he : Emits w e l) {eid : String} {k : EdgeKey} {s : Step} (hk : t.IsBack eid k)
    (hs : k.source = l.nodeId) (hmoved : Moved t w e l.nodeId [eid] (t.region k.target) s)
    (hafter : Inv t s.state) :
    Isolated t w e eid k.target s := by
  have hregion : ∀ x, x ∈ t.region k.target ↔ t.InRegion k.target x := hlegal.mem_region eid k hk
  have hself : t.InRegion k.target l.nodeId := hs ▸ hlegal.closes_cycle eid k hk
  have hwait := h.waiting (h.live_of_running he.live)
  have hclosed := forwardClosed_inRegion t k.target
  have hcleared : ∀ x ∈ t.region k.target, t.InRegion k.target x := fun x => (hregion x).mp
  obtain ⟨b, cancelled, hmoves, hb, hsettled, hcancelled⟩ := hmoved.exists_settled
  have hinside : ∀ x, IssuedIn t b s.state x → x ∈ t.region k.target := fun x hx =>
    (hregion x).mpr (hmoved.issued_inside hlegal h.consistent hwait hclosed hself hcleared hmoves hx)
  have hmem : ∀ aid, aid ∈ s.cancelled ↔ aid ∈ cancelled := fun aid => by
    rw [hsettled.cancelled_eq, List.mem_insertionSort]
  refine ⟨fun aid => ?_, fun aid => ?_, fun aid haid hlive => ?_, fun n hn => ?_, fun x hx => ?_, ?_,
    fun aid l' hl' => ?_, fun x hx => ?_, ?_, fun a ha => ?_⟩
  · rw [hmem, hcancelled]
    exact ⟨fun ⟨l', h1, h2, h3⟩ => ⟨h2, l', h1, h3⟩, fun ⟨h2, l', h1, h3⟩ => ⟨l', h1, h2, h3⟩⟩
  · rw [hsettled.retired, hmoves.retired, hmem, hcancelled]
  · refine (hafter.accounted.retired aid ?_).1 hlive
    rw [hsettled.retired, hmoves.retired, ← hcancelled]
    exact Or.inr ((hmem aid).mp haid)
  · exact hmoved.node_outside hlegal h.consistent hwait hclosed hself hcleared n
      fun hin => hn ((hregion n).mpr hin)
  · rw [hsettled.slots, hmoves.slots, if_neg fun hmem => hx (List.mem_singleton.mp hmem)]
  · rw [hsettled.slots, hmoves.slots, if_pos (List.mem_singleton.mpr rfl)]
  · exact hmoved.live_outside hlegal h.consistent hwait he.live rfl hclosed hself hcleared aid l'
      fun hin => hl' ((hregion _).mpr hin)
  · rw [hmoved.traversed, if_neg fun h => hx (List.mem_singleton.mp h.1)]
  · rw [hmoved.traversed, if_pos ⟨List.mem_singleton.mpr rfl, hk.2⟩]
  · obtain ⟨n, hn, rfl⟩ := (hsettled.activations a).mp ha
    exact hinside n hn

/-- **A loop touches the region of its target and nothing else.**  It cancels and retires the live
activations of the region, counts one traversal, and leaves what is outside of the region as it
was. An emission on a port that was unavailable when the activation was issued ends the run and
changes no slot, node or counter. -/
theorem region_isolation (hval : validate proposer_model_error graph registry roles =
      { problems := [], topology := some t })
    {w : RouterState} (hw : ReachableState t w) {e : Emitted} {l : LiveActivation}
    (hl : w.live[e.activationId]? = some l) {eid : String} {k : EdgeKey} (hk : t.IsBack eid k)
    (hs : k.source = l.nodeId) (hp : k.sourcePort = e.port) :
    ∃ s, advance t w (.emitted e) = .ok s ∧
      (l.unavailablePorts[e.port]? = none → Isolated t w e eid k.target s) ∧
      ∀ why, l.unavailablePorts[e.port]? = some why →
        s.state.outcome = .escalated ∧ s.state.slots = w.slots ∧ s.state.nodes = w.nodes ∧
          s.state.traversals = w.traversals := by
  have hlegal := legal_of_report hval
  have hinv := inv_of_reachableState hlegal hw
  -- the loop edge is alone on its port
  obtain ⟨eids, heids⟩ := hlegal.outPort_of_edge eid k hk.1
  have hport := hlegal.outPort _ _ _ heids
  rw [hport.back_exclusive eid ((hport.mem_iff eid).mpr ⟨k, hk.1, rfl, rfl⟩) hk.2, hs, hp] at heids
  have hadv := advance_of_live hinv hl heids
  cases havail : l.unavailablePorts[e.port]? with
  | some why =>
    rw [havail] at hadv
    refine ⟨_, hadv, fun hnone => absurd hnone.symm (Option.some_ne_none why).symm, fun _ _ => ?_⟩
    exact ⟨rfl, rfl, rfl, rfl⟩
  | none =>
    rw [havail] at hadv
    have he : Emits w e l := ⟨hl, havail⟩
    have hmoved := hinv.moved_traversed hlegal he heids hk hs hp
    refine ⟨_, hadv, fun _ => ?_, fun why hwhy => absurd hwhy (Option.some_ne_none why).symm⟩
    have hafter := (advanced_of_advance hlegal hinv.consistent hadv).inv hlegal hinv
    have hroute : route t (finish w l.nodeId e) l.nodeId e [eid] =
        settle t (traverseBack t (delivered w l.nodeId e []) eid ⟨e.payloadRef, e.activationId⟩)
          (cancelledBy t (delivered w l.nodeId e []) eid) := if_pos hk.2
    rw [hroute] at hafter ⊢
    exact hmoved.isolated hlegal hinv he hk hs hafter

/-- The join of the small graph is running. -/
def sampleJoin : Step :=
  ((scripted sampleTopology (sampleScript.take 3)).get (by decide +kernel)).2

theorem region_isolation_sample : ∃ s,
    advance sampleTopology sampleJoin.state (.emitted ⟨"join#1", "again", "j"⟩) = .ok s ∧
      Isolated sampleTopology sampleJoin.state ⟨"join#1", "again", "j"⟩ "join.again->left.redo"
        "left" s := by
  have hreach : ReachableState sampleTopology sampleJoin.state :=
    ⟨sampleJoin, ⟨_, run_scripted (Option.some_get _).symm⟩, rfl⟩
  have hlive : sampleJoin.state.live["join#1"]? = some ⟨"join#1", "join", ∅⟩ := by decide +kernel
  have hback : sampleTopology.IsBack "join.again->left.redo" ⟨"join", "again", "left", "redo"⟩ :=
    ⟨by decide +kernel, by decide +kernel⟩
  obtain ⟨s, hs, hgo, -⟩ := region_isolation validate_sampleGraph hreach
    (e := ⟨"join#1", "again", "j"⟩) hlive hback rfl rfl
  exact ⟨s, hs, hgo (by decide +kernel)⟩

end GraphRouter

end Kroker
