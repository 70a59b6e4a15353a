import Kroker.Graph.RouterSafety

/-!
# What an activation is issued with

The inputs of an activation are read from the slots of its in-edges, and this file says what the
slots hold in terms of the emissions the run has applied (`history`, newest first).

`carried` reads the history of one edge: the payload of the newest emission of its source on its
port, unless a loop traversed since then has reset the source.  `slotPayload_eq_contents` says that
this is what the slot holds in every state of every run, and `inputs_fresh` reads it on the
activations that are issued: a forward edge brings the latest emission of its source when that was
on the port of the edge, and a loop edge brings what it was traversed with, when the traversal is
the latest one that reset the node and the source has not been reset since.

The last condition cannot be left out (`loop_input_cleared`): a traversal of another loop that
resets the source, but not the node, takes the token back before the node runs.
-/

namespace Kroker

namespace GraphRouter

variable {t : Topology}

/-! ## 1. The history of a run -/

structure Applied where
  node : String
  port : String
  payloadRef : String
  deriving DecidableEq

/-- The emission a call of `advance` applied. -/
def appliedIn (x : Transition Step Event) : Option Applied :=
  match x.event with
  | .halt _ => none
  | .emitted e =>
    match x.before.state.live[e.activationId]? with
    | none => none
    | some l =>
      if l.unavailablePorts[e.port]? = none then some ⟨l.nodeId, e.port, e.payloadRef⟩ else none

/-- The emissions a run has applied, newest first. -/
def history (log : List (Transition Step Event)) : List Applied := log.filterMap appliedIn

/-- The loop edge the emission traversed. -/
def Applied.loop (t : Topology) (r : Applied) : Option String :=
  match (t.outPortsOf r.node)[r.port]? with
  | some [eid] => if eid ∈ t.bounds then some eid else none
  | _ => none

/-- The emission traversed a loop that reset the node. -/
def Applied.resets (t : Topology) (r : Applied) (n : String) : Bool :=
  match r.loop t with
  | some eid => n ∈ t.region (t.endpoints eid).target
  | none => false

/-- What an edge carries after these emissions: the newest one of its source on its port, unless the
source has been reset since. -/
def carried (t : Topology) (k : EdgeKey) : List Applied → Option String
  | [] => none
  | r :: older =>
    if r.node = k.source ∧ r.port = k.sourcePort then some r.payloadRef
    else if r.resets t k.source then none
    else carried t k older

def contents (t : Topology) (past : List Applied) (eid : String) : Option String :=
  t.edges[eid]?.bind fun k => carried t k past

variable {past : List Applied}

theorem carried_eq_some_iff {k : EdgeKey} {p : String} :
    carried t k past = some p ↔ ∃ newer r older, past = newer ++ r :: older ∧
      r.node = k.source ∧ r.port = k.sourcePort ∧ r.payloadRef = p ∧
      ∀ x ∈ newer, ¬(x.node = k.source ∧ x.port = k.sourcePort) ∧ x.resets t k.source = false := by
  induction past with
  | nil =>
    refine ⟨fun h => absurd h.symm (Option.some_ne_none p), ?_⟩
    rintro ⟨newer, r, older, h, -⟩
    exact absurd h.symm (List.append_ne_nil_of_right_ne_nil _ (List.cons_ne_nil _ _))
  | cons r past ih =>
    rw [carried]
    by_cases hsent : r.node = k.source ∧ r.port = k.sourcePort
    · rw [if_pos hsent]
      constructor
      · intro h
        exact ⟨[], r, past, rfl, hsent.1, hsent.2, Option.some.inj h,
          nofun⟩
      · rintro ⟨newer, r', older, heq, -, -, hp, hnewer⟩
        cases newer with
        | nil => rw [(List.cons.inj heq).1, hp]
        | cons x newer =>
          have hx := (hnewer x List.mem_cons_self).1
          rw [← (List.cons.inj heq).1] at hx
          exact absurd hsent hx
    · rw [if_neg hsent]
      by_cases hreset : r.resets t k.source = true
      · rw [if_pos hreset]
        refine ⟨fun h => absurd h.symm (Option.some_ne_none p), ?_⟩
        rintro ⟨newer, r', older, heq, hn, hport, -, hnewer⟩
        cases newer with
        | nil => exact absurd ((List.cons.inj heq).1 ▸ ⟨hn, hport⟩) hsent
        | cons x newer =>
          have hx := (hnewer x List.mem_cons_self).2
          rw [← (List.cons.inj heq).1, hreset] at hx
          cases hx
      · rw [if_neg hreset, ih]
        constructor
        · rintro ⟨newer, r', older, rfl, hn, hport, hp, hnewer⟩
          refine ⟨r :: newer, r', older, rfl, hn, hport, hp, fun x hx => ?_⟩
          rcases List.mem_cons.mp hx with rfl | hx
          · exact ⟨hsent, Bool.not_eq_true _ ▸ hreset⟩
          · exact hnewer x hx
        · rintro ⟨newer, r', older, heq, hn, hport, hp, hnewer⟩
          cases newer with
          | nil => exact absurd ((List.cons.inj heq).1 ▸ ⟨hn, hport⟩) hsent
          | cons x newer =>
            exact ⟨newer, r', older, (List.cons.inj heq).2, hn, hport, hp,
              fun y hy => hnewer y (List.mem_cons_of_mem _ hy)⟩

/-! ## 2. Slots hold what the history says -/

/-- The state agrees with the history: slots hold what their edges carry, and a node that is done
took the port of its newest emission. -/
structure Recorded (t : Topology) (past : List Applied) (w : RouterState) : Prop where
  slots : ∀ eid, slotPayload w eid = contents t past eid
  done : ∀ m, (w.node m).status = .done →
    ∃ r, past.find? (fun r => r.node = m) = some r ∧ (w.node m).takenPort = some r.port

variable {edges cleared : List String}

theorem Footprint.loop {n p : String} (h : Footprint t n p edges cleared) (payloadRef : String)
    (x : String) :
    (⟨n, p, payloadRef⟩ : Applied).resets t x = decide (x ∈ cleared) := by
  cases h with
  | forward edges port forward =>
    have hnone : (⟨n, p, payloadRef⟩ : Applied).loop t = none := by
      rw [Applied.loop, port]
      split
      · next eid heq =>
        rw [if_neg (forward eid (by rw [Option.some.inj heq]; exact List.mem_cons_self))]
      · rfl
    rw [Applied.resets, hnone]
    simp
  | back eid k port back source sourcePort =>
    have hsome : (⟨n, p, payloadRef⟩ : Applied).loop t = some eid := by
      rw [Applied.loop, port]
      exact if_pos back.2
    rw [Applied.resets, hsome]
    dsimp only
    rw [Topology.endpoints_of_get? back.1]

theorem Footprint.mem_edges_iff (hlegal : t.Legal) {n p : String}
    (h : Footprint t n p edges cleared) {eid : String} {k : EdgeKey} (hk : t.edges[eid]? = some k) :
    eid ∈ edges ↔ n = k.source ∧ p = k.sourcePort := by
  have hport : (t.outPortsOf n)[p]? = some edges := by
    cases h with
    | forward edges port forward => exact port
    | back eid k port back source sourcePort => exact port
  rw [(hlegal.outPort n p edges hport).mem_iff]
  constructor
  · rintro ⟨k', hk', rfl, rfl⟩
    rw [Option.some.inj (hk.symm.trans hk')]
    exact ⟨rfl, rfl⟩
  · rintro ⟨rfl, rfl⟩
    exact ⟨k, hk, rfl, rfl⟩

/-- **One applied emission**, added to the history and to the state. -/
theorem Recorded.applied (hlegal : t.Legal) {w w' : RouterState} (h : Recorded t past w)
    (hw : Consistent t w) {r : Applied} (aid : String)
    (hfoot : Footprint t r.node r.port edges cleared)
    (hslots : ∀ x : String, w'.slots[x]? = if x ∈ edges then some ⟨r.payloadRef, aid⟩
      else w.slots[x]?.filter fun tok => nodeOf tok.producer ∉ cleared)
    (hdone : ∀ m, (w'.node m).status = .done →
      m = r.node ∧ (w'.node m).takenPort = some r.port ∨ m ≠ r.node ∧ w'.node m = w.node m) :
    Recorded t (r :: past) w' := by
  refine ⟨fun eid => ?_, fun m hm => ?_⟩
  · cases hk : t.edges[eid]? with
    | none =>
      -- only edges have slots, and only edges of the port are filled
      have hout : eid ∉ edges := fun hmem => by
        obtain ⟨k, hk', -⟩ := hfoot.source hlegal hmem
        exact absurd (hk'.symm.trans hk) (Option.some_ne_none k)
      have hempty : w.slots[eid]? = none := by
        rw [← Dict.notMem_iff_get?]
        intro hmem
        obtain ⟨k, hk'⟩ := hw.slot_edge eid hmem
        exact absurd (hk'.symm.trans hk) (Option.some_ne_none k)
      rw [slotPayload, hslots, if_neg hout, hempty, contents, hk]
      rfl
    | some k =>
      have hcontents : contents t (r :: past) eid =
          if r.node = k.source ∧ r.port = k.sourcePort then some r.payloadRef
          else if r.resets t k.source then none else slotPayload w eid := by
        rw [h.slots, contents, contents, hk, Option.bind_some, Option.bind_some, carried]
      have hport := hfoot.mem_edges_iff hlegal hk
      rw [hcontents, slotPayload, hslots]
      by_cases hmem : eid ∈ edges
      · rw [if_pos hmem, if_pos (hport.mp hmem)]
        rfl
      · rw [if_neg hmem, if_neg fun h => hmem (hport.mpr h), hfoot.loop r.payloadRef k.source,
          slotPayload]
        cases htok : w.slots[eid]? with
        | none => simp
        | some tok =>
          have hproducer : nodeOf tok.producer = k.source := by
            rcases Topology.isForward_or_isBack hk with hf | hb
            · rw [(hw.forward eid k tok hf htok).1, nodeOf_gateKey]
            · exact hw.back eid k tok hb htok
          by_cases hc : k.source ∈ cleared
          · simp [hproducer, hc]
          · simp [hproducer, hc]
  · rw [List.find?_cons]
    rcases hdone m hm with ⟨heq, hport⟩ | ⟨hne, hsame⟩
    · rw [decide_eq_true heq.symm]
      exact ⟨r, rfl, hport⟩
    · rw [decide_eq_false fun heq => hne heq.symm, hsame]
      exact h.done m (hsame ▸ hm)

theorem Moved.done_cases {w : RouterState} {e : Emitted} {n : String} {s : Step}
    (h : Moved t w e n edges cleared s) {m : String} (hm : (s.state.node m).status = .done) :
    m = n ∧ (s.state.node m).takenPort = some e.port ∨ m ≠ n ∧ s.state.node m = w.node m := by
  obtain ⟨b, _, hmoves, hb, hsettled, -⟩ := h.exists_settled
  have hsame := hsettled.done_iff hb hm
  rw [hsame, hmoves.node] at hm
  rw [hsame, hmoves.node]
  by_cases hc : m ∈ cleared
  · rw [if_pos hc] at hm
    cases hm
  · rw [if_neg hc] at hm ⊢
    by_cases hn : m = n
    · rw [if_pos hn]
      exact Or.inl ⟨hn, rfl⟩
    · rw [if_neg hn]
      exact Or.inr ⟨hn, rfl⟩

theorem appliedIn_emits {s s' : Step} {e : Emitted} {l : LiveActivation}
    (h : Emits s.state e l) :
    appliedIn ⟨s, .emitted e, s'⟩ = some ⟨l.nodeId, e.port, e.payloadRef⟩ := by
  rw [appliedIn]
  dsimp only
  rw [h.live]
  exact if_pos h.available

/-- **The state of every run agrees with its history.** -/
theorem recorded_of_run (hlegal : t.Legal) {log : List (Transition Step Event)} {s : Step}
    (run : RouterRun t log s) : Recorded t (history log) s.state := by
  refine Run.induct (P := fun log s => Recorded t (history log) s.state) ?_ ?_ run
  · have hsettled := settled_start hlegal
    refine ⟨fun eid => ?_, fun m hm => ?_⟩
    · have hempty : (initial t).slots[eid]? = none := Dict.get?_empty eid
      rw [slotPayload, hsettled.slots, hempty, contents]
      cases t.edges[eid]? <;> rfl
    · rw [hsettled.done_iff (consistent_initial t) hm, node_initial] at hm
      cases hm
  · intro log s event s' hrun ih hnext
    have hinv := inv_of_reachable hlegal ⟨log, hrun⟩
    have hmoved : ∀ {e l edges cleared s'}, Emits s.state e l →
        Moved t s.state e l.nodeId edges cleared s' →
          Recorded t (history (⟨s, .emitted e, s'⟩ :: log)) s'.state := by
      intro e l edges cleared s' he hmoved
      rw [history, List.filterMap_cons_some (appliedIn_emits he)]
      obtain ⟨b, _, hmoves, -, hsettled, -⟩ := hmoved.exists_settled
      refine ih.applied hlegal hinv.consistent e.activationId hmoved.footprint
        (fun x => ?_) fun m hm => hmoved.done_cases hm
      rw [hsettled.slots, hmoves.slots]
    cases advanced_of_advance hlegal hinv.consistent (advance_of_next hnext) with
    | halted x running =>
      rw [history, List.filterMap_cons_none rfl]
      exact ⟨ih.slots, ih.done⟩
    | late e reason notLive =>
      have hnone : appliedIn ⟨s, .emitted e, drop s.state e reason⟩ = none := by
        rw [appliedIn]
        dsimp only
        rw [notLive]
      rw [history, List.filterMap_cons_none hnone]
      exact ⟨ih.slots, ih.done⟩
    | escalated e l why live unavailable =>
      have hnone : appliedIn ⟨s, .emitted e, terminate s.state .escalated
          (escalationText l.nodeId e.port why) (some e.activationId) []⟩ = none := by
        rw [appliedIn]
        dsimp only
        rw [live]
        dsimp only
        rw [unavailable, if_neg (Option.some_ne_none why)]
      rw [history, List.filterMap_cons_none hnone]
      exact ⟨ih.slots, ih.done⟩
    | ended e l kind emits port terminal =>
      rw [history, List.filterMap_cons_some (appliedIn_emits emits)]
      refine ih.applied hlegal hinv.consistent e.activationId
        (.forward [] port fun k hk => by cases hk) (fun x => ?_)
        fun m hm => ?_
      · rw [if_neg List.not_mem_nil, filter_notMem_nil]
        rfl
      · show m = l.nodeId ∧ ((delivered s.state l.nodeId e []).node m).takenPort = some e.port ∨
          m ≠ l.nodeId ∧ (delivered s.state l.nodeId e []).node m = s.state.node m
        rw [node_delivered]
        by_cases hn : l.nodeId = m
        · rw [if_pos hn]
          exact Or.inl ⟨hn.symm, rfl⟩
        · rw [if_neg hn]
          exact Or.inr ⟨fun h => hn h.symm, rfl⟩
    | forwarded e l edges emits port forward =>
      exact hmoved emits (hinv.moved_forwarded hlegal emits port forward)
    | traversed e l eid k emits port back source sourcePort =>
      exact hmoved emits (hinv.moved_traversed hlegal emits port back source sourcePort)

/-! ## 3. The activations that are issued -/

theorem issued_of_run (hlegal : t.Legal) {log : List (Transition Step Event)} {s : Step}
    (run : RouterRun t log s) : ∀ a ∈ s.activations,
      a.inputs = portInputs t (slotPayload s.state) a.nodeId ∧
        (s.state.node a.nodeId).status = .running := by
  have hsettled : ∀ {b cancelled} {s : Step}, Settled t b cancelled s → ∀ a ∈ s.activations,
      a.inputs = portInputs t (slotPayload s.state) a.nodeId ∧
        (s.state.node a.nodeId).status = .running := by
    intro b cancelled s h a ha
    obtain ⟨n, hn, rfl⟩ := (h.activations a).mp ha
    exact ⟨rfl, hn.2.2⟩
  cases run with
  | start => exact hsettled (settled_start hlegal)
  | @step log s s' event run accepted =>
    have hinv := inv_of_reachable hlegal ⟨log, run⟩
    cases advanced_of_advance hlegal hinv.consistent (advance_of_next accepted) with
    | halted x running => exact nofun
    | late e reason notLive => exact nofun
    | escalated e l why live unavailable => exact nofun
    | ended e l kind emits port terminal => exact nofun
    | forwarded e l edges emits port forward =>
      obtain ⟨b, _, -, -, h, -⟩ := (hinv.moved_forwarded hlegal emits port forward).exists_settled
      exact hsettled h
    | traversed e l eid k emits port back source sourcePort =>
      obtain ⟨b, _, -, -, h, -⟩ :=
        (hinv.moved_traversed hlegal emits port back source sourcePort).exists_settled
      exact hsettled h

def latestOn (k : EdgeKey) (past : List Applied) : Option String :=
  (past.find? fun r => r.node = k.source).bind fun r =>
    if r.port = k.sourcePort then some r.payloadRef else none

/-- A forward edge carries the latest emission of its source, when the source is done. -/
theorem Recorded.forward {w : RouterState} (h : Recorded t past w) (hw : Consistent t w)
    {eid : String} {k : EdgeKey} (hk : t.IsForward eid k) :
    contents t past eid =
      if (w.node k.source).status = .done then latestOn k past else none := by
  have hempty : ((w.node k.source).status = .done →
      (w.node k.source).takenPort ≠ some k.sourcePort) → contents t past eid = none := by
    intro hnot
    rw [← h.slots, slotPayload]
    cases htok : w.slots[eid]? with
    | none => rfl
    | some tok =>
      obtain ⟨-, hdone, hport⟩ := hw.forward eid k tok hk htok
      exact absurd hport (hnot hdone)
  by_cases hdone : (w.node k.source).status = .done
  swap
  · rw [if_neg hdone, hempty fun h => absurd h hdone]
  obtain ⟨r, hr, hport⟩ := h.done k.source hdone
  rw [if_pos hdone, latestOn, hr, Option.bind_some]
  by_cases hsame : r.port = k.sourcePort
  swap
  · rw [if_neg hsame]
    refine hempty fun _ heq => hsame ?_
    exact Option.some.inj (hport.symm.trans heq)
  rw [if_pos hsame]
  -- the slot is filled, by the newest emission on the port, and that is the newest of all
  obtain ⟨tok, htok⟩ := (Dict.mem_iff_get? _ _).mp
    (hw.filled eid k hk hdone (hport.trans (congrArg some hsame)))
  have hcarried : contents t past eid = some tok.payloadRef := by
    rw [← h.slots, slotPayload, htok]
    rfl
  rw [hcarried]
  rw [contents, hk.1, Option.bind_some, carried_eq_some_iff] at hcarried
  obtain ⟨newer, r', older, rfl, hn, -, hp, hnewer⟩ := hcarried
  have hfind : newer.find? (fun r => r.node = k.source) = none := by
    cases hx : newer.find? (fun r => r.node = k.source) with
    | none => rfl
    | some x =>
      rw [List.find?_append, hx] at hr
      obtain rfl := Option.some.inj hr
      have hnode : x.node = k.source := by simpa using List.find?_some hx
      exact absurd ⟨hnode, hsame⟩ (hnewer x (List.mem_of_find?_eq_some hx)).1
  rw [List.find?_append, hfind, Option.none_or, List.find?_cons, decide_eq_true hn] at hr
  rw [← Option.some.inj hr, hp]

theorem Applied.loop_eq_some {r : Applied} {eid : String} (h : r.loop t = some eid) :
    (t.outPortsOf r.node)[r.port]? = some [eid] ∧ eid ∈ t.bounds := by
  unfold Applied.loop at h
  split at h
  · next x hx =>
    split at h
    · next hb =>
      obtain rfl := Option.some.inj h
      exact ⟨hx, hb⟩
    · exact absurd h.symm (Option.some_ne_none eid)
  · exact absurd h.symm (Option.some_ne_none eid)

theorem Applied.loop_eq_some_iff (hlegal : t.Legal) {eid : String} {k : EdgeKey}
    (hk : t.IsBack eid k) (r : Applied) :
    r.loop t = some eid ↔ r.node = k.source ∧ r.port = k.sourcePort := by
  constructor
  · intro h
    obtain ⟨hport, -⟩ := Applied.loop_eq_some h
    obtain ⟨k', hk', hs, hp⟩ :=
      ((hlegal.outPort _ _ _ hport).mem_iff eid).mp List.mem_cons_self
    obtain rfl := Option.some.inj (hk.1.symm.trans hk')
    exact ⟨hs.symm, hp.symm⟩
  · rintro ⟨hs, hp⟩
    obtain ⟨eids, heids⟩ := hlegal.outPort_of_edge eid k hk.1
    have hport := hlegal.outPort _ _ _ heids
    rw [hport.back_exclusive eid ((hport.mem_iff eid).mpr ⟨k, hk.1, rfl, rfl⟩) hk.2] at heids
    rw [Applied.loop, hs, hp, heids]
    exact if_pos hk.2

theorem Applied.resets_of_inRegion (hlegal : t.Legal) {r : Applied} {a b : String}
    (h : r.resets t a = true) (hab : t.InRegion a b) : r.resets t b = true := by
  unfold Applied.resets at h ⊢
  cases hloop : r.loop t with
  | none =>
    rw [hloop] at h
    exact h
  | some eid =>
    rw [hloop] at h
    obtain ⟨hport, hb⟩ := Applied.loop_eq_some hloop
    obtain ⟨k, hk⟩ := hlegal.edge_of_bound eid hb
    dsimp only at h ⊢
    rw [Topology.endpoints_of_get? hk, decide_eq_true_eq, hlegal.mem_region eid k ⟨hk, hb⟩] at h ⊢
    exact Relation.ReflTransGen.trans h hab

theorem contents_back_iff (hlegal : t.Legal) {eid : String} {k : EdgeKey} (hk : t.IsBack eid k)
    (p : String) : contents t past eid = some p ↔
      ∃ newer r older, past = newer ++ r :: older ∧ r.loop t = some eid ∧ r.payloadRef = p ∧
        ∀ x ∈ newer, x.resets t k.target = false ∧ x.resets t k.source = false := by
  rw [contents, hk.1, Option.bind_some, carried_eq_some_iff]
  constructor
  · rintro ⟨newer, r, older, heq, hn, hport, hp, hnewer⟩
    refine ⟨newer, r, older, heq, (Applied.loop_eq_some_iff hlegal hk r).mpr ⟨hn, hport⟩, hp,
      fun x hx => ⟨?_, (hnewer x hx).2⟩⟩
    rw [Bool.eq_false_iff]
    intro hreset
    have hsource := Applied.resets_of_inRegion hlegal hreset (hlegal.closes_cycle eid k hk)
    rw [(hnewer x hx).2] at hsource
    cases hsource
  · rintro ⟨newer, r, older, heq, hloop, hp, hnewer⟩
    obtain ⟨hn, hport⟩ := (Applied.loop_eq_some_iff hlegal hk r).mp hloop
    refine ⟨newer, r, older, heq, hn, hport, hp, fun x hx => ⟨fun hsent => ?_, (hnewer x hx).2⟩⟩
    -- an emission on the port of a loop edge traverses it, and so resets its source
    have hloop := (Applied.loop_eq_some_iff hlegal hk x).mpr hsent
    have hreset := (hnewer x hx).2
    rw [Applied.resets, hloop] at hreset
    dsimp only at hreset
    rw [Topology.endpoints_of_get? hk.1, decide_eq_false_iff_not,
      hlegal.mem_region eid k hk] at hreset
    exact hreset (hlegal.closes_cycle eid k hk)

variable {proposer_model_error : String → String → Option String} {graph : PipelineGraph}
  {registry : Registry} {roles : Dict RoleConfig}

/-- **Activations are issued with fresh inputs.**  A forward in-edge brings the latest emission of
its source, if that was on its port; a loop edge brings the payload of the traversal that was the
latest to reset the node; and no payload is brought whose source has been reset since. -/
theorem inputs_fresh (hval : validate proposer_model_error graph registry roles =
      { problems := [], topology := some t })
    {log : List (Transition Step Event)} {s : Step} (run : RouterRun t log s) :
    ∀ a ∈ s.activations, ∃ content, a.inputs = portInputs t content a.nodeId ∧
      (∀ eid k, t.IsForward eid k → k.target = a.nodeId → Resolved s.state k.source ∧
        content eid = if (s.state.node k.source).status = .done then latestOn k (history log)
          else none) ∧
      (∀ eid k, t.IsBack eid k → k.target = a.nodeId → ∀ p, content eid = some p ↔
        ∃ newer r older, history log = newer ++ r :: older ∧ r.loop t = some eid ∧
          r.payloadRef = p ∧ ∀ x ∈ newer, x.resets t a.nodeId = false ∧
            x.resets t k.source = false) ∧
      ∀ eid k p, t.edges[eid]? = some k → content eid = some p →
        ∃ newer r older, history log = newer ++ r :: older ∧ r.node = k.source ∧
          r.port = k.sourcePort ∧ r.payloadRef = p ∧
            ∀ x ∈ newer, x.resets t k.source = false := by
  have hlegal := legal_of_report hval
  have hconsistent := (inv_of_reachable hlegal ⟨log, run⟩).consistent
  have hrecorded := recorded_of_run hlegal run
  intro a ha
  obtain ⟨hinputs, hrunning⟩ := issued_of_run hlegal run a ha
  refine ⟨contents t (history log), ?_, fun eid k hk ht => ⟨?_, hrecorded.forward hconsistent hk⟩,
    fun eid k hk ht p => ?_, fun eid k p hk hp => ?_⟩
  · rw [hinputs, funext hrecorded.slots]
  · exact hconsistent.resolved_of_ready hlegal hk
      (hconsistent.active _ (Or.inl (ht ▸ hrunning))).1
  · rw [← ht]
    exact contents_back_iff hlegal hk p
  · rw [contents, hk, Option.bind_some, carried_eq_some_iff] at hp
    obtain ⟨newer, r, older, heq, hn, hport, hp, hnewer⟩ := hp
    exact ⟨newer, r, older, heq, hn, hport, hp, fun x hx => (hnewer x hx).2⟩

/-- The run of the small graph that sends the left worker back once. -/
def sampleRun : List (Transition Step Event) × Step :=
  (scripted sampleTopology sampleScript).get isSome_sampleScript

theorem inputs_fresh_sample : ∃ a ∈ sampleRun.2.activations, a.activationId = "left#2" ∧
    ∃ content, a.inputs = portInputs sampleTopology content a.nodeId ∧
      ∀ p, content "join.again->left.redo" = some p ↔
        ∃ newer r older, history sampleRun.1 = newer ++ r :: older ∧
          r.loop sampleTopology = some "join.again->left.redo" ∧ r.payloadRef = p ∧
          ∀ x ∈ newer, x.resets sampleTopology "left" = false ∧
            x.resets sampleTopology "join" = false := by
  obtain ⟨a, ha, hid, hleft⟩ : ∃ a ∈ sampleRun.2.activations, a.activationId = "left#2" ∧
      a.nodeId = "left" := by decide +kernel
  have hback : sampleTopology.IsBack "join.again->left.redo" ⟨"join", "again", "left", "redo"⟩ :=
    ⟨by decide +kernel, by decide +kernel⟩
  obtain ⟨content, hinputs, -, hloop, -⟩ := inputs_fresh validate_sampleGraph
    (run_scripted (Option.some_get (by decide +kernel)).symm) a ha
  have hcontent := hloop _ _ hback hleft.symm
  rw [hleft] at hcontent
  exact ⟨a, ha, hid, content, hinputs, hcontent⟩

/-! ## 4. Loops that cross

`unit` may send back `note` or `core`.  It is reset by both loops, `note` by its own only.  When
`note` has been sent back and then `core`, before `note` ran, the token on the way to `note` came
from an activation that is no longer valid, and `note` runs without it. -/

def crossRegistry : Registry := Dict.ofItems [
  ("entry", ⟨"entry", .stage, none, [
    { name := "ok", direction := .output, payload := some "text" },
    { name := "alt", direction := .output, payload := some "text" }]⟩),
  ("side", ⟨"side", .stage, none, [
    { name := "work", direction := .input, payload := some "text", outPorts_plain := outPorts_plain_of_input _ _ },
    { name := "ok", direction := .output, payload := some "text" }]⟩),
  ("loop", ⟨"loop", .stage, none, [
    { name := "work", direction := .input, payload := some "text", outPorts_plain := outPorts_plain_of_input _ _ },
    { name := "again", direction := .input, payload := some "text", required := false,
      outPorts_plain := outPorts_plain_of_input _ _ },
    { name := "ok", direction := .output, payload := some "text" }]⟩),
  ("write", ⟨"write", .stage, none, [
    { name := "work", direction := .input, payload := some "text", outPorts_plain := outPorts_plain_of_input _ _ },
    { name := "note", direction := .input, payload := some "text", required := false,
      outPorts_plain := outPorts_plain_of_input _ _ },
    { name := "ok", direction := .output, payload := some "text" }]⟩),
  ("unit", ⟨"unit", .stage, none, [
    { name := "work", direction := .input, payload := some "text", outPorts_plain := outPorts_plain_of_input _ _ },
    { name := "text", direction := .input, payload := some "text", required := false,
      outPorts_plain := outPorts_plain_of_input _ _ },
    { name := "note", direction := .output, payload := some "text" },
    { name := "core", direction := .output, payload := some "text" }]⟩)]

def crossGraph : PipelineGraph where
  nodes := [{ id := "entry", type := "entry" }, { id := "side", type := "side" },
    { id := "core", type := "loop" }, { id := "note", type := "loop" },
    { id := "write", type := "write" }, { id := "unit", type := "unit" }]
  edges := [
    { source := "entry", sourcePort := "ok", target := "side", targetPort := "work" },
    { source := "entry", sourcePort := "ok", target := "core", targetPort := "work" },
    { source := "entry", sourcePort := "alt", target := "write", targetPort := "work" },
    { source := "side", sourcePort := "ok", target := "note", targetPort := "work" },
    { source := "core", sourcePort := "ok", target := "unit", targetPort := "work" },
    { source := "note", sourcePort := "ok", target := "write", targetPort := "note" },
    { source := "write", sourcePort := "ok", target := "unit", targetPort := "text" },
    { source := "unit", sourcePort := "note", target := "note", targetPort := "again",
      maxTraversals := some 1 },
    { source := "unit", sourcePort := "core", target := "core", targetPort := "again",
      maxTraversals := some 1 }]

def crossTopology : Topology := buildTopology crossGraph (firstNodes crossGraph) crossRegistry

theorem validate_crossGraph : validate (fun _ _ => none) crossGraph crossRegistry sampleRoles =
    { problems := [], topology := some crossTopology } :=
  validate_of_allProblems (by decide +kernel)

def crossRun : List (Transition Step Event) × Step :=
  (scripted crossTopology [⟨"entry#1", "ok", "e"⟩, ⟨"core#1", "ok", "c"⟩, ⟨"unit#1", "note", "u"⟩,
    ⟨"unit#2", "core", "v"⟩, ⟨"side#1", "ok", "s"⟩]).get (by decide +kernel)

/-- **The latest traversal that reset a node does not always reach it**: the condition on the source
in `inputs_fresh` cannot be left out. -/
theorem loop_input_cleared : ¬∀ (graph : PipelineGraph) (registry : Registry)
    (roles : Dict RoleConfig) (t : Topology), validate (fun _ _ => none) graph registry roles =
      { problems := [], topology := some t } →
    ∀ log s, RouterRun t log s → ∀ a ∈ s.activations, ∀ (p : String) (wiring : PortWiring),
      (t.inPortsOf a.nodeId)[p]? = some wiring → wiring.backEdges ≠ [] →
        (p ∈ a.inputs ↔ ∃ r eid, (history log).find? (fun r => r.resets t a.nodeId) = some r ∧
          r.loop t = some eid ∧ eid ∈ wiring.backEdges) := by
  intro h
  have hrun : RouterRun crossTopology crossRun.1 crossRun.2 :=
    run_scripted (Option.some_get (by decide +kernel)).symm
  have hnote : ∃ a ∈ crossRun.2.activations, a.nodeId = "note" ∧ "again" ∉ a.inputs := by
    decide +kernel
  obtain ⟨a, ha, hnode, hnone⟩ := hnote
  have hport : (crossTopology.inPortsOf "note")["again"]? =
      some ⟨false, .one, [], ["unit.note->note.again"]⟩ := by decide +kernel
  have hfind : (history crossRun.1).find? (fun r => r.resets crossTopology "note") =
      some ⟨"unit", "note", "u"⟩ := by decide +kernel
  have hloop : (⟨"unit", "note", "u"⟩ : Applied).loop crossTopology =
      some "unit.note->note.again" := by decide +kernel
  have hiff := h crossGraph crossRegistry sampleRoles crossTopology validate_crossGraph
    crossRun.1 crossRun.2 hrun a ha "again"
  rw [hnode] at hiff
  exact hnone ((hiff _ hport (List.cons_ne_nil _ _)).mpr
    ⟨_, _, hfind, hloop, List.mem_singleton.mpr rfl⟩)

end GraphRouter

end Kroker
