import Kroker.Graph.Freshness

/-!
# The ids and refs a call of the router issues

What a caller of `advance` may rely on when it keeps one task an activation.  The ids a call issues
are new and pairwise distinct, an id that was issued and is not live is never live again (`Issues`),
and every ref an activation is issued with is the payload of an emission that was applied before
(`exists_applied_of_mem_refs`).
-/

namespace Kroker

def Input.refs : Input → List String
  | .one ref => [ref]
  | .many refs => refs

def Activation.refs (a : Activation) : List String := a.inputs.toList.flatMap fun p => p.2.refs

namespace GraphRouter

variable {t : Topology}

/-! ## 1. Ids -/

/-- An activation of the node has been issued under this id. -/
def WasIssued (w : RouterState) (aid : String) : Prop :=
  ∃ n r, aid = gateKey n r ∧ 1 ≤ r ∧ r ≤ (w.node n).round

variable {w : RouterState}

theorem wasIssued_gateKey {n : String} {r : ℕ} :
    WasIssued w (gateKey n r) ↔ 1 ≤ r ∧ r ≤ (w.node n).round := by
  constructor
  · rintro ⟨m, k, heq, h1, hk⟩
    obtain ⟨rfl, rfl⟩ := gateKey_inj.mp heq
    exact ⟨h1, hk⟩
  · exact fun h => ⟨n, r, rfl, h.1, h.2⟩

/-- **What a call does to the ids of activations.** -/
structure Issues (t : Topology) (w : RouterState) (s : Step) : Prop where
  nodeIds : ∀ a ∈ s.activations, a.nodeId ∈ t.nodeIds
  fresh : ∀ a ∈ s.activations, ¬WasIssued w a.activationId
  issued : ∀ a ∈ s.activations, WasIssued s.state a.activationId
  nodup : (s.activations.map (·.activationId)).Nodup
  kept : ∀ aid, WasIssued w aid → WasIssued s.state aid
  live : ∀ aid ∈ s.state.live, aid ∈ w.live ∨ ∃ a ∈ s.activations, a.activationId = aid

theorem Issues.not_revived {s : Step} (h : Issues t w s) {aid : String} (hissued : WasIssued w aid)
    (hlive : aid ∉ w.live) : aid ∉ s.state.live := by
  intro hmem
  rcases h.live aid hmem with hold | ⟨a, ha, rfl⟩
  · exact hlive hold
  · exact h.fresh a ha hissued

theorem issues_of_none {s : Step} (hnone : s.activations = [])
    (hround : ∀ n, (s.state.node n).round = (w.node n).round)
    (hlive : ∀ aid ∈ s.state.live, aid ∈ w.live) : Issues t w s := by
  have hnot : ∀ a, a ∉ s.activations := fun a => by
    rw [hnone]
    exact List.not_mem_nil
  refine ⟨fun a ha => absurd ha (hnot a), fun a ha => absurd ha (hnot a),
    fun a ha => absurd ha (hnot a), by rw [hnone]; exact List.nodup_nil, ?_,
    fun aid haid => Or.inl (hlive aid haid)⟩
  rintro aid ⟨n, r, rfl, h1, hr⟩
  exact ⟨n, r, rfl, h1, hround n ▸ hr⟩

/-! ## 2. One activation a node -/

theorem nodeIds_issueAll (w : RouterState) (ready : List (String × Dict Input)) :
    (issueAll t w ready).2.map (·.nodeId) = ready.map (·.1) := by
  induction ready generalizing w with
  | nil => rfl
  | cons r ready ih => exact congrArg (r.1 :: ·) (ih _)

theorem collectReady_sublist {ns : List String} {ready : List (String × Dict Input)}
    (h : collectReady t w ns = .ok ready) :
    (ready.map (·.1)).Sublist ns := by
  induction ns generalizing ready with
  | nil =>
    rw [← Except.ok.inj h]
    exact List.nil_sublist _
  | cons n ns ih =>
    rw [collectReady] at h
    split at h
    · cases hi : inputs t w n with
      | none =>
        rw [hi] at h
        cases h
      | some i =>
        rw [hi] at h
        cases hrest : collectReady t w ns with
        | error e =>
          simp only [hrest] at h
          cases h
        | ok rest =>
          simp only [hrest] at h
          rw [← Except.ok.inj h]
          exact (ih hrest).cons_cons n
    · exact (ih h).cons n

theorem nodup_nodeIds_settle (hlegal : t.Legal) (w : RouterState) (cancelled : List String) :
    ((settle t w cancelled).activations.map (·.nodeId)).Nodup := by
  unfold settle
  dsimp only
  split
  · exact List.nodup_nil
  · rename_i ready hready
    show ((issueAll t _ ready).2.map (·.nodeId)).Nodup
    rw [nodeIds_issueAll]
    exact hlegal.nodup_nodeIds.sublist (collectReady_sublist hready)

theorem Settled.issues {b : RouterState} {cancelled : List String} {s : Step}
    (h : Settled t b cancelled s) (hb : Consistent t b)
    (hnodup : (s.activations.map (·.nodeId)).Nodup)
    (hround : ∀ n, (b.node n).round = (w.node n).round) (hlive : ∀ aid ∈ b.live, aid ∈ w.live) :
    Issues t w s := by
  have hid : ∀ a ∈ s.activations, ∃ n, IssuedIn t b s.state n ∧ a.nodeId = n ∧
      a.activationId = gateKey n (s.state.node n).round := by
    intro a ha
    obtain ⟨n, hn, rfl⟩ := (h.activations a).mp ha
    exact ⟨n, hn, rfl, rfl⟩
  refine ⟨fun a ha => ?_, fun a ha hissued => ?_, fun a ha => ?_, ?_, ?_, fun aid haid => ?_⟩
  · obtain ⟨n, hn, rfl, -⟩ := hid a ha
    exact hn.1
  · obtain ⟨n, hn, -, heq⟩ := hid a ha
    rw [heq, wasIssued_gateKey, h.round_of_issued hb hn, hround] at hissued
    exact absurd hissued.2 (Nat.not_succ_le_self _)
  · obtain ⟨n, hn, -, heq⟩ := hid a ha
    rw [heq, wasIssued_gateKey]
    exact ⟨by rw [h.round_of_issued hb hn]; exact Nat.succ_pos _, le_rfl⟩
  · have hnodes : (s.activations.map (·.activationId)).map nodeOf =
        s.activations.map (·.nodeId) := by
      rw [List.map_map]
      refine List.map_congr_left fun a ha => ?_
      obtain ⟨n, -, hn, heq⟩ := hid a ha
      show nodeOf a.activationId = a.nodeId
      rw [heq, nodeOf_gateKey, hn]
    exact List.Nodup.of_map nodeOf (hnodes ▸ hnodup)
  · rintro aid ⟨n, r, rfl, h1, hr⟩
    exact ⟨n, r, rfl, h1, hr.trans (hround n ▸ h.round_le hb n)⟩
  · obtain ⟨l, hl⟩ := (Dict.mem_iff_get? _ _).mp haid
    rcases h.live_cases hl with hold | ⟨n, hn, rfl, rfl⟩
    · exact Or.inl (hlive aid ((Dict.mem_iff_get? _ _).mpr ⟨l, hold⟩))
    · exact Or.inr ⟨_, (h.activations _).mpr ⟨n, hn, rfl⟩, rfl⟩

theorem issues_start (hlegal : t.Legal) : Issues t (initial t) (start t) :=
  (settled_start hlegal).issues (consistent_initial t) (nodup_nodeIds_settle hlegal _ _)
    (fun _ => rfl) fun _ h => h

theorem live_terminate (w : RouterState) (outcome : Outcome) (reason : String)
    (emitter : Option String) (cancelled : List String) (aid : String) :
    aid ∉ (terminate w outcome reason emitter cancelled).state.live :=
  Std.ExtTreeMap.not_mem_empty

/-- **A call of `advance` issues new ids and revives none**, and the id it applies is not live
afterwards. -/
theorem Advanced.issues (hlegal : t.Legal) (hw : Inv t w) {event : Event} {s : Step}
    (h : Advanced t w event s) :
    Issues t w s ∧ ∀ e, event = .emitted e → e.activationId ∉ s.state.live := by
  have hsettled : ∀ {e : Emitted} {n : String} {edges cleared : List String} {b : RouterState}
      {cancelled : List String}, Moved t w e n edges cleared (settle t b cancelled) →
      Issues t w (settle t b cancelled) ∧ (WasIssued w e.activationId →
        e.activationId ∉ (settle t b cancelled).state.live) := by
    intro e n edges cleared b cancelled hmoved
    obtain ⟨b', _, hmoves, hb', hset, -⟩ := hmoved.exists_settled
    have hlive : ∀ aid ∈ b'.live, aid ∈ w.live ∧ aid ≠ e.activationId := by
      intro aid hmem
      obtain ⟨l, hl⟩ := (Dict.mem_iff_get? _ _).mp hmem
      rw [hmoves.live] at hl
      split at hl
      · exact nomatch hl
      · rename_i hne
        cases hold : w.live[aid]? with
        | none =>
          rw [hold] at hl
          exact nomatch hl
        | some l' => exact ⟨(Dict.mem_iff_get? _ _).mpr ⟨l', hold⟩, fun heq => hne heq.symm⟩
    have hissues := hset.issues hb' (nodup_nodeIds_settle hlegal _ _) (fun x => hmoves.round x)
      fun aid hmem => (hlive aid hmem).1
    refine ⟨hissues, fun hissued hmem => ?_⟩
    obtain ⟨l, hl⟩ := (Dict.mem_iff_get? _ _).mp hmem
    rcases hset.live_cases hl with hold | ⟨x, hx, heq, -⟩
    · exact (hlive _ ((Dict.mem_iff_get? _ _).mpr ⟨l, hold⟩)).2 rfl
    · exact hissues.fresh _ ((hset.activations _).mpr ⟨x, hx, rfl⟩) (heq ▸ hissued)
  have hissued : ∀ {e : Emitted} {l : LiveActivation}, Emits w e l →
      WasIssued w e.activationId := by
    intro e l he
    obtain ⟨n, -, r, heq, h1, hr⟩ := hw.accounted.live _ ((Dict.mem_iff_get? _ _).mpr ⟨l, he.live⟩)
    exact ⟨n, r, heq, h1, hr⟩
  cases h with
  | halted x running =>
    exact ⟨issues_of_none rfl (fun _ => rfl) fun aid h => absurd h (live_terminate _ _ _ _ _ aid),
      fun e he => nomatch he⟩
  | late e reason notLive =>
    refine ⟨issues_of_none rfl (fun _ => rfl) fun aid h => h, fun e' he => ?_⟩
    obtain rfl := Event.emitted.inj he
    exact (Dict.notMem_iff_get? _ _).mpr notLive
  | escalated e l why live unavailable =>
    exact ⟨issues_of_none rfl (fun _ => rfl) fun aid h => absurd h (live_terminate _ _ _ _ _ aid),
      fun e' _ => live_terminate _ _ _ _ _ _⟩
  | ended e l kind emits port terminal =>
    refine ⟨issues_of_none rfl (fun n => ?_) fun aid h => absurd h (live_terminate _ _ _ _ _ aid),
      fun e' _ => live_terminate _ _ _ _ _ _⟩
    show ((delivered w l.nodeId e []).node n).round = (w.node n).round
    rw [node_delivered]
    split
    · rename_i heq
      rw [heq]
    · rfl
  | forwarded e l edges emits port forward =>
    obtain ⟨hissues, hlive⟩ := hsettled (hw.moved_forwarded hlegal emits port forward)
    refine ⟨hissues, fun e' he => ?_⟩
    obtain rfl := Event.emitted.inj he
    exact hlive (hissued emits)
  | traversed e l eid k emits port back source sourcePort =>
    obtain ⟨hissues, hlive⟩ :=
      hsettled (hw.moved_traversed hlegal emits port back source sourcePort)
    refine ⟨hissues, fun e' he => ?_⟩
    obtain rfl := Event.emitted.inj he
    exact hlive (hissued emits)

/-! ## 3. Refs -/

theorem mem_refs_portInput {content : String → Option String} {wiring : PortWiring} {i : Input}
    (hone : overfull content wiring = false) (h : portInput content wiring = some i) {ref : String} :
    ref ∈ i.refs ↔ ∃ eid ∈ occupied content wiring, content eid = some ref := by
  unfold portInput at h
  split at h
  · exact nomatch h
  · rename_i e es hoccupied
    rw [hoccupied]
    cases hm : wiring.multiplicity with
    | many =>
      rw [hm] at h
      dsimp only at h
      rw [← Option.some.inj h]
      exact List.mem_filterMap
    | one =>
      rw [hm] at h
      dsimp only at h
      obtain ⟨p, hp, rfl⟩ := Option.map_eq_some_iff.mp h
      -- the port takes one token, so only one of its edges carries anything
      rw [overfull, hoccupied, hm, decide_eq_true rfl, Bool.true_and, decide_eq_false_iff_not,
        List.length_cons] at hone
      obtain rfl : es = [] := List.length_eq_zero_iff.mp (by omega)
      simp only [Input.refs, List.mem_singleton, exists_eq_left, hp, Option.some.injEq]
      exact eq_comm

/-- What an activation is issued with is what the edges into its node carry. -/
theorem mem_refs_portInputs (hlegal : t.Legal) {content : String → Option String} {n : String}
    (hone : ∀ (p : String) (wiring : PortWiring), (t.inPortsOf n)[p]? = some wiring →
      overfull content wiring = false) {ref : String} :
    (∃ p ∈ (portInputs t content n).toList, ref ∈ p.2.refs) ↔
      ∃ eid k, t.edges[eid]? = some k ∧ k.target = n ∧ content eid = some ref := by
  constructor
  · rintro ⟨p, hp, href⟩
    have hget : (portInputs t content n)[p.1]? = some p.2 :=
      Std.ExtTreeMap.mem_toList_iff_getElem?_eq_some.mp hp
    rw [portInputs, Std.ExtTreeMap.getElem?_filterMap'] at hget
    obtain ⟨wiring, hwiring, hport⟩ := Option.bind_eq_some_iff.mp hget
    obtain ⟨eid, heid, hcarries⟩ := (mem_refs_portInput (hone _ _ hwiring) hport).mp href
    have hlegal' := hlegal.inPort _ _ _ hwiring
    rcases (mem_occupied.mp heid).1 with hforward | hback
    · obtain ⟨k, hk, htarget, -⟩ := (hlegal'.mem_forwardEdges eid).mp hforward
      exact ⟨eid, k, hk.1, htarget, hcarries⟩
    · obtain ⟨k, hk, htarget, -⟩ := (hlegal'.mem_backEdges eid).mp hback
      exact ⟨eid, k, hk.1, htarget, hcarries⟩
  · rintro ⟨eid, k, hk, rfl, hcarries⟩
    obtain ⟨wiring, hwiring⟩ := hlegal.inPort_of_edge eid k hk
    have hlegal' := hlegal.inPort _ _ _ hwiring
    have hocc : eid ∈ occupied content wiring := by
      refine mem_occupied.mpr ⟨?_, by rw [hcarries]; rfl⟩
      rcases Topology.isForward_or_isBack hk with hforward | hback
      · exact Or.inl ((hlegal'.mem_forwardEdges eid).mpr ⟨k, hforward, rfl, rfl⟩)
      · exact Or.inr ((hlegal'.mem_backEdges eid).mpr ⟨k, hback, rfl, rfl⟩)
    obtain ⟨i, hi⟩ : ∃ i, portInput content wiring = some i := by
      unfold portInput
      cases hw : occupied content wiring with
      | nil => exact absurd hocc (by rw [hw]; exact List.not_mem_nil)
      | cons e es =>
        cases hm : wiring.multiplicity with
        | many => exact ⟨_, rfl⟩
        | one =>
          have he := (mem_occupied.mp (hw ▸ List.mem_cons_self : e ∈ occupied content wiring)).2
          obtain ⟨p, hp⟩ := Option.isSome_iff_exists.mp he
          exact ⟨.one p, by simp only [hp, Option.map_some]⟩
    refine ⟨(k.targetPort, i), Std.ExtTreeMap.mem_toList_iff_getElem?_eq_some.mpr ?_,
      (mem_refs_portInput (hone _ _ hwiring) hi).mpr ⟨eid, hocc, hcarries⟩⟩
    rw [portInputs, Std.ExtTreeMap.getElem?_filterMap', hwiring, Option.bind_some, hi]

/-- **The refs of an activation are what the edges into its node carry.** -/
theorem mem_refs_iff (hlegal : t.Legal) {log : List (Transition Step Event)} {s : Step}
    (run : RouterRun t log s) {a : Activation} (ha : a ∈ s.activations) {ref : String} :
    ref ∈ a.refs ↔ ∃ eid k, t.edges[eid]? = some k ∧ k.target = a.nodeId ∧
      contents t (history log) eid = some ref := by
  have hslots : slotPayload s.state = contents t (history log) :=
    funext (recorded_of_run hlegal run).slots
  have hfull := (inv_of_reachable hlegal ⟨log, run⟩).consistent.noOverfull hlegal
  rw [Activation.refs, List.mem_flatMap, (issued_of_run hlegal run a ha).1, hslots]
  exact mem_refs_portInputs hlegal fun p wiring hwiring => hslots ▸ hfull a.nodeId p wiring hwiring

theorem emitted_of_appliedIn {x : Transition Step Event} {r : Applied}
    (h : appliedIn x = some r) :
    ∃ e, x.event = .emitted e ∧ r.port = e.port ∧ r.payloadRef = e.payloadRef := by
  unfold appliedIn at h
  split at h
  · exact nomatch h
  · rename_i e hevent
    split at h
    · exact nomatch h
    · split at h
      · exact ⟨e, hevent, by rw [← Option.some.inj h], by rw [← Option.some.inj h]⟩
      · exact nomatch h

/-- **Every ref an activation is issued with is the payload of an emission that was applied.** -/
theorem exists_applied_of_mem_refs (hlegal : t.Legal) {log : List (Transition Step Event)} {s : Step}
    (run : RouterRun t log s) {a : Activation} (ha : a ∈ s.activations) {ref : String}
    (href : ref ∈ a.refs) : ∃ r ∈ history log, r.payloadRef = ref := by
  obtain ⟨eid, k, hk, -, hcarries⟩ := (mem_refs_iff hlegal run ha).mp href
  rw [contents, hk, Option.bind_some] at hcarries
  obtain ⟨newer, r, older, heq, -, -, hr, -⟩ := carried_eq_some_iff.mp hcarries
  exact ⟨r, by rw [heq]; exact List.mem_append_right _ List.mem_cons_self, hr⟩

end GraphRouter

end Kroker
