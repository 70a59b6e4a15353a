import Kroker.Graph.Settle

/-!
# The invariant of the router

`Consistent` relates slots, nodes, live activations and counters, and holds of every scratch state
that is handed to `settle`; `Accounted` says where the id of every issued activation is kept.  A
reachable state also is settled, unless the run is over (`Inv`).

Two halves of `Consistent` carry the rest.  A filled forward slot belongs to the latest activation
of its source (`forward`), so a node that is ready has only sources that have finished; and a
finished source has filled all the edges of the port it took (`filled`), so a node whose sources
have all finished is dead or ready.  Both are kept by an invalidation because regions are closed
along forward edges: a node outside the region has all its sources outside.
-/

namespace Kroker

namespace GraphRouter

/-- What holds between the slots, nodes, live activations and counters. -/
structure Consistent (t : Topology) (w : RouterState) : Prop where
  keys : ∀ n, n ∈ w.nodes ↔ n ∈ t.nodeIds
  slot_edge : ∀ eid ∈ w.slots, ∃ k : EdgeKey, t.edges[eid]? = some k
  forward : ∀ eid k tok, t.IsForward eid k → w.slots[eid]? = some tok →
    tok.producer = gateKey k.source (w.node k.source).round ∧
      (w.node k.source).status = .done ∧ (w.node k.source).takenPort = some k.sourcePort
  back : ∀ eid k tok, t.IsBack eid k → w.slots[eid]? = some tok → nodeOf tok.producer = k.source
  one_back : ∀ eid eid' k k', t.IsBack eid k → t.IsBack eid' k' → k.target = k'.target →
    eid ∈ w.slots → eid' ∈ w.slots → eid = eid'
  filled : ∀ eid k, t.IsForward eid k → (w.node k.source).status = .done →
    (w.node k.source).takenPort = some k.sourcePort → eid ∈ w.slots
  dead : ∀ n, (w.node n).status = .dead → isDead t w n = true
  active : ∀ n, (w.node n).status = .running ∨ (w.node n).status = .done →
    isReady t w n = true ∧ isDead t w n = false
  traversed_le : ∀ (eid : String) (b : ℕ), t.bounds[eid]? = some b → w.traversed eid ≤ b
  live : ∀ (aid : String) (l : LiveActivation), w.live[aid]? = some l →
    l.activationId = aid ∧ aid = gateKey l.nodeId (w.node l.nodeId).round ∧
      (w.node l.nodeId).status = .running
  live_bound : ∀ (aid : String) (l : LiveActivation) (eid : String) (k : EdgeKey) (b : ℕ),
    w.live[aid]? = some l → t.IsBack eid k → k.source = l.nodeId →
      l.unavailablePorts[k.sourcePort]? = none → t.bounds[eid]? = some b → w.traversed eid < b

/-- The id of every issued activation is live, retired or in an emission, and only in one of
them. -/
structure Accounted (t : Topology) (w : RouterState) : Prop where
  issued : ∀ n ∈ t.nodeIds, ∀ r, 1 ≤ r → r ≤ (w.node n).round →
    gateKey n r ∈ w.live ∨ gateKey n r ∈ w.retired ∨
      ∃ e ∈ w.emissions, e.activationId = gateKey n r
  live : ∀ aid ∈ w.live, ∃ n ∈ t.nodeIds, ∃ r, aid = gateKey n r ∧ 1 ≤ r ∧ r ≤ (w.node n).round
  retired : ∀ aid ∈ w.retired, aid ∉ w.live ∧
    ∃ n ∈ t.nodeIds, ∃ r, aid = gateKey n r ∧ 1 ≤ r ∧ r ≤ (w.node n).round
  emitted : ∀ e ∈ w.emissions, e.activationId ∉ w.live ∧ e.activationId ∉ w.retired ∧
    ∃ n ∈ t.nodeIds, ∃ r, e.activationId = gateKey n r ∧ 1 ≤ r ∧ r ≤ (w.node n).round
  emitted_once : (w.emissions.map Emission.activationId).Nodup

def AllWaiting (t : Topology) (w : RouterState) : Prop :=
  ∀ n ∈ t.nodeIds, (w.node n).status = .pending → isDead t w n = false ∧ isReady t w n = false

/-- The text a run is escalated with when an activation takes a port it was told not to take. -/
def escalationText (n p : String) (why : Unavailable) : String := s!"{n}.{p}: {why.value}"

/-- **The invariant of reachable states.** -/
structure Inv (t : Topology) (w : RouterState) : Prop where
  consistent : Consistent t w
  accounted : Accounted t w
  waiting : w.outcome.isTerminal = false → AllWaiting t w
  running_live : w.outcome.isTerminal = false → ∀ n, (w.node n).status = .running →
    gateKey n (w.node n).round ∈ w.live
  ended : w.outcome.isTerminal = true → w.live = ∅
  outcome : w.outcome.isTerminal = false →
    w.outcome = if w.live.isEmpty then .completed else .running
  escalation : w.outcome = .escalated →
    ∃ n ∈ t.nodeIds, ∃ p why, w.reason = some (escalationText n p why)

variable {t : Topology}

/-! ## 1. Finished sources -/

theorem Consistent.mem_nodeIds {w : RouterState} (h : Consistent t w) {n : String}
    (hn : (w.node n).status ≠ .pending) : n ∈ t.nodeIds := by
  by_contra hout
  have hnone := (Dict.notMem_iff_get? w.nodes n).mp fun hmem => hout ((h.keys n).mp hmem)
  rw [RouterState.node, Dict.getD_eq, hnone] at hn
  exact hn rfl

theorem exists_fed (hlegal : t.Legal) {eid : String} {k : EdgeKey} (hk : t.IsForward eid k) :
    ∃ p wiring, Fed t k.target p wiring ∧ eid ∈ wiring.forwardEdges := by
  obtain ⟨wiring, hw⟩ := hlegal.inPort_of_edge eid k hk.1
  have hmem := ((hlegal.inPort _ _ _ hw).mem_forwardEdges eid).mpr ⟨k, hk, rfl, rfl⟩
  exact ⟨k.targetPort, wiring, ⟨hw, List.ne_nil_of_mem hmem⟩, hmem⟩

/-- **A ready node has only finished sources.** -/
theorem Consistent.resolved_of_ready {w : RouterState} (h : Consistent t w) (hlegal : t.Legal)
    {eid : String} {k : EdgeKey} (hk : t.IsForward eid k) (hr : isReady t w k.target = true) :
    Resolved w k.source := by
  obtain ⟨p, wiring, hp, hmem⟩ := exists_fed hlegal hk
  have hdone : ∀ e k', t.IsForward e k' → e ∈ w.slots → (w.node k'.source).status = .done := by
    intro e k' hk' he
    obtain ⟨tok, htok⟩ := (Dict.mem_iff_get? w.slots e).mp he
    exact (h.forward e k' tok hk' htok).2.1
  rcases isReady_iff.mp hr p wiring hp with hfilled | ⟨-, hdead⟩
  · obtain ⟨-, ⟨e, he, hslot⟩, hmany⟩ := (portState_filled_iff w wiring).mp hfilled
    cases hm : wiring.multiplicity with
    | one =>
      -- the filled slot has the same source as every other edge of the port
      obtain ⟨k', hk', -, -⟩ := ((hlegal.inPort _ _ _ hp.1).mem_forwardEdges e).mp he
      have hsame := (hlegal.inPort _ _ _ hp.1).one_source hm e eid k' k he hmem hk'.1 hk.1
      exact Or.inl (hsame ▸ hdone e k' hk' hslot)
    | many =>
      rcases hmany hm eid hmem with hs | hd
      · exact Or.inl (hdone eid k hk hs)
      · exact resolved_of_edgeDead hk.1 hd
  · exact resolved_of_edgeDead hk.1 ((portState_dead_iff w wiring).mp hdead eid hmem)

/-- **A node with only finished sources is dead or ready.** -/
theorem Consistent.dead_or_ready {w : RouterState} (h : Consistent t w) (hlegal : t.Legal)
    {n : String} (hn : ∀ eid k, t.IsForward eid k → k.target = n → Resolved w k.source) :
    isDead t w n = true ∨ isReady t w n = true := by
  have hedge : ∀ eid k, t.IsForward eid k → k.target = n →
      edgeDead t w eid = true ∨ eid ∈ w.slots := by
    intro eid k hk ht
    rw [edgeDead_iff hk.1]
    rcases hn eid k hk ht with hd | hd
    · by_cases htaken : (w.node k.source).takenPort = some k.sourcePort
      · exact Or.inr (h.filled eid k hk hd htaken)
      · exact Or.inl (Or.inr ⟨hd, htaken⟩)
    · exact Or.inl (Or.inl hd)
  have hport : ∀ p wiring, Fed t n p wiring →
      portState t w wiring = .dead ∨ portState t w wiring = .filled := by
    intro p wiring hp
    by_cases hall : ∀ e ∈ wiring.forwardEdges, edgeDead t w e = true
    · exact Or.inl ((portState_dead_iff w wiring).mpr hall)
    · right
      push Not at hall
      obtain ⟨e, he, hd⟩ := hall
      have hmem : ∀ x ∈ wiring.forwardEdges, edgeDead t w x = true ∨ x ∈ w.slots := by
        intro x hx
        obtain ⟨k, hk, ht, -⟩ := ((hlegal.inPort _ _ _ hp.1).mem_forwardEdges x).mp hx
        exact hedge x k hk ht
      rw [portState_filled_iff]
      refine ⟨⟨e, he, Bool.not_eq_true _ ▸ hd⟩, ⟨e, he, (hmem e he).resolve_left hd⟩, ?_⟩
      exact fun _ x hx => (hmem x hx).symm
  by_cases hdead : isDead t w n = true
  · exact Or.inl hdead
  · right
    rw [isReady_iff]
    intro p wiring hp
    rcases hport p wiring hp with hd | hf
    · refine Or.inr ⟨?_, hd⟩
      by_contra hreq
      rw [Bool.not_eq_false] at hreq
      exact hdead (isDead_iff.mpr ⟨⟨p, wiring, hp⟩, Or.inl ⟨p, wiring, hp, hreq, hd⟩⟩)
    · exact Or.inl hf

theorem length_le_one_of_nodup {l : List String} (hnodup : l.Nodup)
    (h : ∀ x ∈ l, ∀ y ∈ l, x = y) : l.length ≤ 1 := by
  cases l with
  | nil => exact Nat.zero_le 1
  | cons x l =>
    cases l with
    | nil => exact le_rfl
    | cons y l =>
      have heq := h x List.mem_cons_self y (List.mem_cons_of_mem _ List.mem_cons_self)
      exact absurd (heq ▸ List.mem_cons_self) (List.nodup_cons.mp hnodup).1

theorem mem_occupied {content : String → Option String} {wiring : PortWiring} {e : String} :
    e ∈ occupied content wiring ↔
      (e ∈ wiring.forwardEdges ∨ e ∈ wiring.backEdges) ∧ (content e).isSome = true := by
  rw [occupied, List.mem_insertionSort, List.mem_filter, List.mem_append]

theorem isSome_slotPayload {w : RouterState} {e : String} :
    (slotPayload w e).isSome = true ↔ e ∈ w.slots := by
  rw [slotPayload, Option.isSome_map, Std.ExtTreeMap.mem_iff_isSome_getElem?]

/-- **No `one` port holds two tokens.** -/
theorem Consistent.noOverfull {w : RouterState} (h : Consistent t w) (hlegal : t.Legal) :
    NoOverfull t w := by
  intro n p wiring hp
  have hport := hlegal.inPort n p wiring hp
  rw [overfull, Bool.and_eq_false_iff, decide_eq_false_iff_not, decide_eq_false_iff_not, not_lt]
  by_cases hm : wiring.multiplicity = .one
  swap
  · exact Or.inl hm
  right
  refine length_le_one_of_nodup ?_ ?_
  · rw [occupied, (List.perm_insertionSort _ _).nodup_iff]
    refine List.Nodup.filter _ ?_
    rcases hport.not_mixed with hnil | hnil
    · rw [hnil, List.nil_append]
      exact hport.nodup_backEdges
    · rw [hnil, List.append_nil]
      exact hport.nodup_forwardEdges
  · intro x hx y hy
    obtain ⟨hx, hxs⟩ := mem_occupied.mp hx
    obtain ⟨hy, hys⟩ := mem_occupied.mp hy
    rw [isSome_slotPayload] at hxs hys
    rcases hport.not_mixed with hnil | hnil
    · rw [hnil] at hx hy
      have hx := hx.resolve_left List.not_mem_nil
      have hy := hy.resolve_left List.not_mem_nil
      obtain ⟨k, hk, ht, -⟩ := (hport.mem_backEdges x).mp hx
      obtain ⟨k', hk', ht', -⟩ := (hport.mem_backEdges y).mp hy
      exact h.one_back x y k k' hk hk' (ht.trans ht'.symm) hxs hys
    · rw [hnil] at hx hy
      have hx := hx.resolve_right List.not_mem_nil
      have hy := hy.resolve_right List.not_mem_nil
      obtain ⟨k, hk, ht, htp⟩ := (hport.mem_forwardEdges x).mp hx
      obtain ⟨k', hk', ht', htp'⟩ := (hport.mem_forwardEdges y).mp hy
      obtain ⟨tok, htok⟩ := (Dict.mem_iff_get? w.slots x).mp hxs
      obtain ⟨tok', htok'⟩ := (Dict.mem_iff_get? w.slots y).mp hys
      -- both were filled by the one source of the port, through the one port it took
      have hsource := hport.one_source hm x y k k' hx hy hk.1 hk'.1
      have htaken := (h.forward x k tok hk htok).2.2
      have htaken' := (h.forward y k' tok' hk' htok').2.2
      rw [hsource, htaken'] at htaken
      have hkk : k = k' := by
        cases k
        cases k'
        simp only [EdgeKey.mk.injEq]
        exact ⟨hsource, (Option.some.inj htaken).symm, ht.trans ht'.symm, htp.trans htp'.symm⟩
      rw [hlegal.edge_id x k hk.1, hlegal.edge_id y k' hk'.1, hkk]

/-! ## 2. Settling keeps the invariant -/

section Settle

variable {w : RouterState} {cancelled : List String} {s : Step}

section

variable (h : Settled t w cancelled s)

include h

theorem Settled.node_cases (hw : Consistent t w) (n : String) :
    s.state.node n = w.node n ∨ ((w.node n).status = .pending ∧
      ((s.state.node n = { round := (w.node n).round, status := .dead } ∧
          isDead t s.state n = true) ∨
        (s.state.node n = { round := (w.node n).round + 1, status := .running } ∧
          isDead t s.state n = false ∧ isReady t s.state n = true))) := by
  by_cases hn : (w.node n).status = .pending
  swap
  · exact Or.inl (h.active n hn)
  by_cases hid : n ∈ t.nodeIds
  swap
  · -- a node that is not in the graph has no state in either
    have hout : n ∉ w.nodes := fun hmem => hid ((hw.keys n).mp hmem)
    have hout' : n ∉ s.state.nodes := fun hmem => hout ((h.keys n).mp hmem)
    rw [Dict.notMem_iff_get?] at hout hout'
    left
    rw [RouterState.node, RouterState.node, Dict.getD_eq, Dict.getD_eq, hout, hout']
  have hsettled := h.pending n hid hn
  rw [settledNode] at hsettled
  by_cases hd : isDead t s.state n = true
  · rw [if_pos hd] at hsettled
    exact Or.inr ⟨hn, Or.inl ⟨hsettled, hd⟩⟩
  · rw [if_neg hd] at hsettled
    by_cases hr : isReady t s.state n = true
    · rw [if_pos hr] at hsettled
      exact Or.inr ⟨hn, Or.inr ⟨hsettled, Bool.not_eq_true _ ▸ hd, hr⟩⟩
    · rw [if_neg hr] at hsettled
      exact Or.inl hsettled

theorem Settled.node_of_resolved {n : String}
    (hn : Resolved w n) : s.state.node n = w.node n := by
  refine h.active n fun hp => ?_
  rcases hn with hd | hd <;> rw [hd] at hp <;> cases hp

theorem Settled.done_iff (hw : Consistent t w) {n : String}
    (hn : (s.state.node n).status = .done) : s.state.node n = w.node n := by
  rcases h.node_cases hw n with hsame | ⟨-, ⟨hd, -⟩ | ⟨hr, -⟩⟩
  · exact hsame
  · rw [hd] at hn
    cases hn
  · rw [hr] at hn
    cases hn

theorem Settled.edgeDead_mono {eid : String} {k : EdgeKey}
    (hk : t.edges[eid]? = some k) (hd : edgeDead t w eid = true) :
    edgeDead t s.state eid = true := by
  have hsame := h.node_of_resolved (resolved_of_edgeDead hk hd)
  rw [edgeDead_iff hk] at hd ⊢
  rw [hsame]
  exact hd

theorem Settled.agreeInto {n : String}
    (hn : ∀ eid k, t.IsForward eid k → k.target = n → Resolved w k.source) :
    AgreeInto t w s.state n := by
  intro eid k hk ht
  rw [h.slots]
  refine ⟨?_, Iff.rfl⟩
  rw [Bool.eq_iff_iff, edgeDead_iff hk.1, edgeDead_iff hk.1, h.node_of_resolved (hn eid k hk ht)]

theorem Settled.round_le (hw : Consistent t w) (n : String) :
    (w.node n).round ≤ (s.state.node n).round := by
  rcases h.node_cases hw n with hsame | ⟨-, ⟨hd, -⟩ | ⟨hr, -⟩⟩
  · rw [hsame]
  · rw [hd]
  · rw [hr]
    exact Nat.le_succ _

theorem Settled.live_cases {aid : String} {l : LiveActivation}
    (hl : s.state.live[aid]? = some l) :
    w.live[aid]? = some l ∨ ∃ n, IssuedIn t w s.state n ∧ aid = gateKey n (s.state.node n).round ∧
      l = { activationId := aid, nodeId := n, unavailablePorts := unavailable t s.state n } := by
  by_cases hissued : ∃ n, IssuedIn t w s.state n ∧ aid = gateKey n (s.state.node n).round
  · obtain ⟨n, hn, rfl⟩ := hissued
    rw [h.live_issued n hn, Option.some.injEq] at hl
    exact Or.inr ⟨n, hn, rfl, hl.symm⟩
  · push Not at hissued
    rw [h.live_other aid hissued] at hl
    exact Or.inl hl

theorem Settled.live_kept (hw : Consistent t w) {aid : String}
    {l : LiveActivation} (hl : w.live[aid]? = some l) : s.state.live[aid]? = some l := by
  rw [h.live_other, hl]
  intro n hn heq
  obtain ⟨-, haid, hrun⟩ := hw.live aid l hl
  have hp := hn.2.1
  rw [← (gateKey_inj.mp (haid.symm.trans heq)).1, hrun] at hp
  cases hp

theorem Settled.round_of_issued (hw : Consistent t w) {n : String}
    (hn : IssuedIn t w s.state n) : (s.state.node n).round = (w.node n).round + 1 := by
  rcases h.node_cases hw n with hsame | ⟨-, ⟨hd, -⟩ | ⟨hr, -⟩⟩
  · have hrun := hn.2.2
    rw [hsame, hn.2.1] at hrun
    cases hrun
  · have hrun := hn.2.2
    rw [hd] at hrun
    cases hrun
  · rw [hr]

theorem Settled.issued_of_round_lt (hw : Consistent t w)
    {n : String} (hlt : (w.node n).round < (s.state.node n).round) :
    IssuedIn t w s.state n ∧ (s.state.node n).round = (w.node n).round + 1 := by
  rcases h.node_cases hw n with hsame | ⟨hp, ⟨hd, -⟩ | ⟨hr, -⟩⟩
  · rw [hsame] at hlt
    exact absurd hlt (lt_irrefl _)
  · rw [hd] at hlt
    exact absurd hlt (lt_irrefl _)
  · have hid : n ∈ t.nodeIds := by
      rw [← hw.keys, ← h.keys]
      by_contra hout
      have hrun : (s.state.node n).status = .running := by rw [hr]
      rw [RouterState.node, Dict.getD_eq, (Dict.notMem_iff_get? _ _).mp hout] at hrun
      cases hrun
    exact ⟨⟨hid, hp, by rw [hr]⟩, by rw [hr]⟩

end

theorem traversed_lt_of_available (hlegal : t.Legal) {a : RouterState} {eid : String}
    {k : EdgeKey} {b : ℕ} (hk : t.IsBack eid k) (hb : t.bounds[eid]? = some b)
    (havail : (unavailable t a k.source)[k.sourcePort]? = none) : a.traversed eid < b := by
  obtain ⟨eids, heids⟩ := hlegal.outPort_of_edge eid k hk.1
  have hport := hlegal.outPort _ _ _ heids
  have hsingle := hport.back_exclusive eid ((hport.mem_iff eid).mpr ⟨k, hk.1, rfl, rfl⟩) hk.2
  rw [unavailable, Std.ExtTreeMap.getElem?_filterMap', heids, hsingle, Option.bind_some] at havail
  dsimp only at havail
  rw [hb, Option.bind_some] at havail
  by_contra hle
  rw [if_pos (not_lt.mp hle)] at havail
  exact Option.some_ne_none _ havail

theorem Consistent.settle (h : Settled t w cancelled s) (hlegal : t.Legal)
    (hw : Consistent t w) : Consistent t s.state := by
  have htrav : ∀ eid, s.state.traversed eid = w.traversed eid := fun eid => by
    rw [RouterState.traversed, h.traversals, RouterState.traversed]
  refine ⟨fun n => (h.keys n).trans (hw.keys n), ?_, ?_, ?_, ?_, ?_, ?_, ?_, ?_, ?_, ?_⟩
  · rw [h.slots]
    exact hw.slot_edge
  · intro eid k tok hk htok
    rw [h.slots] at htok
    have hfwd := hw.forward eid k tok hk htok
    rw [h.node_of_resolved (Or.inl hfwd.2.1)]
    exact hfwd
  · intro eid k tok hk htok
    rw [h.slots] at htok
    exact hw.back eid k tok hk htok
  · rw [h.slots]
    exact hw.one_back
  · intro eid k hk hdone htaken
    have hsame := h.done_iff hw hdone
    rw [hsame] at hdone htaken
    rw [h.slots]
    exact hw.filled eid k hk hdone htaken
  · intro n hn
    rcases h.node_cases hw n with hsame | ⟨-, ⟨-, hd⟩ | ⟨hr, -⟩⟩
    · rw [hsame] at hn
      exact isDead_mono hlegal (fun eid k hk _ hd => h.edgeDead_mono hk.1 hd) (hw.dead n hn)
    · exact hd
    · rw [hr] at hn
      cases hn
  · intro n hn
    rcases h.node_cases hw n with hsame | ⟨-, ⟨hd, -⟩ | ⟨-, hd, hr⟩⟩
    · rw [hsame] at hn
      obtain ⟨hr, hd⟩ := hw.active n hn
      have hagree := h.agreeInto (n := n) fun eid k hk ht =>
        hw.resolved_of_ready hlegal hk (ht ▸ hr)
      rw [← isReady_congr hlegal hagree, ← isDead_congr hlegal hagree]
      exact ⟨hr, hd⟩
    · rw [hd] at hn
      exact absurd hn (by simp)
    · exact ⟨hr, hd⟩
  · intro eid b hb
    rw [htrav]
    exact hw.traversed_le eid b hb
  · intro aid l hl
    rcases h.live_cases hl with hl | ⟨n, hn, rfl, rfl⟩
    · obtain ⟨h1, h2, h3⟩ := hw.live aid l hl
      have hsame : s.state.node l.nodeId = w.node l.nodeId := by
        refine h.active _ fun hp => ?_
        rw [h3] at hp
        cases hp
      rw [hsame]
      exact ⟨h1, h2, h3⟩
    · exact ⟨rfl, rfl, hn.2.2⟩
  · intro aid l eid k b hl hk hsource havail hb
    rw [htrav]
    rcases h.live_cases hl with hl | ⟨n, hn, rfl, rfl⟩
    · exact hw.live_bound aid l eid k b hl hk hsource havail hb
    · dsimp only at hsource havail
      rw [← hsource] at havail
      rw [← htrav]
      exact traversed_lt_of_available hlegal hk hb havail

theorem fresh_of_accounted (hacc : Accounted t w) {n : String} {r : ℕ}
    (hr : (w.node n).round < r) : gateKey n r ∉ w.live ∧ gateKey n r ∉ w.retired ∧
      ∀ e ∈ w.emissions, e.activationId ≠ gateKey n r := by
  have hnot : ∀ m k, gateKey n r = gateKey m k → k ≤ (w.node m).round → False := by
    intro m k heq hk
    obtain ⟨rfl, rfl⟩ := gateKey_inj.mp heq
    omega
  refine ⟨fun hmem => ?_, fun hmem => ?_, fun e he heq => ?_⟩
  · obtain ⟨m, -, k, heq, -, hk⟩ := hacc.live _ hmem
    exact hnot m k heq hk
  · obtain ⟨-, m, -, k, heq, -, hk⟩ := hacc.retired _ hmem
    exact hnot m k heq hk
  · obtain ⟨-, -, m, -, k, heq', -, hk⟩ := hacc.emitted e he
    exact hnot m k (heq.symm.trans heq') hk

theorem Accounted.settle (h : Settled t w cancelled s) (hw : Consistent t w)
    (hacc : Accounted t w) : Accounted t s.state := by
  have hround := h.round_le hw
  have hemission : ∀ e, e ∈ s.state.emissions ↔ e ∈ w.emissions := fun e => by
    rw [h.emissions, List.mem_insertionSort]
  have hold : ∀ aid, aid ∈ w.live → aid ∈ s.state.live := by
    intro aid haid
    obtain ⟨l, hl⟩ := (Dict.mem_iff_get? _ _).mp haid
    refine (Dict.mem_iff_get? _ _).mpr ⟨l, ?_⟩
    rw [h.live_other aid, hl]
    rintro n hn rfl
    -- an issued node was pending, so no activation of it was live
    obtain ⟨-, -, h3⟩ := hw.live _ l hl
    have h2 := (hw.live _ l hl).2.1
    rw [← (gateKey_inj.mp h2).1, hn.2.1] at h3
    cases h3
  have hnew : ∀ n, IssuedIn t w s.state n → (s.state.node n).round = (w.node n).round + 1 := by
    intro n hn
    rcases h.node_cases hw n with hsame | ⟨-, ⟨hd, -⟩ | ⟨hr, -⟩⟩
    · have := hn.2.2
      rw [hsame, hn.2.1] at this
      cases this
    · have := hn.2.2
      rw [hd] at this
      cases this
    · rw [hr]
  have hnotlive : ∀ aid, aid ∉ w.live → (∀ n, IssuedIn t w s.state n →
      aid ≠ gateKey n (s.state.node n).round) → aid ∉ s.state.live := by
    intro aid hout hne
    rw [Dict.notMem_iff_get?] at hout ⊢
    rw [h.live_other aid hne, hout]
  refine ⟨fun n hn r h1 hr => ?_, fun aid haid => ?_, fun aid haid => ?_, fun e he => ?_, ?_⟩
  · by_cases hle : r ≤ (w.node n).round
    · rcases hacc.issued n hn r h1 hle with hl | hret | ⟨e, he, heq⟩
      · exact Or.inl (hold _ hl)
      · exact Or.inr (Or.inl (h.retired ▸ hret))
      · exact Or.inr (Or.inr ⟨e, (hemission e).mpr he, heq⟩)
    · left
      rcases h.node_cases hw n with hsame | ⟨hp, ⟨hd, -⟩ | ⟨hrun, -⟩⟩
      · rw [hsame] at hr
        exact absurd hr hle
      · rw [hd] at hr
        exact absurd hr hle
      · rw [hrun] at hr
        have hissued : IssuedIn t w s.state n := ⟨hn, hp, by rw [hrun]⟩
        have heq : r = (s.state.node n).round := by
          rw [hrun]
          dsimp only at hr ⊢
          omega
        rw [heq]
        exact (Dict.mem_iff_get? _ _).mpr ⟨_, h.live_issued n hissued⟩
  · obtain ⟨l, hl⟩ := (Dict.mem_iff_get? _ _).mp haid
    rcases h.live_cases hl with hl | ⟨n, hn, rfl, -⟩
    · obtain ⟨n, hn, r, heq, h1, hr⟩ := hacc.live aid ((Dict.mem_iff_get? _ _).mpr ⟨l, hl⟩)
      exact ⟨n, hn, r, heq, h1, hr.trans (hround n)⟩
    · refine ⟨n, hn.1, _, rfl, ?_, le_rfl⟩
      rw [hnew n hn]
      exact Nat.le_add_left 1 _
  · rw [h.retired] at haid
    obtain ⟨hout, n, hn, r, rfl, h1, hr⟩ := hacc.retired aid haid
    refine ⟨hnotlive _ hout ?_, n, hn, r, rfl, h1, hr.trans (hround n)⟩
    intro m hm heq
    have := (fresh_of_accounted hacc (n := m) (r := (s.state.node m).round)
      (by rw [hnew m hm]; omega)).2.1
    exact this (heq ▸ haid)
  · rw [hemission] at he
    obtain ⟨hout, hret, n, hn, r, heq, h1, hr⟩ := hacc.emitted e he
    refine ⟨hnotlive _ hout ?_, h.retired ▸ hret, n, hn, r, heq, h1, hr.trans (hround n)⟩
    intro m hm heq'
    exact (fresh_of_accounted hacc (n := m) (r := (s.state.node m).round)
      (by rw [hnew m hm]; omega)).2.2 e he heq'
  · rw [h.emissions]
    exact (((List.perm_insertionSort _ _).map _).nodup_iff).mpr hacc.emitted_once

/-- **A settled state is waiting**: what could be marked or issued has been. -/
theorem Settled.allWaiting (h : Settled t w cancelled s) (hw : Consistent t w) :
    AllWaiting t s.state := by
  intro n hn hp
  rcases h.node_cases hw n with hsame | ⟨-, ⟨hd, -⟩ | ⟨hr, -⟩⟩
  · have hsettled := h.pending n hn (by rw [← hsame]; exact hp)
    rw [settledNode] at hsettled
    by_cases hd : isDead t s.state n = true
    · rw [if_pos hd] at hsettled
      rw [hsettled] at hp
      cases hp
    · rw [if_neg hd] at hsettled
      by_cases hr : isReady t s.state n = true
      · rw [if_pos hr] at hsettled
        rw [hsettled] at hp
        cases hp
      · exact ⟨Bool.not_eq_true _ ▸ hd, Bool.not_eq_true _ ▸ hr⟩
  · rw [hd] at hp
    cases hp
  · rw [hr] at hp
    cases hp

/-- **Settling a consistent state gives a state that satisfies the invariant.** -/
theorem inv_of_settled (h : Settled t w cancelled s) (hlegal : t.Legal) (hw : Consistent t w)
    (hacc : Accounted t w) (hrun : ∀ n, (w.node n).status = .running →
      gateKey n (w.node n).round ∈ w.live) : Inv t s.state := by
  have hnot : s.state.outcome.isTerminal = false := by
    rw [h.outcome]
    split <;> rfl
  refine ⟨hw.settle h hlegal, hacc.settle h hw, fun _ => h.allWaiting hw, fun _ n hn => ?_,
    fun hover => ?_, fun _ => h.outcome, fun hesc => ?_⟩
  · rcases h.node_cases hw n with hsame | ⟨hp, ⟨hd, -⟩ | ⟨hr, -⟩⟩
    · have hmem := hrun n (by rw [← hsame]; exact hn)
      obtain ⟨l, hl⟩ := (Dict.mem_iff_get? _ _).mp hmem
      rw [hsame]
      exact (Dict.mem_iff_get? _ _).mpr ⟨l, h.live_kept hw hl⟩
    · rw [hd] at hn
      cases hn
    · have hid : n ∈ t.nodeIds := (hw.settle h hlegal).mem_nodeIds (by rw [hn]; exact nofun)
      exact (Dict.mem_iff_get? _ _).mpr ⟨_, h.live_issued n ⟨hid, hp, hn⟩⟩
  · rw [hnot] at hover
    exact nomatch hover
  · rw [hesc] at hnot
    cases hnot

end Settle

/-! ## 3. Applying an emission -/

section Apply

variable {w : RouterState} {nodeId : String} {event : Emitted} {l : LiveActivation}

def delivered (w : RouterState) (nodeId : String) (event : Emitted) (edges : List String) :
    RouterState :=
  { finish w nodeId event with
    slots := edges.foldl (fun slots eid => slots.insert eid ⟨event.payloadRef, event.activationId⟩)
      w.slots }

theorem get?_foldl_insert (tok : Token) (edges : List String) (slots : Dict Token) (eid : String) :
    (edges.foldl (fun slots eid => slots.insert eid tok) slots)[eid]? =
      if eid ∈ edges then some tok else slots[eid]? := by
  induction edges generalizing slots with
  | nil => rfl
  | cons x edges ih =>
    rw [List.foldl_cons, ih, Dict.get?_insert]
    by_cases hmem : eid ∈ edges
    · rw [if_pos hmem, if_pos (List.mem_cons_of_mem _ hmem)]
    · by_cases hx : x = eid
      · rw [if_neg hmem, if_pos hx, if_pos (hx ▸ List.mem_cons_self)]
      · rw [if_neg hmem, if_neg hx, if_neg]
        rw [List.mem_cons, not_or]
        exact ⟨fun h => hx h.symm, hmem⟩

theorem get?_delivered_slots (edges : List String) (eid : String) :
    (delivered w nodeId event edges).slots[eid]? =
      if eid ∈ edges then some ⟨event.payloadRef, event.activationId⟩ else w.slots[eid]? :=
  get?_foldl_insert _ _ _ _

theorem node_delivered (edges : List String) (n : String) :
    (delivered w nodeId event edges).node n = if nodeId = n then
      { round := (w.node nodeId).round, status := .done, takenPort := some event.port }
    else w.node n :=
  RouterState.node_setNode w nodeId _ n

theorem deliver_eq_settle (w : RouterState) (tok : Token) (edges : List String)
    (hnodup : edges.Nodup) (hfree : ∀ eid ∈ edges, eid ∉ w.slots) :
    deliver t w tok edges = settle t
      { w with slots := edges.foldl (fun slots eid => slots.insert eid tok) w.slots } [] := by
  induction edges generalizing w with
  | nil => rfl
  | cons x edges ih =>
    obtain ⟨hx, hnodup'⟩ := List.nodup_cons.mp hnodup
    rw [deliver, if_neg (hfree x List.mem_cons_self), ih _ hnodup']
    · rfl
    · intro eid heid
      show eid ∉ w.slots.insert x tok
      rw [Dict.mem_insert, not_or]
      exact ⟨fun h => hx (h ▸ heid), hfree eid (List.mem_cons_of_mem _ heid)⟩

/-- What the emission of a live activation is about: the activation is the latest of its node, which
is running. -/
structure Emits (w : RouterState) (event : Emitted) (l : LiveActivation) : Prop where
  live : w.live[event.activationId]? = some l
  available : l.unavailablePorts[event.port]? = none

theorem Consistent.emitter (h : Consistent t w) (he : Emits w event l) :
    event.activationId = gateKey l.nodeId (w.node l.nodeId).round ∧
      (w.node l.nodeId).status = .running ∧ l.nodeId ∈ t.nodeIds := by
  obtain ⟨-, h2, h3⟩ := h.live _ l he.live
  exact ⟨h2, h3, h.mem_nodeIds (by rw [h3]; exact nofun)⟩

/-- **Delivery keeps consistency**: `edges` are the forward edges of the port that was taken. -/
theorem Consistent.delivered (h : Consistent t w) (hlegal : t.Legal) (he : Emits w event l)
    {edges : List String} (hedges : ∀ eid, eid ∈ edges ↔
      ∃ k, t.IsForward eid k ∧ k.source = l.nodeId ∧ k.sourcePort = event.port) :
    Consistent t (delivered w l.nodeId event edges) := by
  obtain ⟨haid, hrunning, hid⟩ := h.emitter he
  have hresolved : ¬Resolved w l.nodeId := not_resolved_of_status (Or.inr hrunning)
  have hnode_ne : ∀ n, n ≠ l.nodeId →
      (GraphRouter.delivered w l.nodeId event edges).node n = w.node n := fun n hn => by
    rw [node_delivered, if_neg fun heq => hn heq.symm]
  have hnode_self : (GraphRouter.delivered w l.nodeId event edges).node l.nodeId =
      { round := (w.node l.nodeId).round, status := .done, takenPort := some event.port } := by
    rw [node_delivered, if_pos rfl]
  have hback_notMem : ∀ eid k, t.IsBack eid k → eid ∉ edges := fun eid k hk hmem => by
    obtain ⟨k', hk', -, -⟩ := (hedges eid).mp hmem
    exact hk'.2 hk.2
  have hslot_back : ∀ eid k, t.IsBack eid k →
      (GraphRouter.delivered w l.nodeId event edges).slots[eid]? = w.slots[eid]? := by
    intro eid k hk
    rw [get?_delivered_slots, if_neg (hback_notMem eid k hk)]
  -- a node whose sources have finished is not fed by the emitter, so it sees the same in-edges
  have hagree : ∀ n, (∀ eid k, t.IsForward eid k → k.target = n → Resolved w k.source) →
      AgreeInto t w (GraphRouter.delivered w l.nodeId event edges) n := by
    intro n hn eid k hk ht
    have hne : k.source ≠ l.nodeId := fun heq => hresolved (heq ▸ hn eid k hk ht)
    have hnot : eid ∉ edges := by
      intro hmem
      obtain ⟨k', hk', hs, -⟩ := (hedges eid).mp hmem
      have hkk : k = k' := Option.some.inj (hk.1.symm.trans hk'.1)
      exact hne (hkk ▸ hs)
    constructor
    · rw [Bool.eq_iff_iff, edgeDead_iff hk.1, edgeDead_iff hk.1, hnode_ne _ hne]
    · rw [Dict.mem_iff_get?, Dict.mem_iff_get?, get?_delivered_slots, if_neg hnot]
  refine ⟨fun n => ?_, ?_, ?_, ?_, ?_, ?_, ?_, ?_, h.traversed_le, ?_, ?_⟩
  · show n ∈ (w.setNode _ _).nodes ↔ _
    rw [RouterState.mem_nodes_setNode, h.keys]
    exact ⟨fun hn => hn.elim (fun heq => heq ▸ hid) id, Or.inr⟩
  · intro eid hmem
    obtain ⟨tok, htok⟩ := (Dict.mem_iff_get? _ _).mp hmem
    rw [get?_delivered_slots] at htok
    split at htok
    · next hin =>
      obtain ⟨k, hk, -, -⟩ := (hedges eid).mp hin
      exact ⟨k, hk.1⟩
    · exact h.slot_edge eid ((Dict.mem_iff_get? _ _).mpr ⟨tok, htok⟩)
  · intro eid k tok hk htok
    rw [get?_delivered_slots] at htok
    split at htok
    · next hin =>
      obtain ⟨k', hk', hs, hp⟩ := (hedges eid).mp hin
      have hkk : k = k' := Option.some.inj (hk.1.symm.trans hk'.1)
      rw [hkk, hs, hnode_self, hp, ← Option.some.inj htok]
      exact ⟨haid, rfl, rfl⟩
    · have hfwd := h.forward eid k tok hk htok
      rw [hnode_ne]
      · exact hfwd
      · intro heq
        exact hresolved (Or.inl (heq ▸ hfwd.2.1))
  · intro eid k tok hk htok
    rw [hslot_back eid k hk] at htok
    exact h.back eid k tok hk htok
  · intro eid eid' k k' hk hk' htarget hmem hmem'
    rw [Dict.mem_iff_get?, hslot_back eid k hk, ← Dict.mem_iff_get?] at hmem
    rw [Dict.mem_iff_get?, hslot_back eid' k' hk', ← Dict.mem_iff_get?] at hmem'
    exact h.one_back eid eid' k k' hk hk' htarget hmem hmem'
  · intro eid k hk hdone htaken
    rw [Dict.mem_iff_get?, get?_delivered_slots]
    by_cases hs : k.source = l.nodeId
    · rw [hs, hnode_self] at htaken
      have hin : eid ∈ edges := (hedges eid).mpr ⟨k, hk, hs, (Option.some.inj htaken).symm⟩
      rw [if_pos hin]
      exact ⟨_, rfl⟩
    · rw [hnode_ne _ hs] at hdone htaken
      obtain ⟨tok, htok⟩ := (Dict.mem_iff_get? _ _).mp (h.filled eid k hk hdone htaken)
      split
      · exact ⟨_, rfl⟩
      · exact ⟨tok, htok⟩
  · intro n hn
    have hne : n ≠ l.nodeId := by
      rintro rfl
      rw [hnode_self] at hn
      cases hn
    rw [hnode_ne n hne] at hn
    refine isDead_mono hlegal (fun eid k hk _ hd => ?_) (h.dead n hn)
    have hsource : k.source ≠ l.nodeId := fun heq =>
      hresolved (heq ▸ resolved_of_edgeDead hk.1 hd)
    rw [edgeDead_iff hk.1] at hd ⊢
    rw [hnode_ne _ hsource]
    exact hd
  · intro n hn
    have hactive : (w.node n).status = .running ∨ (w.node n).status = .done := by
      by_cases hne : n = l.nodeId
      · exact Or.inl (hne ▸ hrunning)
      · rw [hnode_ne n hne] at hn
        exact hn
    obtain ⟨hr, hd⟩ := h.active n hactive
    have hag := hagree n fun eid k hk ht => h.resolved_of_ready hlegal hk (ht ▸ hr)
    rw [← isReady_congr hlegal hag, ← isDead_congr hlegal hag]
    exact ⟨hr, hd⟩
  · intro aid x hx
    have hx' : (w.live.erase event.activationId)[aid]? = some x := hx
    rw [Dict.get?_erase] at hx'
    split at hx'
    · exact absurd hx'.symm (Option.some_ne_none x)
    · next hne =>
      obtain ⟨h1, h2, h3⟩ := h.live aid x hx'
      have hxne : x.nodeId ≠ l.nodeId := fun heq => hne (by rw [haid, h2, heq])
      rw [hnode_ne _ hxne]
      exact ⟨h1, h2, h3⟩
  · intro aid x eid k b hx hk hsource havail hb
    have hx' : (w.live.erase event.activationId)[aid]? = some x := hx
    rw [Dict.get?_erase] at hx'
    split at hx'
    · exact absurd hx'.symm (Option.some_ne_none x)
    · exact h.live_bound aid x eid k b hx' hk hsource havail hb

theorem Accounted.delivered (h : Consistent t w) (hacc : Accounted t w) (he : Emits w event l)
    (edges : List String) : Accounted t (delivered w l.nodeId event edges) := by
  obtain ⟨haid, hrunning, hid⟩ := h.emitter he
  have hlive : event.activationId ∈ w.live := (Dict.mem_iff_get? _ _).mpr ⟨l, he.live⟩
  have hround : ∀ n, ((GraphRouter.delivered w l.nodeId event edges).node n).round =
      (w.node n).round := fun n => by
    rw [node_delivered]
    split
    · next heq => rw [heq]
    · rfl
  have hmem_live : ∀ aid, aid ∈ (GraphRouter.delivered w l.nodeId event edges).live ↔
      event.activationId ≠ aid ∧ aid ∈ w.live := by
    intro aid
    show aid ∈ w.live.erase event.activationId ↔ _
    rw [Std.ExtTreeMap.mem_erase, Ne, Std.LawfulEqCmp.compare_eq_iff_eq]
  have hmem_emissions : ∀ e, e ∈ (GraphRouter.delivered w l.nodeId event edges).emissions ↔
      e ∈ w.emissions ∨ e = ⟨event.activationId, event.port, event.payloadRef⟩ := by
    intro e
    show e ∈ w.emissions ++ [_] ↔ _
    rw [List.mem_append, List.mem_singleton]
  refine ⟨fun n hn r h1 hr => ?_, fun aid haid' => ?_, fun aid haid' => ?_, fun e he' => ?_, ?_⟩
  · rw [hround] at hr
    rcases hacc.issued n hn r h1 hr with hl | hret | ⟨e, he', heq⟩
    · by_cases heq : event.activationId = gateKey n r
      · exact Or.inr (Or.inr ⟨_, (hmem_emissions _).mpr (Or.inr rfl), heq⟩)
      · exact Or.inl ((hmem_live _).mpr ⟨heq, hl⟩)
    · exact Or.inr (Or.inl hret)
    · exact Or.inr (Or.inr ⟨e, (hmem_emissions _).mpr (Or.inl he'), heq⟩)
  · obtain ⟨n, hn, r, heq, h1, hr⟩ := hacc.live aid ((hmem_live aid).mp haid').2
    exact ⟨n, hn, r, heq, h1, (hround n).symm ▸ hr⟩
  · obtain ⟨hout, n, hn, r, heq, h1, hr⟩ := hacc.retired aid haid'
    exact ⟨fun hmem => hout ((hmem_live aid).mp hmem).2, n, hn, r, heq, h1, (hround n).symm ▸ hr⟩
  · rcases (hmem_emissions e).mp he' with he' | rfl
    · obtain ⟨hout, hret, n, hn, r, heq, h1, hr⟩ := hacc.emitted e he'
      exact ⟨fun hmem => hout ((hmem_live _).mp hmem).2, hret, n, hn, r, heq, h1,
        (hround n).symm ▸ hr⟩
    · obtain ⟨n, hn, r, heq, h1, hr⟩ := hacc.live _ hlive
      refine ⟨fun hmem => ((hmem_live _).mp hmem).1 rfl, fun hret => ?_, n, hn, r, heq, h1,
        (hround n).symm ▸ hr⟩
      exact (hacc.retired _ hret).1 hlive
  · show ((w.emissions ++ [_]).map Emission.activationId).Nodup
    rw [List.map_append, List.nodup_append]
    refine ⟨hacc.emitted_once, List.nodup_singleton _, ?_⟩
    intro a ha b hb
    rw [List.map_singleton, List.mem_singleton] at hb
    obtain ⟨e, he', rfl⟩ := List.mem_map.mp ha
    rintro rfl
    exact (hacc.emitted e he').1 (hb ▸ hlive)

theorem running_live_delivered (h : Consistent t w) (he : Emits w event l)
    (hrun : ∀ n, (w.node n).status = .running → gateKey n (w.node n).round ∈ w.live)
    (edges : List String) (n : String)
    (hn : ((delivered w l.nodeId event edges).node n).status = .running) :
    gateKey n ((delivered w l.nodeId event edges).node n).round ∈
      (delivered w l.nodeId event edges).live := by
  obtain ⟨haid, -, -⟩ := h.emitter he
  rw [node_delivered] at hn ⊢
  split at hn
  · cases hn
  · next hne =>
    rw [if_neg hne]
    show _ ∈ w.live.erase event.activationId
    rw [Std.ExtTreeMap.mem_erase, Ne, Std.LawfulEqCmp.compare_eq_iff_eq]
    refine ⟨fun heq => hne ?_, hrun n hn⟩
    rw [haid] at heq
    exact (gateKey_inj.mp heq).1

end Apply

/-! ## 4. Invalidating a region -/

section Traverse

variable {w : RouterState} {eid : String} {k : EdgeKey} {token : Token}

theorem mem_region_iff (hlegal : t.Legal) (hk : t.IsBack eid k) (n : String) :
    n ∈ t.region (t.endpoints eid).target ↔ t.InRegion k.target n := by
  rw [Topology.endpoints_of_get? hk.1, hlegal.mem_region eid k hk]

theorem node_traverseBack (n : String) : (traverseBack t w eid token).node n =
    if n ∈ t.region (t.endpoints eid).target then { round := (w.node n).round } else w.node n := by
  show (w.nodes.map fun n ns => if n ∈ t.region (t.endpoints eid).target then
    ({ round := ns.round } : NodeState) else ns).getD n {} = _
  rw [Dict.getD_eq, Std.ExtTreeMap.getElem?_map, RouterState.node, Dict.getD_eq]
  cases w.nodes[n]? with
  | none => split <;> rfl
  | some ns => rfl

theorem get?_traverseBack_slots (x : String) : (traverseBack t w eid token).slots[x]? =
    if eid = x then some token
    else w.slots[x]?.filter fun tok => nodeOf tok.producer ∉ t.region (t.endpoints eid).target := by
  show ((w.slots.filter _).insert eid token)[x]? = _
  rw [Dict.get?_insert, Dict.get?_filter]

theorem get?_traverseBack_live (aid : String) : (traverseBack t w eid token).live[aid]? =
    w.live[aid]?.filter fun l => l.nodeId ∉ t.region (t.endpoints eid).target :=
  Dict.get?_filter _ _ _

theorem traversed_traverseBack (x : String) : (traverseBack t w eid token).traversed x =
    if eid = x then w.traversed eid + 1 else w.traversed x :=
  Dict.getD_insert _ _ _ _ _

theorem slot_of_traverseBack_of_ne {x : String} (hx : eid ≠ x) {tok : Token} :
    (traverseBack t w eid token).slots[x]? = some tok ↔
      w.slots[x]? = some tok ∧ nodeOf tok.producer ∉ t.region (t.endpoints eid).target := by
  rw [get?_traverseBack_slots, if_neg hx, Option.filter_eq_some_iff, decide_eq_true_eq]

/-- **Invalidation keeps consistency.** -/
theorem Consistent.traverseBack (h : Consistent t w) (hlegal : t.Legal) (hk : t.IsBack eid k)
    (htoken : nodeOf token.producer = k.source)
    (hbound : ∀ b : ℕ, t.bounds[eid]? = some b → w.traversed eid < b) :
    Consistent t (traverseBack t w eid token) := by
  have hregion := mem_region_iff hlegal hk
  have hin : ∀ n, n ∈ t.region (t.endpoints eid).target →
      (GraphRouter.traverseBack t w eid token).node n = { round := (w.node n).round } := by
    intro n hn
    rw [node_traverseBack, if_pos hn]
  have hout : ∀ n, n ∉ t.region (t.endpoints eid).target →
      (GraphRouter.traverseBack t w eid token).node n = w.node n := fun n hn => by
    rw [node_traverseBack, if_neg hn]
  have hactive : ∀ n, ((GraphRouter.traverseBack t w eid token).node n).status ≠ .pending →
      n ∉ t.region (t.endpoints eid).target := fun n hn hmem => hn (by rw [hin n hmem])
  -- a node outside the region has all its sources outside, and keeps all it sees
  have hsource : ∀ n, n ∉ t.region (t.endpoints eid).target → ∀ x k', t.IsForward x k' →
      k'.target = n → k'.source ∉ t.region (t.endpoints eid).target := by
    intro n hn x k' hk' ht hmem
    rw [hregion] at hn hmem
    exact hn (hmem.forward ⟨x, k', hk', rfl, ht⟩)
  have hforward_ne : ∀ x k', t.IsForward x k' → eid ≠ x := by
    rintro x k' hk' rfl
    exact hk'.2 hk.2
  have hslot : ∀ x k', t.IsForward x k' → k'.source ∉ t.region (t.endpoints eid).target →
      (x ∈ w.slots ↔ x ∈ (GraphRouter.traverseBack t w eid token).slots) := by
    intro x k' hk' hs
    rw [Dict.mem_iff_get?, Dict.mem_iff_get?]
    refine exists_congr fun tok => ?_
    rw [slot_of_traverseBack_of_ne (hforward_ne x k' hk')]
    refine ⟨fun htok => ⟨htok, ?_⟩, And.left⟩
    rw [(h.forward x k' tok hk' htok).1, nodeOf_gateKey]
    exact hs
  have hagree : ∀ n, n ∉ t.region (t.endpoints eid).target →
      AgreeInto t w (GraphRouter.traverseBack t w eid token) n := by
    intro n hn x k' hk' ht
    have hs := hsource n hn x k' hk' ht
    refine ⟨?_, hslot x k' hk' hs⟩
    rw [Bool.eq_iff_iff, edgeDead_iff hk'.1, edgeDead_iff hk'.1, hout _ hs]
  have hself : k.source ∈ t.region (t.endpoints eid).target :=
    (hregion _).mpr (hlegal.closes_cycle eid k hk)
  refine ⟨fun n => ?_, ?_, ?_, ?_, ?_, ?_, ?_, ?_, ?_, ?_, ?_⟩
  · show n ∈ w.nodes.map _ ↔ _
    rw [Std.ExtTreeMap.mem_map, h.keys]
  · intro x hx
    obtain ⟨tok, htok⟩ := (Dict.mem_iff_get? _ _).mp hx
    by_cases hex : eid = x
    · exact ⟨k, hex ▸ hk.1⟩
    · have := (slot_of_traverseBack_of_ne hex).mp htok
      exact h.slot_edge x ((Dict.mem_iff_get? _ _).mpr ⟨tok, this.1⟩)
  · intro x k' tok hk' htok
    obtain ⟨hold, hprod⟩ := (slot_of_traverseBack_of_ne (hforward_ne x k' hk')).mp htok
    have hfwd := h.forward x k' tok hk' hold
    rw [hfwd.1, nodeOf_gateKey] at hprod
    rw [hout _ hprod]
    exact hfwd
  · intro x k' tok hk' htok
    by_cases hex : eid = x
    · subst hex
      rw [get?_traverseBack_slots, if_pos rfl] at htok
      have hkk : k = k' := Option.some.inj (hk.1.symm.trans hk'.1)
      rw [← Option.some.inj htok, htoken, hkk]
    · exact h.back x k' tok hk' ((slot_of_traverseBack_of_ne hex).mp htok).1
  · -- a token on another loop edge into the same target was produced inside the region
    have hother : ∀ x k', t.IsBack x k' → k'.target = k.target → eid ≠ x →
        x ∉ (GraphRouter.traverseBack t w eid token).slots := by
      intro x k' hk' ht hex hmem
      obtain ⟨tok, htok⟩ := (Dict.mem_iff_get? _ _).mp hmem
      obtain ⟨hold, hprod⟩ := (slot_of_traverseBack_of_ne hex).mp htok
      rw [h.back x k' tok hk' hold, hregion, ← ht] at hprod
      exact hprod (hlegal.closes_cycle x k' hk')
    intro x y kx ky hx hy ht hmx hmy
    by_cases hex : eid = x
    · subst hex
      have hkk : k = kx := Option.some.inj (hk.1.symm.trans hx.1)
      by_contra hne
      exact hother y ky hy (by rw [hkk, ht]) hne hmy
    · by_cases hey : eid = y
      · subst hey
        have hkk : k = ky := Option.some.inj (hk.1.symm.trans hy.1)
        exact absurd hmx (hother x kx hx (by rw [hkk, ht]) hex)
      · obtain ⟨tok, htok⟩ := (Dict.mem_iff_get? _ _).mp hmx
        obtain ⟨tok', htok'⟩ := (Dict.mem_iff_get? _ _).mp hmy
        exact h.one_back x y kx ky hx hy ht
          ((Dict.mem_iff_get? _ _).mpr ⟨tok, ((slot_of_traverseBack_of_ne hex).mp htok).1⟩)
          ((Dict.mem_iff_get? _ _).mpr ⟨tok', ((slot_of_traverseBack_of_ne hey).mp htok').1⟩)
  · intro x k' hk' hdone htaken
    have hs := hactive _ (by rw [hdone]; exact nofun)
    rw [hout _ hs] at hdone htaken
    exact (hslot x k' hk' hs).mp (h.filled x k' hk' hdone htaken)
  · intro n hn
    have hs := hactive n (by rw [hn]; exact nofun)
    rw [hout n hs] at hn
    rw [← isDead_congr hlegal (hagree n hs)]
    exact h.dead n hn
  · intro n hn
    have hs := hactive n (by rcases hn with hn | hn <;> rw [hn] <;> exact nofun)
    rw [hout n hs] at hn
    rw [← isDead_congr hlegal (hagree n hs), ← isReady_congr hlegal (hagree n hs)]
    exact h.active n hn
  · intro x b hb
    rw [traversed_traverseBack]
    split
    · next hex =>
      subst hex
      exact hbound b hb
    · exact h.traversed_le x b hb
  · intro aid l hl
    rw [get?_traverseBack_live, Option.filter_eq_some_iff, decide_eq_true_eq] at hl
    rw [hout _ hl.2]
    exact h.live aid l hl.1
  · intro aid l x k' b hl hk' hs havail hb
    rw [get?_traverseBack_live, Option.filter_eq_some_iff, decide_eq_true_eq] at hl
    have hne : eid ≠ x := by
      rintro rfl
      have hkk : k = k' := Option.some.inj (hk.1.symm.trans hk'.1)
      exact hl.2 (hs ▸ hkk ▸ hself)
    rw [traversed_traverseBack, if_neg hne]
    exact h.live_bound aid l x k' b hl.1 hk' hs havail hb

theorem mem_cancelledBy {aid : String} : aid ∈ cancelledBy t w eid ↔
    ∃ l, w.live[aid]? = some l ∧ l.nodeId ∈ t.region (t.endpoints eid).target := by
  rw [cancelledBy, Std.ExtTreeMap.mem_keys, Dict.mem_iff_get?]
  refine exists_congr fun l => ?_
  rw [Dict.get?_filter, Option.filter_eq_some_iff, decide_eq_true_eq]

theorem Accounted.traverseBack (hacc : Accounted t w) :
    Accounted t (traverseBack t w eid token) := by
  have hround : ∀ n, ((GraphRouter.traverseBack t w eid token).node n).round =
      (w.node n).round := fun n => by
    rw [node_traverseBack]
    split <;> rfl
  have hlive : ∀ aid, aid ∈ (GraphRouter.traverseBack t w eid token).live ↔
      ∃ l, w.live[aid]? = some l ∧ l.nodeId ∉ t.region (t.endpoints eid).target := by
    intro aid
    rw [Dict.mem_iff_get?]
    refine exists_congr fun l => ?_
    rw [get?_traverseBack_live, Option.filter_eq_some_iff, decide_eq_true_eq]
  have hretired : ∀ aid, aid ∈ (GraphRouter.traverseBack t w eid token).retired ↔
      aid ∈ w.retired ∨ ∃ l, w.live[aid]? = some l ∧
        l.nodeId ∈ t.region (t.endpoints eid).target := by
    intro aid
    show aid ∈ w.retired.insertMany (cancelledBy t w eid) ↔ _
    rw [StrSet.mem_insertMany, mem_cancelledBy]
  have hsub : ∀ aid, aid ∈ (GraphRouter.traverseBack t w eid token).live → aid ∈ w.live := by
    intro aid haid
    obtain ⟨l, hl, -⟩ := (hlive aid).mp haid
    exact (Dict.mem_iff_get? _ _).mpr ⟨l, hl⟩
  refine ⟨fun n hn r h1 hr => ?_, fun aid haid => ?_, fun aid haid => ?_, fun e he => ?_,
    hacc.emitted_once⟩
  · rw [hround] at hr
    rcases hacc.issued n hn r h1 hr with hl | hret | hem
    · obtain ⟨l, hl⟩ := (Dict.mem_iff_get? _ _).mp hl
      by_cases hreg : l.nodeId ∈ t.region (t.endpoints eid).target
      · exact Or.inr (Or.inl ((hretired _).mpr (Or.inr ⟨l, hl, hreg⟩)))
      · exact Or.inl ((hlive _).mpr ⟨l, hl, hreg⟩)
    · exact Or.inr (Or.inl ((hretired _).mpr (Or.inl hret)))
    · exact Or.inr (Or.inr hem)
  · obtain ⟨n, hn, r, heq, h1, hr⟩ := hacc.live aid (hsub aid haid)
    exact ⟨n, hn, r, heq, h1, (hround n).symm ▸ hr⟩
  · rcases (hretired aid).mp haid with haid | ⟨l, hl, hreg⟩
    · obtain ⟨hout, n, hn, r, heq, h1, hr⟩ := hacc.retired aid haid
      exact ⟨fun hmem => hout (hsub aid hmem), n, hn, r, heq, h1, (hround n).symm ▸ hr⟩
    · refine ⟨fun hmem => ?_, ?_⟩
      · obtain ⟨l', hl', hreg'⟩ := (hlive aid).mp hmem
        exact hreg' (Option.some.inj (hl.symm.trans hl') ▸ hreg)
      · obtain ⟨n, hn, r, heq, h1, hr⟩ := hacc.live aid ((Dict.mem_iff_get? _ _).mpr ⟨l, hl⟩)
        exact ⟨n, hn, r, heq, h1, (hround n).symm ▸ hr⟩
  · obtain ⟨hout, hret, n, hn, r, heq, h1, hr⟩ := hacc.emitted e he
    refine ⟨fun hmem => hout (hsub _ hmem), fun hmem => ?_, n, hn, r, heq, h1,
      (hround n).symm ▸ hr⟩
    rcases (hretired _).mp hmem with hmem | ⟨l, hl, -⟩
    · exact hret hmem
    · exact hout ((Dict.mem_iff_get? _ _).mpr ⟨l, hl⟩)

theorem running_live_traverseBack
    (hrun : ∀ n, (w.node n).status = .running → gateKey n (w.node n).round ∈ w.live)
    (h : Consistent t w) (n : String)
    (hn : ((traverseBack t w eid token).node n).status = .running) :
    gateKey n ((traverseBack t w eid token).node n).round ∈
      (traverseBack t w eid token).live := by
  rw [node_traverseBack] at hn ⊢
  split at hn
  · cases hn
  · next hout =>
    rw [if_neg hout]
    obtain ⟨l, hl⟩ := (Dict.mem_iff_get? _ _).mp (hrun n hn)
    have hnode := (gateKey_inj.mp (h.live _ l hl).2.1).1
    refine (Dict.mem_iff_get? _ _).mpr ⟨l, ?_⟩
    rw [get?_traverseBack_live, Option.filter_eq_some_iff, decide_eq_true_eq]
    exact ⟨hl, hnode ▸ hout⟩

end Traverse

/-! ## 5. What a call of `advance` can do -/

/-- **The six things `advance` does** from a state that satisfies the invariant. -/
inductive Advanced (t : Topology) (s : RouterState) : Event → Step → Prop
  /-- A dispatcher-level stop. -/
  | halted (h : Halt) (running : s.outcome = .running) :
      Advanced t s (.halt h) (terminate s h.outcome.outcome h.reason none [])
  /-- The emission of an activation that is no longer live is dropped. -/
  | late (e : Emitted) (reason : DropReason) (notLive : s.live[e.activationId]? = none) :
      Advanced t s (.emitted e) (drop s e reason)
  /-- The activation takes a port it was told not to take. -/
  | escalated (e : Emitted) (l : LiveActivation) (why : Unavailable)
      (live : s.live[e.activationId]? = some l)
      (unavailable : l.unavailablePorts[e.port]? = some why) :
      Advanced t s (.emitted e) (terminate s .escalated (escalationText l.nodeId e.port why)
        (some e.activationId) [])
  /-- The activation takes a terminal port. -/
  | ended (e : Emitted) (l : LiveActivation) (kind : Terminal) (emits : Emits s e l)
      (port : (t.outPortsOf l.nodeId)[e.port]? = some [])
      (terminal : (t.terminalsOf l.nodeId)[e.port]? = some kind) :
      Advanced t s (.emitted e) (terminate (delivered s l.nodeId e []) kind.outcome
        s!"{l.nodeId}.{e.port}" none [])
  /-- The activation takes a sink or a port with forward edges. -/
  | forwarded (e : Emitted) (l : LiveActivation) (edges : List String) (emits : Emits s e l)
      (port : (t.outPortsOf l.nodeId)[e.port]? = some edges)
      (forward : ∀ eid ∈ edges, eid ∉ t.bounds) :
      Advanced t s (.emitted e) (settle t (delivered s l.nodeId e edges) [])
  /-- The activation takes a loop edge. -/
  | traversed (e : Emitted) (l : LiveActivation) (eid : String) (k : EdgeKey)
      (emits : Emits s e l) (port : (t.outPortsOf l.nodeId)[e.port]? = some [eid])
      (back : t.IsBack eid k) (source : k.source = l.nodeId) (sourcePort : k.sourcePort = e.port) :
      Advanced t s (.emitted e)
        (settle t (traverseBack t (delivered s l.nodeId e []) eid ⟨e.payloadRef, e.activationId⟩)
          (cancelledBy t (delivered s l.nodeId e []) eid))

theorem issuedNode_gateKey {s : RouterState} {n m : String} {r : ℕ}
    (h : issuedNode s (gateKey n r) = .ok m) : m = n := by
  unfold issuedNode at h
  rw [rpartition_gateKey] at h
  dsimp only at h
  split at h
  · exact (Except.ok.inj h).symm
  · cases h

variable {edges : List String}

theorem port_edges (hlegal : t.Legal) {n p : String} (hp : (t.outPortsOf n)[p]? = some edges) :
    (∃ eid k, edges = [eid] ∧ t.IsBack eid k ∧ k.source = n ∧ k.sourcePort = p) ∨
      ∀ eid ∈ edges, eid ∉ t.bounds := by
  have hport := hlegal.outPort n p edges hp
  by_cases hback : ∃ eid ∈ edges, eid ∈ t.bounds
  · left
    obtain ⟨eid, hmem, hb⟩ := hback
    obtain ⟨k, hk, hs, hsp⟩ := (hport.mem_iff eid).mp hmem
    exact ⟨eid, k, hport.back_exclusive eid hmem hb, ⟨hk, hb⟩, hs, hsp⟩
  · right
    exact fun eid hmem hb => hback ⟨eid, hmem, hb⟩

theorem mem_forward_port (hlegal : t.Legal) {n p : String} (hp : (t.outPortsOf n)[p]? = some edges)
    (hforward : ∀ eid ∈ edges, eid ∉ t.bounds) (eid : String) :
    eid ∈ edges ↔ ∃ k, t.IsForward eid k ∧ k.source = n ∧ k.sourcePort = p := by
  rw [(hlegal.outPort n p edges hp).mem_iff]
  constructor
  · rintro ⟨k, hk, hs, hsp⟩
    refine ⟨k, ⟨hk, hforward eid ?_⟩, hs, hsp⟩
    exact ((hlegal.outPort n p edges hp).mem_iff eid).mpr ⟨k, hk, hs, hsp⟩
  · rintro ⟨k, hk, hs, hsp⟩
    exact ⟨k, hk.1, hs, hsp⟩

theorem no_forward_of_back_port (hlegal : t.Legal) {n p eid : String}
    (hp : (t.outPortsOf n)[p]? = some [eid]) (hb : eid ∈ t.bounds) (x : String) :
    x ∈ ([] : List String) ↔ ∃ k, t.IsForward x k ∧ k.source = n ∧ k.sourcePort = p := by
  refine ⟨nofun, ?_⟩
  rintro ⟨k, hk, hs, hsp⟩
  have hmem := ((hlegal.outPort n p [eid] hp).mem_iff x).mpr ⟨k, hk.1, hs, hsp⟩
  rw [List.mem_singleton.mp hmem] at hk
  exact absurd hb hk.2

theorem Consistent.slots_free {s : RouterState} (h : Consistent t s) {e : Emitted}
    {l : LiveActivation} (he : Emits s e l)
    (hedges : ∀ eid, eid ∈ edges ↔
      ∃ k, t.IsForward eid k ∧ k.source = l.nodeId ∧ k.sourcePort = e.port) :
    ∀ eid ∈ edges, eid ∉ s.slots := by
  intro eid hmem hslot
  obtain ⟨k, hk, hs, -⟩ := (hedges eid).mp hmem
  obtain ⟨tok, htok⟩ := (Dict.mem_iff_get? _ _).mp hslot
  have hdone := (h.forward eid k tok hk htok).2.1
  rw [hs, (h.emitter he).2.1] at hdone
  cases hdone

theorem advanced_of_advance (hlegal : t.Legal) {s : RouterState} (hs : Consistent t s)
    {event : Event} {st : Step} (h : advance t s event = .ok st) : Advanced t s event st := by
  cases event with
  | halt x =>
    rw [advance] at h
    split at h
    · cases h
    · next hrun =>
      rw [← Except.ok.inj h]
      exact .halted x (not_not.mp hrun)
  | emitted e =>
    rw [advance] at h
    cases hissued : issuedNode s e.activationId with
    | error msg => rw [hissued] at h; cases h
    | ok n =>
      rw [hissued] at h
      change applyEmitted t s e n = .ok st at h
      unfold applyEmitted at h
      cases hport : (t.outPortsOf n)[e.port]? with
      | none => rw [hport] at h; cases h
      | some edges =>
        rw [hport] at h
        dsimp only at h
        cases hlive : s.live[e.activationId]? with
        | none =>
          rw [hlive] at h
          dsimp only at h
          unfold notLive at h
          split at h
          · rw [← Except.ok.inj h]
            exact .late e _ hlive
          · split at h
            · cases h
            · split at h
              · rw [← Except.ok.inj h]
                exact .late e _ hlive
              · cases h
        | some l =>
          rw [hlive] at h
          dsimp only at h
          have hnode : n = l.nodeId := by
            rw [(hs.live _ l hlive).2.1] at hissued
            exact issuedNode_gateKey hissued
          subst hnode
          cases hwhy : l.unavailablePorts[e.port]? with
          | some why =>
            rw [hwhy] at h
            rw [← Except.ok.inj h]
            exact .escalated e l why hlive hwhy
          | none =>
            rw [hwhy] at h
            dsimp only at h
            rw [← Except.ok.inj h]
            have hemits : Emits s e l := ⟨hlive, hwhy⟩
            unfold route
            dsimp only
            rcases port_edges hlegal hport with ⟨eid, k, rfl, hk, hks, hkp⟩ | hforward
            · dsimp only
              rw [if_pos hk.2]
              exact .traversed e l eid k hemits hport hk hks hkp
            · cases edges with
              | nil =>
                dsimp only
                cases hterm : (t.terminalsOf l.nodeId)[e.port]? with
                | some kind => exact .ended e l kind hemits hport hterm
                | none => exact .forwarded e l [] hemits hport hforward
              | cons eid edges =>
                dsimp only
                rw [if_neg (hforward eid List.mem_cons_self), deliver_eq_settle]
                · exact .forwarded e l (eid :: edges) hemits hport hforward
                · exact (hlegal.outPort _ _ _ hport).nodup
                · exact hs.slots_free hemits (mem_forward_port hlegal hport hforward)

/-! ## 6. Every reachable state satisfies the invariant -/

theorem Accounted.freeze {w : RouterState} (h : Accounted t w) : Accounted t w.freeze := by
  have hmem : ∀ e, e ∈ w.freeze.emissions ↔ e ∈ w.emissions := fun e => List.mem_insertionSort _
  refine ⟨fun n hn r h1 hr => ?_, h.live, h.retired, fun e he => h.emitted e ((hmem e).mp he), ?_⟩
  · refine (h.issued n hn r h1 hr).imp_right (Or.imp_right ?_)
    rintro ⟨e, he, heq⟩
    exact ⟨e, (hmem e).mpr he, heq⟩
  · exact (((List.perm_insertionSort _ _).map _).nodup_iff).mpr h.emitted_once

section Terminate

variable {w : RouterState} {outcome : Outcome} {reason : String} {emitter : Option String}
  {cancelled : List String}

theorem Consistent.terminate (h : Consistent t w) :
    Consistent t (terminate w outcome reason emitter cancelled).state := by
  refine ⟨h.keys, h.slot_edge, h.forward, h.back, h.one_back, h.filled, h.dead, h.active,
    h.traversed_le, fun aid l hl => ?_, fun aid l _ _ _ hl => ?_⟩ <;>
  exact absurd (hl.symm.trans (Dict.get?_empty aid)) (Option.some_ne_none l)

theorem Accounted.terminate (h : Accounted t w) :
    Accounted t (terminate w outcome reason emitter cancelled).state := by
  have hretired : ∀ aid, aid ∈ (GraphRouter.terminate w outcome reason emitter
      cancelled).state.retired ↔ aid ∈ w.retired ∨ aid ∈ w.live := by
    intro aid
    show aid ∈ w.retired.insertMany w.live.keys ↔ _
    rw [StrSet.mem_insertMany, Std.ExtTreeMap.mem_keys]
  have hlive : ∀ aid, aid ∉ (GraphRouter.terminate w outcome reason emitter
      cancelled).state.live := fun aid => Std.ExtTreeMap.not_mem_empty
  have hmem : ∀ e, e ∈ (GraphRouter.terminate w outcome reason emitter
      cancelled).state.emissions ↔ e ∈ w.emissions := fun e => List.mem_insertionSort _
  refine ⟨fun n hn r h1 hr => ?_, fun aid haid => absurd haid (hlive aid), fun aid haid => ?_,
    fun e he => ?_, ?_⟩
  · rcases h.issued n hn r h1 hr with hl | hret | ⟨e, he, heq⟩
    · exact Or.inr (Or.inl ((hretired _).mpr (Or.inr hl)))
    · exact Or.inr (Or.inl ((hretired _).mpr (Or.inl hret)))
    · exact Or.inr (Or.inr ⟨e, (hmem e).mpr he, heq⟩)
  · refine ⟨hlive aid, ?_⟩
    rcases (hretired aid).mp haid with haid | haid
    · exact (h.retired aid haid).2
    · exact h.live aid haid
  · obtain ⟨hout, hret, hid⟩ := h.emitted e ((hmem e).mp he)
    exact ⟨hlive _, fun hr => ((hretired _).mp hr).elim hret hout, hid⟩
  · exact (((List.perm_insertionSort _ _).map _).nodup_iff).mpr h.emitted_once

theorem inv_terminate (h : Consistent t w) (hacc : Accounted t w) (hout : outcome.isTerminal = true)
    (hesc : outcome = .escalated → ∃ n ∈ t.nodeIds, ∃ p why, reason = escalationText n p why) :
    Inv t (terminate w outcome reason emitter cancelled).state := by
  have hnot : ¬(GraphRouter.terminate w outcome reason emitter
      cancelled).state.outcome.isTerminal = false := by
    show ¬outcome.isTerminal = false
    rw [hout]
    exact Bool.noConfusion
  refine ⟨h.terminate, hacc.terminate, fun hrun => absurd hrun hnot, fun hrun => absurd hrun hnot,
    fun _ => rfl, fun hrun => absurd hrun hnot, fun he => ?_⟩
  obtain ⟨n, hn, p, why, heq⟩ := hesc he
  exact ⟨n, hn, p, why, congrArg some heq⟩

end Terminate

theorem inv_drop {s : RouterState} (h : Inv t s) (e : Emitted) (reason : DropReason) :
    Inv t (drop s e reason).state := by
  obtain ⟨hc, hacc, hwait, hrun, hover, hout, hesc⟩ := h
  have hacc' : Accounted t { s with dropped := s.dropped ++ [⟨e.activationId, e.port, reason⟩] } :=
    ⟨hacc.issued, hacc.live, hacc.retired, hacc.emitted, hacc.emitted_once⟩
  exact ⟨⟨hc.keys, hc.slot_edge, hc.forward, hc.back, hc.one_back, hc.filled, hc.dead, hc.active,
    hc.traversed_le, hc.live, hc.live_bound⟩, hacc'.freeze, hwait, hrun, hover, hout, hesc⟩

theorem Terminal.isTerminal_outcome (kind : Terminal) : kind.outcome.isTerminal = true := by
  cases kind <;> rfl

theorem Terminal.outcome_ne_escalated (kind : Terminal) : kind.outcome ≠ .escalated := by
  cases kind <;> exact nofun

theorem Inv.live_of_running {s : RouterState} (h : Inv t s) {aid : String} {l : LiveActivation}
    (hl : s.live[aid]? = some l) : s.outcome.isTerminal = false := by
  rw [Bool.eq_false_iff]
  intro hover
  rw [h.ended hover, Dict.get?_empty] at hl
  exact Option.some_ne_none l hl.symm

theorem Inv.emits_delivered {s : RouterState} (h : Inv t s) (hlegal : t.Legal) {e : Emitted}
    {l : LiveActivation} (he : Emits s e l)
    (hedges : ∀ eid, eid ∈ edges ↔
      ∃ k, t.IsForward eid k ∧ k.source = l.nodeId ∧ k.sourcePort = e.port) :
    Consistent t (delivered s l.nodeId e edges) ∧ Accounted t (delivered s l.nodeId e edges) ∧
      ∀ n, ((delivered s l.nodeId e edges).node n).status = .running →
        gateKey n ((delivered s l.nodeId e edges).node n).round ∈
          (delivered s l.nodeId e edges).live :=
  ⟨h.consistent.delivered hlegal he hedges, h.accounted.delivered h.consistent he edges,
    running_live_delivered h.consistent he (h.running_live (h.live_of_running he.live)) edges⟩

theorem Consistent.traversed_lt {s : RouterState} (h : Consistent t s) {e : Emitted}
    {l : LiveActivation} (he : Emits s e l) {eid : String} {k : EdgeKey} (hk : t.IsBack eid k)
    (hs : k.source = l.nodeId) (hp : k.sourcePort = e.port) (b : ℕ)
    (hb : t.bounds[eid]? = some b) : s.traversed eid < b :=
  h.live_bound _ l eid k b he.live hk hs (hp ▸ he.available) hb

/-- **Each call of `advance` keeps the invariant.** -/
theorem Advanced.inv (hlegal : t.Legal) {s : RouterState} (hs : Inv t s) {event : Event}
    {st : Step} (h : Advanced t s event st) : Inv t st.state := by
  cases h with
  | halted x running =>
    refine inv_terminate hs.consistent hs.accounted (Terminal.isTerminal_outcome _) fun he => ?_
    exact absurd he (Terminal.outcome_ne_escalated _)
  | late e reason notLive => exact inv_drop hs e reason
  | escalated e l why live unavailable =>
    refine inv_terminate hs.consistent hs.accounted rfl fun _ => ?_
    obtain ⟨-, -, h3⟩ := hs.consistent.live _ l live
    exact ⟨l.nodeId, hs.consistent.mem_nodeIds (by rw [h3]; exact nofun), e.port, why, rfl⟩
  | ended e l kind emits port terminal =>
    obtain ⟨hc, hacc, -⟩ := hs.emits_delivered hlegal emits
      (mem_forward_port hlegal port nofun)
    refine inv_terminate hc hacc (Terminal.isTerminal_outcome _) fun he => ?_
    exact absurd he (Terminal.outcome_ne_escalated _)
  | forwarded e l edges emits port forward =>
    obtain ⟨hc, hacc, hrun⟩ := hs.emits_delivered hlegal emits
      (mem_forward_port hlegal port forward)
    exact inv_of_settled (settled_settle hlegal hc.keys (hc.noOverfull hlegal) []) hlegal hc hacc
      hrun
  | traversed e l eid k emits port back source sourcePort =>
    obtain ⟨hc, hacc, hrun⟩ := hs.emits_delivered hlegal emits
      (no_forward_of_back_port hlegal port back.2)
    have htoken : nodeOf e.activationId = k.source := by
      rw [(hs.consistent.emitter emits).1, nodeOf_gateKey, source]
    have hc' : Consistent t (traverseBack t (delivered s l.nodeId e []) eid
        ⟨e.payloadRef, e.activationId⟩) :=
      hc.traverseBack hlegal back htoken
        (hs.consistent.traversed_lt emits back source sourcePort)
    exact inv_of_settled (settled_settle hlegal hc'.keys (hc'.noOverfull hlegal) _) hlegal hc'
      hacc.traverseBack (running_live_traverseBack hrun hc)

/-- The state `start` settles: every node pending and nothing else. -/
def initial (t : Topology) : RouterState :=
  { nodes := Dict.ofItems (t.nodeIds.map fun n => (n, {})) }

theorem node_initial (t : Topology) (n : String) : (initial t).node n = {} := by
  rw [RouterState.node, Dict.getD_eq, initial, Dict.get?_ofItems]
  cases hf : (t.nodeIds.map fun n => (n, ({} : NodeState))).reverse.find? (fun i => i.1 = n) with
  | none => rfl
  | some i =>
    have hmem := List.mem_reverse.mp (List.mem_of_find?_eq_some hf)
    obtain ⟨m, -, rfl⟩ := List.mem_map.mp hmem
    rfl

theorem consistent_initial (t : Topology) : Consistent t (initial t) := by
  have hslot : ∀ eid, (initial t).slots[eid]? = none := fun eid => Dict.get?_empty eid
  have hlive : ∀ aid, (initial t).live[aid]? = none := fun aid => Dict.get?_empty aid
  refine ⟨fun n => ?_, fun eid hmem => ?_, fun eid k tok _ htok => ?_, fun eid k tok _ htok => ?_,
    fun eid _ _ _ _ _ _ hmem => ?_, fun eid k _ hdone => ?_, fun n hn => ?_, fun n hn => ?_,
    fun eid b _ => ?_, fun aid l hl => ?_, fun aid l _ _ _ hl => ?_⟩
  · rw [Dict.mem_iff_get?, initial]
    constructor
    · rintro ⟨v, hv⟩
      obtain ⟨m, hm, heq⟩ := Dict.exists_of_get?_ofItems_map hv
      exact (Prod.mk.inj heq).1 ▸ hm
    · exact fun hn => Dict.get?_ofItems_map_of_mem (f := fun n => (n, ({} : NodeState))) hn
  · exact absurd hmem ((Dict.notMem_iff_get? _ _).mpr (hslot eid))
  · exact absurd (htok.symm.trans (hslot eid)) (Option.some_ne_none tok)
  · exact absurd (htok.symm.trans (hslot eid)) (Option.some_ne_none tok)
  · exact absurd hmem ((Dict.notMem_iff_get? _ _).mpr (hslot eid))
  · rw [node_initial] at hdone
    cases hdone
  · rw [node_initial] at hn
    cases hn
  · rw [node_initial] at hn
    exact absurd hn (by simp)
  · have hzero : (initial t).traversed eid = 0 := by
      rw [RouterState.traversed, Dict.getD_eq]
      exact congrArg (fun o => Option.getD o 0) (Dict.get?_empty eid)
    rw [hzero]
    exact Nat.zero_le b
  · exact absurd (hl.symm.trans (hlive aid)) (Option.some_ne_none l)
  · exact absurd (hl.symm.trans (hlive aid)) (Option.some_ne_none l)

theorem accounted_initial (t : Topology) : Accounted t (initial t) := by
  refine ⟨fun n _ r h1 hr => ?_, fun aid h => absurd h Std.ExtTreeMap.not_mem_empty,
    fun aid h => absurd h Std.ExtTreeSet.not_mem_empty, nofun,
    List.nodup_nil⟩
  rw [node_initial] at hr
  exact absurd (h1.trans hr) (by simp)

theorem settled_start (hlegal : t.Legal) : Settled t (initial t) [] (start t) :=
  settled_settle hlegal (consistent_initial t).keys ((consistent_initial t).noOverfull hlegal) []

theorem inv_start (hlegal : t.Legal) : Inv t (start t).state := by
  refine inv_of_settled (settled_start hlegal) hlegal (consistent_initial t)
    (accounted_initial t) ?_
  intro n hn
  rw [node_initial] at hn
  cases hn

theorem advance_of_next {s : Step} {event : Event} {s' : Step} (h : next t s event = some s') :
    advance t s.state event = .ok s' := by
  unfold next at h
  cases hadv : advance t s.state event with
  | error msg => rw [hadv] at h; exact absurd h.symm (Option.some_ne_none s')
  | ok st =>
    rw [hadv] at h
    exact congrArg Except.ok (Option.some.inj h)

/-- **Every reachable state satisfies the invariant.** -/
theorem inv_of_reachable (hlegal : t.Legal) {s : Step}
    (h : Reachable (start t) (next t) s) : Inv t s.state := by
  refine Reachable.induct (P := fun s => Inv t s.state) (inv_start hlegal) ?_ h
  intro s event s' _ hs hnext
  exact (advanced_of_advance hlegal hs.consistent (advance_of_next hnext)).inv hlegal hs

theorem inv_of_reachableState (hlegal : t.Legal) {w : RouterState} (h : ReachableState t w) :
    Inv t w := by
  obtain ⟨s, hs, rfl⟩ := h
  exact inv_of_reachable hlegal hs

end GraphRouter

end Kroker
