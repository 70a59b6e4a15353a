import Kroker.Graph.Invariant

/-!
# One emission as a move

An applied emission that does not end the run first changes the state by hand and then settles it.
`Moves` describes the first half for both kinds of port at once: the emitter is done, the nodes of
`cleared` are reset, tokens produced there are dropped and activations there retired, and `edges`
receive the new token.  For a port with forward edges nothing is cleared; for a loop edge `cleared`
is the region of its target, which contains the emitter.

`Moved.node_outside` is the frame: outside any set of nodes that is closed along forward edges and
contains the emitter and what is cleared, no node changes.  It is an induction over the acyclic
forward skeleton, because a node whose sources have not changed and whose slots have not changed
still waits.
-/

namespace Kroker

namespace GraphRouter

/-- The state `b` that is settled when the activation `e` of node `n` has put its token on `edges`
and reset `cleared`. -/
structure Moves (t : Topology) (w : RouterState) (e : Emitted) (n : String)
    (edges cleared : List String) (b : RouterState) : Prop where
  node : ∀ x, b.node x = if x ∈ cleared then { round := (w.node x).round }
    else if x = n then { round := (w.node n).round, status := .done, takenPort := some e.port }
    else w.node x
  slots : ∀ x : String, b.slots[x]? = if x ∈ edges then some ⟨e.payloadRef, e.activationId⟩
    else w.slots[x]?.filter fun tok => nodeOf tok.producer ∉ cleared
  traversals : ∀ x : String, b.traversals[x]? = if x ∈ edges ∧ x ∈ t.bounds
    then some (w.traversed x + 1) else w.traversals[x]?
  live : ∀ aid : String, b.live[aid]? = if e.activationId = aid then none
    else w.live[aid]?.filter fun l => l.nodeId ∉ cleared
  retired : ∀ aid : String, aid ∈ b.retired ↔ aid ∈ w.retired ∨
    ∃ l, w.live[aid]? = some l ∧ aid ≠ e.activationId ∧ l.nodeId ∈ cleared
  emissions : b.emissions = w.emissions ++ [⟨e.activationId, e.port, e.payloadRef⟩]
  dropped : b.dropped = w.dropped

theorem Moves.round {t : Topology} {w b : RouterState} {e : Emitted} {n : String}
    {edges cleared : List String} (h : Moves t w e n edges cleared b) (x : String) :
    (b.node x).round = (w.node x).round := by
  rw [h.node]
  split
  · rfl
  · split
    · next heq => rw [heq]
    · rfl

/-- The nodes an emission clears, and the edges it fills. -/
inductive Footprint (t : Topology) (n p : String) : List String → List String → Prop
  | forward (edges : List String) (port : (t.outPortsOf n)[p]? = some edges)
      (forward : ∀ eid ∈ edges, eid ∉ t.bounds) : Footprint t n p edges []
  | back (eid : String) (k : EdgeKey) (port : (t.outPortsOf n)[p]? = some [eid])
      (back : t.IsBack eid k) (source : k.source = n) (sourcePort : k.sourcePort = p) :
      Footprint t n p [eid] (t.region k.target)

/-- The step `s` applies the emission `e` of node `n` and settles. -/
structure Moved (t : Topology) (w : RouterState) (e : Emitted) (n : String)
    (edges cleared : List String) (s : Step) : Prop where
  footprint : Footprint t n e.port edges cleared
  exists_settled : ∃ b cancelled, Moves t w e n edges cleared b ∧ Consistent t b ∧
    Settled t b cancelled s ∧
      ∀ aid, aid ∈ cancelled ↔ ∃ l, w.live[aid]? = some l ∧ aid ≠ e.activationId ∧
        l.nodeId ∈ cleared

variable {t : Topology} {w : RouterState} {e : Emitted} {l : LiveActivation}

/-! ## 1. Applied emissions are moves -/

theorem filter_notMem_nil {α : Type} (o : Option α) (f : α → String) :
    (o.filter fun a => f a ∉ ([] : List String)) = o := by
  cases o with
  | none => rfl
  | some a => rw [Option.filter_some, if_pos (by simp)]

theorem moves_delivered (edges : List String) (hforward : ∀ eid ∈ edges, eid ∉ t.bounds) :
    Moves t w e l.nodeId edges [] (delivered w l.nodeId e edges) := by
  refine ⟨fun x => ?_, fun x => ?_, fun x => ?_, fun aid => ?_, fun aid => ?_, rfl, rfl⟩
  · rw [node_delivered, if_neg List.not_mem_nil]
    exact if_congr eq_comm rfl rfl
  · rw [get?_delivered_slots, filter_notMem_nil]
  · rw [if_neg fun h => hforward x h.1 h.2]
    rfl
  · show (w.live.erase e.activationId)[aid]? = _
    rw [Dict.get?_erase, filter_notMem_nil]
  · show aid ∈ w.retired ↔ _
    simp

/-- What a traversal retires, cancels and keeps, in terms of the state before the emission. -/
theorem moves_traverseBack (hlegal : t.Legal) {eid : String} {k : EdgeKey} (hk : t.IsBack eid k)
    (hs : k.source = l.nodeId) :
    Moves t w e l.nodeId [eid] (t.region k.target)
      (traverseBack t (delivered w l.nodeId e []) eid ⟨e.payloadRef, e.activationId⟩) := by
  have htarget : (t.endpoints eid).target = k.target := by rw [Topology.endpoints_of_get? hk.1]
  have hself : l.nodeId ∈ t.region k.target := by
    rw [hlegal.mem_region eid k hk, ← hs]
    exact hlegal.closes_cycle eid k hk
  have hlive : ∀ aid : String, (delivered w l.nodeId e []).live[aid]? =
      if e.activationId = aid then none else w.live[aid]? := fun aid => Dict.get?_erase _ _ _
  refine ⟨fun x => ?_, fun x => ?_, fun x => ?_, fun aid => ?_, fun aid => ?_, rfl, rfl⟩
  · rw [node_traverseBack, htarget, node_delivered]
    by_cases hx : x ∈ t.region k.target
    · rw [if_pos hx, if_pos hx]
      by_cases hxn : l.nodeId = x
      · rw [if_pos hxn, hxn]
      · rw [if_neg hxn]
    · rw [if_neg hx, if_neg hx]
      exact if_congr eq_comm rfl rfl
  · rw [get?_traverseBack_slots, htarget, get?_delivered_slots, if_neg List.not_mem_nil]
    simp only [List.mem_singleton, eq_comm]
  · show ((delivered w l.nodeId e []).traversals.insert eid _)[x]? = _
    rw [Dict.get?_insert]
    by_cases hx : eid = x
    · subst hx
      rw [if_pos rfl, if_pos ⟨List.mem_singleton.mpr rfl, hk.2⟩]
      rfl
    · rw [if_neg hx, if_neg fun h => hx (List.mem_singleton.mp h.1).symm]
      rfl
  · rw [get?_traverseBack_live, htarget, hlive]
    split <;> rfl
  · show aid ∈ (delivered w l.nodeId e []).retired.insertMany
      (cancelledBy t (delivered w l.nodeId e []) eid) ↔ _
    rw [StrSet.mem_insertMany, mem_cancelledBy, htarget]
    refine or_congr_right (exists_congr fun x => ?_)
    rw [hlive]
    by_cases haid : e.activationId = aid
    · rw [if_pos haid]
      exact ⟨fun h => absurd h.1.symm (Option.some_ne_none x), fun h => absurd haid.symm h.2.1⟩
    · rw [if_neg haid]
      exact ⟨fun h => ⟨h.1, fun heq => haid heq.symm, h.2⟩, fun h => ⟨h.1, h.2.2⟩⟩

theorem issuedNode_ok {n : String} {r : ℕ} (hn : n ∈ w.nodes) (h1 : 1 ≤ r)
    (hr : r ≤ (w.node n).round) : issuedNode w (gateKey n r) = .ok n := by
  unfold issuedNode
  rw [rpartition_gateKey]
  dsimp only
  rw [if_pos]
  rw [isDigits_toString, intOf_toString]
  simp [hn, h1, hr]

theorem advance_of_live (h : Inv t w) (hl : w.live[e.activationId]? = some l)
    {edges : List String} (hp : (t.outPortsOf l.nodeId)[e.port]? = some edges) :
    advance t w (.emitted e) = match l.unavailablePorts[e.port]? with
      | some why => .ok (terminate w .escalated (escalationText l.nodeId e.port why)
          (some e.activationId) [])
      | none => .ok (route t (finish w l.nodeId e) l.nodeId e edges) := by
  obtain ⟨-, haid, hrun⟩ := h.consistent.live _ l hl
  have hid := h.consistent.mem_nodeIds (n := l.nodeId) (by rw [hrun]; exact nofun)
  have hround : 1 ≤ (w.node l.nodeId).round := by
    obtain ⟨m, -, r, heq, h1, -⟩ := h.accounted.live _ ((Dict.mem_iff_get? _ _).mpr ⟨l, hl⟩)
    obtain ⟨-, hr⟩ := gateKey_inj.mp (haid.symm.trans heq)
    exact hr ▸ h1
  have hissued : issuedNode w e.activationId = .ok l.nodeId := by
    rw [haid]
    exact issuedNode_ok ((h.consistent.keys _).mpr hid) hround le_rfl
  rw [advance, hissued]
  show applyEmitted t w e l.nodeId = _
  rw [applyEmitted, hp]
  dsimp only
  rw [hl]
  rfl

theorem Inv.moved_forwarded (hlegal : t.Legal) (h : Inv t w) (he : Emits w e l)
    {edges : List String} (hp : (t.outPortsOf l.nodeId)[e.port]? = some edges)
    (hforward : ∀ eid ∈ edges, eid ∉ t.bounds) :
    Moved t w e l.nodeId edges [] (settle t (delivered w l.nodeId e edges) []) := by
  obtain ⟨hc, -, -⟩ := h.emits_delivered hlegal he (mem_forward_port hlegal hp hforward)
  refine ⟨.forward edges hp hforward, _, [], moves_delivered edges hforward, hc,
    settled_settle hlegal hc.keys (hc.noOverfull hlegal) [], fun aid => ?_⟩
  simp

theorem Inv.moved_traversed (hlegal : t.Legal) (h : Inv t w) (he : Emits w e l) {eid : String}
    {k : EdgeKey} (hp : (t.outPortsOf l.nodeId)[e.port]? = some [eid]) (hk : t.IsBack eid k)
    (hs : k.source = l.nodeId) (hsp : k.sourcePort = e.port) :
    Moved t w e l.nodeId [eid] (t.region k.target)
      (settle t (traverseBack t (delivered w l.nodeId e []) eid ⟨e.payloadRef, e.activationId⟩)
        (cancelledBy t (delivered w l.nodeId e []) eid)) := by
  obtain ⟨hc, -, -⟩ := h.emits_delivered hlegal he (no_forward_of_back_port hlegal hp hk.2)
  have htoken : nodeOf e.activationId = k.source := by
    rw [(h.consistent.emitter he).1, nodeOf_gateKey, hs]
  have hc' : Consistent t (traverseBack t (delivered w l.nodeId e []) eid
      ⟨e.payloadRef, e.activationId⟩) :=
    hc.traverseBack hlegal hk htoken (h.consistent.traversed_lt he hk hs hsp)
  refine ⟨.back eid k hp hk hs hsp, _, _, moves_traverseBack hlegal hk hs, hc',
    settled_settle hlegal hc'.keys (hc'.noOverfull hlegal) _, fun aid => ?_⟩
  rw [mem_cancelledBy, Topology.endpoints_of_get? hk.1]
  refine exists_congr fun x => ?_
  show (w.live.erase e.activationId)[aid]? = some x ∧ _ ↔ _
  rw [Dict.get?_erase]
  by_cases haid : e.activationId = aid
  · rw [if_pos haid]
    exact ⟨fun h => absurd h.1.symm (Option.some_ne_none x), fun h => absurd haid.symm h.2.1⟩
  · rw [if_neg haid]
    exact ⟨fun h => ⟨h.1, fun heq => haid heq.symm, h.2⟩, fun h => ⟨h.1, h.2.2⟩⟩

/-- **A live activation can always emit on a port of its node**, and the emission is a move unless
the port is terminal. -/
theorem exists_moved (hlegal : t.Legal) (h : Inv t w) (he : Emits w e l) {edges : List String}
    (hp : (t.outPortsOf l.nodeId)[e.port]? = some edges)
    (hgo : edges = [] → (t.terminalsOf l.nodeId)[e.port]? = none) :
    ∃ s cleared, advance t w (.emitted e) = .ok s ∧ Moved t w e l.nodeId edges cleared s := by
  have hadv := advance_of_live h he.live hp
  rw [he.available] at hadv
  dsimp only at hadv
  have hcase := advanced_of_advance hlegal h.consistent hadv
  refine ⟨route t (finish w l.nodeId e) l.nodeId e edges, ?_⟩
  generalize route t (finish w l.nodeId e) l.nodeId e edges = s at *
  generalize hev : Event.emitted e = event at hcase
  cases hcase with
  | halted x running => cases hev
  | late e' reason notLive =>
    obtain rfl := Event.emitted.inj hev
    exact absurd (he.live.symm.trans notLive) (Option.some_ne_none l)
  | escalated e' l' why live unavailable =>
    obtain rfl := Event.emitted.inj hev
    obtain rfl := Option.some.inj (he.live.symm.trans live)
    exact absurd (he.available.symm.trans unavailable).symm (Option.some_ne_none why)
  | ended e' l' kind emits port terminal =>
    obtain rfl := Event.emitted.inj hev
    obtain rfl := Option.some.inj (he.live.symm.trans emits.live)
    obtain rfl := Option.some.inj (hp.symm.trans port)
    exact absurd ((hgo rfl).symm.trans terminal).symm (Option.some_ne_none kind)
  | forwarded e' l' edges' emits port forward =>
    obtain rfl := Event.emitted.inj hev
    obtain rfl := Option.some.inj (he.live.symm.trans emits.live)
    obtain rfl := Option.some.inj (hp.symm.trans port)
    exact ⟨[], hadv, h.moved_forwarded hlegal emits port forward⟩
  | traversed e' l' eid k emits port back source sourcePort =>
    obtain rfl := Event.emitted.inj hev
    obtain rfl := Option.some.inj (he.live.symm.trans emits.live)
    obtain rfl := Option.some.inj (hp.symm.trans port)
    exact ⟨t.region k.target, hadv, h.moved_traversed hlegal emits port back source sourcePort⟩

theorem not_terminal_of_advance (h : Inv t w) (he : Emits w e l) {edges : List String}
    (hp : (t.outPortsOf l.nodeId)[e.port]? = some edges)
    (hgo : ∀ s, advance t w (.emitted e) = .ok s → s.outcome.isTerminal = false)
    (hnil : edges = []) : (t.terminalsOf l.nodeId)[e.port]? = none := by
  have hadv := advance_of_live h he.live hp
  rw [he.available] at hadv
  subst hnil
  cases hkind : (t.terminalsOf l.nodeId)[e.port]? with
  | none => rfl
  | some kind =>
    have hout := hgo _ hadv
    rw [route] at hout
    simp only [hkind] at hout
    have : kind.outcome.isTerminal = false := hout
    rw [Terminal.isTerminal_outcome] at this
    cases this

/-! ## 2. What a move leaves alone -/

/-- The set of nodes is closed along forward edges. -/
def ForwardClosed (t : Topology) (F : String → Prop) : Prop := ∀ a b, F a → t.Forward a b → F b

theorem forwardClosed_inRegion (t : Topology) (v : String) : ForwardClosed t (t.InRegion v) :=
  fun _ _ ha hab => ha.forward hab

variable {n : String} {edges cleared : List String} {s : Step}

theorem Footprint.unique {p : String} {edges' cleared' : List String}
    (h : Footprint t n p edges cleared) (h' : Footprint t n p edges' cleared') :
    edges = edges' ∧ cleared = cleared' := by
  cases h with
  | forward edges port forward =>
    cases h' with
    | forward edges' port' forward' => exact ⟨Option.some.inj (port.symm.trans port'), rfl⟩
    | back eid k port' back source sourcePort =>
      obtain rfl := Option.some.inj (port.symm.trans port')
      exact absurd back.2 (forward eid List.mem_cons_self)
  | back eid k port back source sourcePort =>
    cases h' with
    | forward edges' port' forward' =>
      obtain rfl := Option.some.inj (port.symm.trans port')
      exact absurd back.2 (forward' eid List.mem_cons_self)
    | back eid' k' port' back' source' sourcePort' =>
      obtain rfl := List.singleton_inj.mp (Option.some.inj (port.symm.trans port'))
      obtain rfl := Option.some.inj (back.1.symm.trans back'.1)
      exact ⟨rfl, rfl⟩

theorem Footprint.source (hlegal : t.Legal) {p : String} (h : Footprint t n p edges cleared)
    {eid : String} (heid : eid ∈ edges) :
    ∃ k : EdgeKey, t.edges[eid]? = some k ∧ k.source = n ∧ k.sourcePort = p := by
  cases h with
  | forward edges port forward => exact ((hlegal.outPort _ _ _ port).mem_iff eid).mp heid
  | back x k port back source sourcePort =>
    rw [List.mem_singleton.mp heid]
    exact ⟨k, back.1, source, sourcePort⟩

theorem Moved.mem_slots_iff (hlegal : t.Legal) (hw : Consistent t w)
    (h : Moved t w e n edges cleared s) {eid : String} {k : EdgeKey} (hk : t.IsForward eid k)
    (hn : k.source ≠ n) (hc : k.source ∉ cleared) : eid ∈ w.slots ↔ eid ∈ s.state.slots := by
  obtain ⟨b, _, hmoves, -, hsettled, -⟩ := h.exists_settled
  have hout : eid ∉ edges := by
    intro hmem
    obtain ⟨k', hk', hs, -⟩ := h.footprint.source hlegal hmem
    exact hn (Option.some.inj (hk.1.symm.trans hk') ▸ hs)
  rw [hsettled.slots, Dict.mem_iff_get?, Dict.mem_iff_get?]
  refine exists_congr fun tok => ?_
  rw [hmoves.slots, if_neg hout, Option.filter_eq_some_iff, decide_eq_true_eq]
  refine ⟨fun htok => ⟨htok, ?_⟩, And.left⟩
  rw [(hw.forward eid k tok hk htok).1, nodeOf_gateKey]
  exact hc

/-- **The frame**: outside a set that is closed along forward edges and holds the emitter and the
nodes that are cleared, no node changes. -/
theorem Moved.node_outside (hlegal : t.Legal) (hw : Consistent t w) (hwait : AllWaiting t w)
    (h : Moved t w e n edges cleared s) {F : String → Prop} (hclosed : ForwardClosed t F)
    (hn : F n) (hcleared : ∀ x ∈ cleared, F x) (x : String) (hx : ¬F x) :
    s.state.node x = w.node x := by
  induction x using hlegal.acyclic.induction with
  | h x ih =>
    obtain ⟨b, _, hmoves, hb, hsettled, -⟩ := h.exists_settled
    have hne : x ≠ n := fun heq => hx (heq ▸ hn)
    have hsame : b.node x = w.node x := by
      rw [hmoves.node, if_neg fun hmem => hx (hcleared x hmem), if_neg hne]
    -- the sources of `x` lie outside as well, so `x` sees what it saw before
    have hagree : AgreeInto t w s.state x := by
      intro eid k hk ht
      have hforward : t.Forward k.source x := ⟨eid, k, hk, rfl, ht⟩
      have hout : ¬F k.source := fun hF => hx (hclosed _ _ hF hforward)
      refine ⟨?_, h.mem_slots_iff hlegal hw hk (fun heq => hout (heq ▸ hn))
        fun hmem => hout (hcleared _ hmem)⟩
      rw [Bool.eq_iff_iff, edgeDead_iff hk.1, edgeDead_iff hk.1, ih _ hforward hout]
    rcases hsettled.node_cases hb x with heq | ⟨hp, hrest⟩
    · rw [heq, hsame]
    · have hid : x ∈ t.nodeIds := by
        rcases hrest with ⟨hd, -⟩ | ⟨hr, -⟩
        · exact (hb.settle hsettled hlegal).mem_nodeIds (by rw [hd]; exact nofun)
        · exact (hb.settle hsettled hlegal).mem_nodeIds (by rw [hr]; exact nofun)
      obtain ⟨hdead, hready⟩ := hwait x hid (hsame ▸ hp)
      rcases hrest with ⟨-, hd⟩ | ⟨-, -, hr⟩
      · rw [← isDead_congr hlegal hagree, hdead] at hd
        exact nomatch hd
      · rw [← isReady_congr hlegal hagree, hready] at hr
        exact nomatch hr

theorem Moved.issued_inside (hlegal : t.Legal) (hw : Consistent t w) (hwait : AllWaiting t w)
    (h : Moved t w e n edges cleared s) {F : String → Prop} (hclosed : ForwardClosed t F)
    (hn : F n) (hcleared : ∀ x ∈ cleared, F x) {b : RouterState}
    (hmoves : Moves t w e n edges cleared b) {x : String} (hx : IssuedIn t b s.state x) : F x := by
  by_contra hout
  have hsame := h.node_outside hlegal hw hwait hclosed hn hcleared x hout
  have hne : x ≠ n := fun heq => hout (heq ▸ hn)
  have hpending := hx.2.1
  rw [hmoves.node, if_neg fun hmem => hout (hcleared x hmem), if_neg hne, ← hsame,
    hx.2.2] at hpending
  cases hpending

theorem Moved.live_outside (hlegal : t.Legal) (hw : Consistent t w) (hwait : AllWaiting t w)
    (h : Moved t w e n edges cleared s) (he : w.live[e.activationId]? = some l)
    (hln : l.nodeId = n) {F : String → Prop} (hclosed : ForwardClosed t F) (hn : F n)
    (hcleared : ∀ x ∈ cleared, F x) (aid : String) (l' : LiveActivation) (hl' : ¬F l'.nodeId) :
    s.state.live[aid]? = some l' ↔ w.live[aid]? = some l' := by
  obtain ⟨b, _, hmoves, hb, hsettled, -⟩ := h.exists_settled
  have hbefore : b.live[aid]? = some l' ↔ w.live[aid]? = some l' := by
    rw [hmoves.live]
    by_cases haid : e.activationId = aid
    · rw [if_pos haid]
      refine ⟨fun h => absurd h.symm (Option.some_ne_none l'), fun h => ?_⟩
      rw [← haid, he, Option.some.injEq] at h
      exact absurd hn (hln ▸ h ▸ hl')
    · rw [if_neg haid, Option.filter_eq_some_iff, decide_eq_true_eq]
      exact ⟨And.left, fun h => ⟨h, fun hmem => hl' (hcleared _ hmem)⟩⟩
  rw [← hbefore]
  refine ⟨fun hl => ?_, hsettled.live_kept hb⟩
  rcases hsettled.live_cases hl with hold | ⟨x, hx, -, rfl⟩
  · exact hold
  · exact absurd (h.issued_inside hlegal hw hwait hclosed hn hcleared hmoves hx) hl'

section

variable (h : Moved t w e n edges cleared s)

include h

theorem Moved.not_terminal :
    s.state.outcome.isTerminal = false := by
  obtain ⟨b, _, -, -, hsettled, -⟩ := h.exists_settled
  rw [hsettled.outcome]
  split <;> rfl

theorem Moved.live_kept {aid : String} {l' : LiveActivation}
    (hl' : w.live[aid]? = some l') (hne : e.activationId ≠ aid) (hout : l'.nodeId ∉ cleared) :
    s.state.live[aid]? = some l' := by
  obtain ⟨b, _, hmoves, hb, hsettled, -⟩ := h.exists_settled
  refine hsettled.live_kept hb ?_
  rw [hmoves.live, if_neg hne, hl', Option.filter_some, if_pos (decide_eq_true hout)]

theorem Moved.round_le (x : String) :
    (w.node x).round ≤ (s.state.node x).round := by
  obtain ⟨b, _, hmoves, hb, hsettled, -⟩ := h.exists_settled
  rw [← hmoves.round x]
  exact hsettled.round_le hb x

theorem Moved.mem_issued_iff (aid : String) :
    aid ∈ s.activations.map Activation.activationId ↔
      ∃ x r, aid = gateKey x r ∧ (w.node x).round < r ∧ r ≤ (s.state.node x).round := by
  obtain ⟨b, _, hmoves, hb, hsettled, -⟩ := h.exists_settled
  rw [List.mem_map]
  constructor
  · rintro ⟨a, ha, rfl⟩
    obtain ⟨x, hx, rfl⟩ := (hsettled.activations a).mp ha
    refine ⟨x, (s.state.node x).round, rfl, ?_, le_rfl⟩
    rw [← hmoves.round x, hsettled.round_of_issued hb hx]
    exact Nat.lt_succ_self _
  · rintro ⟨x, r, rfl, hlt, hle⟩
    rw [← hmoves.round x] at hlt
    obtain ⟨hx, hr⟩ := hsettled.issued_of_round_lt hb (hlt.trans_le hle)
    have : r = (s.state.node x).round := by omega
    exact ⟨_, (hsettled.activations _).mpr ⟨x, hx, rfl⟩, this ▸ rfl⟩

theorem Moved.traversed (x : String) : s.state.traversed x =
    if x ∈ edges ∧ x ∈ t.bounds then w.traversed x + 1 else w.traversed x := by
  obtain ⟨b, _, hmoves, -, hsettled, -⟩ := h.exists_settled
  rw [RouterState.traversed, Dict.getD_eq, hsettled.traversals, hmoves.traversals]
  split
  · rfl
  · rw [RouterState.traversed, Dict.getD_eq]

end

end GraphRouter

end Kroker
