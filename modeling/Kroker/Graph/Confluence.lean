import Kroker.Graph.RouterSafety

/-!
# Emissions commute

Two live activations may emit in either order: the states that result are equal, up to the snapshots
of unavailable ports, and the same activations are issued (`confluence`).

Each order is two moves.  `both_of_moved` describes the state after both in terms that do not
mention the order: a node evolves from what the two emissions leave of it, and slots, counters,
retired activations and emissions are given outright.  Two such states agree (`Both.unique`): nodes
by induction along the forward skeleton, since what becomes of a pending node depends on its sources
and on slots only, and the rest of the state follows from the nodes.
-/

namespace Kroker

def RouterState.forgetSnapshots (w : RouterState) : RouterState :=
  { w with live := w.live.map fun _ l => { l with unavailablePorts := ∅ } }

namespace GraphRouter

variable {t : Topology}

/-! ## 1. How a node evolves -/

/-- What settling, once or more often, makes of a node. -/
def Evolves (ns ns' : NodeState) : Prop :=
  ns' = ns ∨ ns.status = .pending ∧ (ns' = { round := ns.round, status := .dead } ∨
    ns' = { round := ns.round + 1, status := .running })

theorem Evolves.trans {a b c : NodeState} (hab : Evolves a b) (hbc : Evolves b c) :
    Evolves a c := by
  rcases hab with rfl | ⟨hp, hb⟩
  · exact hbc
  · rcases hbc with rfl | ⟨hpb, -⟩
    · exact Or.inr ⟨hp, hb⟩
    · -- a node that has been settled is no longer pending
      rcases hb with rfl | rfl <;> cases hpb

theorem Settled.evolves {w : RouterState} {cancelled : List String} {s : Step}
    (h : Settled t w cancelled s) (hw : Consistent t w) (x : String) :
    Evolves (w.node x) (s.state.node x) := by
  rcases h.node_cases hw x with hsame | ⟨hp, ⟨hd, -⟩ | ⟨hr, -⟩⟩
  · exact Or.inl hsame
  · exact Or.inr ⟨hp, Or.inl hd⟩
  · exact Or.inr ⟨hp, Or.inr hr⟩

theorem Evolves.eq_settledNode {w : RouterState} (h : Inv t w)
    (hgo : w.outcome.isTerminal = false) {x : String} (hx : x ∈ t.nodeIds) {ns : NodeState}
    (hns : Evolves ns (w.node x)) (hp : ns.status = .pending) :
    w.node x = settledNode t w x ns := by
  rw [settledNode]
  rcases hns with hn | ⟨-, hn | hn⟩
  · obtain ⟨hd, hr⟩ := h.waiting hgo x hx (by rw [hn, hp])
    rw [hd, hr, if_neg Bool.false_ne_true, if_neg Bool.false_ne_true, hn]
  · rw [h.consistent.dead x (by rw [hn]), if_pos rfl, hn]
  · obtain ⟨hr, hd⟩ := h.consistent.active x (Or.inl (by rw [hn]))
    rw [hd, hr, if_neg Bool.false_ne_true, if_pos rfl, hn]

/-- **Settled nodes are determined** by what they evolved from and by the slots. -/
theorem node_unique (hlegal : t.Legal) {w w' : RouterState} (h : Inv t w) (h' : Inv t w')
    (hgo : w.outcome.isTerminal = false) (hgo' : w'.outcome.isTerminal = false)
    (hslots : w.slots = w'.slots) {ns : String → NodeState}
    (hns : ∀ x, Evolves (ns x) (w.node x)) (hns' : ∀ x, Evolves (ns x) (w'.node x)) (x : String) :
    w.node x = w'.node x := by
  induction x using hlegal.acyclic.induction with
  | h x ih =>
    by_cases hx : x ∈ t.nodeIds
    swap
    · have hout := (Dict.notMem_iff_get? w.nodes x).mp fun hm => hx ((h.consistent.keys x).mp hm)
      have hout' := (Dict.notMem_iff_get? w'.nodes x).mp fun hm =>
        hx ((h'.consistent.keys x).mp hm)
      rw [RouterState.node, RouterState.node, Dict.getD_eq, Dict.getD_eq, hout, hout']
    by_cases hp : (ns x).status = .pending
    swap
    · rw [(hns x).resolve_right fun hr => hp hr.1, (hns' x).resolve_right fun hr => hp hr.1]
    have hagree : AgreeInto t w w' x := by
      intro eid k hk ht
      refine ⟨?_, by rw [hslots]⟩
      rw [Bool.eq_iff_iff, edgeDead_iff hk.1, edgeDead_iff hk.1, ih _ ⟨eid, k, hk, rfl, ht⟩]
    rw [(hns x).eq_settledNode h hgo hx hp, (hns' x).eq_settledNode h' hgo' hx hp, settledNode,
      settledNode, isDead_congr hlegal hagree, isReady_congr hlegal hagree]

/-! ## 2. One emission after another -/

/-- What the first emission touches is closed along forward edges and holds nothing the second one
clears. -/
def Clears (t : Topology) (n : String) (cleared cleared' : List String) : Prop :=
  ∃ F, ForwardClosed t F ∧ F n ∧ (∀ x ∈ cleared, F x) ∧ ∀ x ∈ cleared', ¬F x

/-- A node after both emissions and before anything is settled. -/
def afterBoth (w : RouterState) (e₁ e₂ : Emitted) (n₁ n₂ : String) (cleared₁ cleared₂ : List String)
    (x : String) : NodeState :=
  if x ∈ cleared₁ ∨ x ∈ cleared₂ then { round := (w.node x).round }
  else if x = n₁ then { round := (w.node x).round, status := .done, takenPort := some e₁.port }
  else if x = n₂ then { round := (w.node x).round, status := .done, takenPort := some e₂.port }
  else w.node x

/-- The state `w'` is what both emissions make of `w`. -/
structure Both (t : Topology) (w : RouterState) (e₁ e₂ : Emitted) (n₁ n₂ : String)
    (edges₁ edges₂ cleared₁ cleared₂ : List String) (w' : RouterState) : Prop where
  node : ∀ x, Evolves (afterBoth w e₁ e₂ n₁ n₂ cleared₁ cleared₂ x) (w'.node x)
  slots : ∀ x : String, w'.slots[x]? =
    if x ∈ edges₁ then some ⟨e₁.payloadRef, e₁.activationId⟩
    else if x ∈ edges₂ then some ⟨e₂.payloadRef, e₂.activationId⟩
    else w.slots[x]?.filter fun tok =>
      nodeOf tok.producer ∉ cleared₁ ∧ nodeOf tok.producer ∉ cleared₂
  traversals : ∀ x : String, w'.traversals[x]? =
    if (x ∈ edges₁ ∨ x ∈ edges₂) ∧ x ∈ t.bounds then some (w.traversed x + 1)
    else w.traversals[x]?
  retired : ∀ aid, aid ∈ w'.retired ↔ aid ∈ w.retired ∨
    ∃ l : LiveActivation, w.live[aid]? = some l ∧
      (aid ≠ e₁.activationId ∧ l.nodeId ∈ cleared₁ ∨ aid ≠ e₂.activationId ∧ l.nodeId ∈ cleared₂)
  emissions : w'.emissions.Perm (w.emissions ++ [⟨e₁.activationId, e₁.port, e₁.payloadRef⟩,
    ⟨e₂.activationId, e₂.port, e₂.payloadRef⟩])
  sorted : w'.emissions.Pairwise fun a b => a.activationId ≤ b.activationId
  dropped : w'.dropped = (w.dropped.insertionSort fun a b => a.sortKey ≤ b.sortKey).insertionSort
    fun a b => a.sortKey ≤ b.sortKey
  reason : w'.reason = none

section Twice

variable {w : RouterState} {e₁ e₂ : Emitted} {n₁ n₂ : String}
  {edges₁ edges₂ cleared₁ cleared₂ : List String}

theorem afterBoth_comm (hne : n₁ ≠ n₂) (x : String) :
    afterBoth w e₁ e₂ n₁ n₂ cleared₁ cleared₂ x = afterBoth w e₂ e₁ n₂ n₁ cleared₂ cleared₁ x := by
  unfold afterBoth
  by_cases h₁ : x = n₁
  · have h₂ : x ≠ n₂ := fun h => hne (h₁.symm.trans h)
    simp only [if_pos h₁, if_neg h₂, or_comm]
  · simp only [if_neg h₁, or_comm]

theorem Both.symm {w' : RouterState} (hne : n₁ ≠ n₂) (hedges : ∀ x ∈ edges₁, x ∉ edges₂)
    (h : Both t w e₁ e₂ n₁ n₂ edges₁ edges₂ cleared₁ cleared₂ w') :
    Both t w e₂ e₁ n₂ n₁ edges₂ edges₁ cleared₂ cleared₁ w' := by
  refine ⟨fun x => ?_, fun x => ?_, fun x => ?_, fun aid => ?_, ?_, h.sorted, h.dropped, h.reason⟩
  · rw [← afterBoth_comm hne]
    exact h.node x
  · rw [h.slots]
    by_cases h₁ : x ∈ edges₁
    · rw [if_pos h₁, if_neg (hedges x h₁), if_pos h₁]
    · simp only [if_neg h₁, and_comm]
  · rw [h.traversals]
    simp only [or_comm]
  · rw [h.retired]
    simp only [or_comm]
  · refine h.emissions.trans (List.Perm.append_left _ ?_)
    exact List.Perm.swap _ _ _

theorem get?_live_forget {w : RouterState} (h : Inv t w) (hgo : w.outcome.isTerminal = false)
    (aid : String) :
    (w.live[aid]?.map fun l => { l with unavailablePorts := ∅ }) =
      if (w.node (nodeOf aid)).status = .running ∧
          aid = gateKey (nodeOf aid) (w.node (nodeOf aid)).round then
        some { activationId := aid, nodeId := nodeOf aid, unavailablePorts := ∅ }
      else none := by
  cases hl : w.live[aid]? with
  | some l =>
    obtain ⟨h₁, h₂, h₃⟩ := h.consistent.live aid l hl
    have hnode : nodeOf aid = l.nodeId := by rw [h₂, nodeOf_gateKey]
    rw [hnode, if_pos ⟨h₃, h₂⟩, Option.map_some, h₁]
  | none =>
    rw [if_neg, Option.map_none]
    rintro ⟨hrun, haid⟩
    have hmem := h.running_live hgo _ hrun
    rw [← haid, Dict.mem_iff_get?, hl] at hmem
    exact absurd hmem.choose_spec.symm (Option.some_ne_none _)

/-- **Both states are the same**, the snapshots apart. -/
theorem Both.unique (hlegal : t.Legal) {w' w'' : RouterState}
    (h' : Both t w e₁ e₂ n₁ n₂ edges₁ edges₂ cleared₁ cleared₂ w')
    (h'' : Both t w e₁ e₂ n₁ n₂ edges₁ edges₂ cleared₁ cleared₂ w'') (hi' : Inv t w')
    (hi'' : Inv t w'') (hgo' : w'.outcome.isTerminal = false)
    (hgo'' : w''.outcome.isTerminal = false) :
    w'.forgetSnapshots = w''.forgetSnapshots := by
  have hslots : w'.slots = w''.slots := Dict.ext fun x => (h'.slots x).trans (h''.slots x).symm
  have hnode : ∀ x, w'.node x = w''.node x :=
    node_unique hlegal hi' hi'' hgo' hgo'' hslots h'.node h''.node
  have hnodes : w'.nodes = w''.nodes := by
    refine Dict.ext fun x => ?_
    have hsame := hnode x
    have hkeys := (hi'.consistent.keys x).trans (hi''.consistent.keys x).symm
    rw [Dict.mem_iff_get?, Dict.mem_iff_get?] at hkeys
    rw [RouterState.node, RouterState.node, Dict.getD_eq, Dict.getD_eq] at hsame
    cases hx' : w'.nodes[x]? with
    | some v =>
      obtain ⟨v', hv'⟩ := hkeys.mp ⟨v, hx'⟩
      rw [hx', hv'] at hsame
      rw [hv']
      exact congrArg some hsame
    | none =>
      cases hx'' : w''.nodes[x]? with
      | none => rfl
      | some v =>
        obtain ⟨v', hv'⟩ := hkeys.mpr ⟨v, hx''⟩
        exact absurd (hv'.symm.trans hx') (Option.some_ne_none v')
  have hlive : (w'.live.map fun _ l => { l with unavailablePorts := ∅ }) =
      w''.live.map fun _ l => { l with unavailablePorts := ∅ } := by
    refine Dict.ext fun aid => ?_
    rw [Std.ExtTreeMap.getElem?_map, Std.ExtTreeMap.getElem?_map, get?_live_forget hi' hgo',
      get?_live_forget hi'' hgo'', hnode]
  have houtcome : w'.outcome = w''.outcome := by
    have hempty : w'.live.isEmpty = w''.live.isEmpty := by
      have hsize := congrArg Std.ExtTreeMap.size hlive
      rw [Std.ExtTreeMap.size_map, Std.ExtTreeMap.size_map] at hsize
      rw [Std.ExtTreeMap.isEmpty_eq_size_beq_zero, Std.ExtTreeMap.isEmpty_eq_size_beq_zero, hsize]
    rw [hi'.outcome hgo', hi''.outcome hgo'', hempty]
  have hemissions : w'.emissions = w''.emissions := by
    refine List.Perm.eq_of_pairwise (fun a b ha hb hab hba => ?_) h'.sorted h''.sorted
      (h'.emissions.trans h''.emissions.symm)
    -- no activation emits twice
    have hb' := (h'.emissions.trans h''.emissions.symm).symm.subset hb
    exact List.inj_on_of_nodup_map hi'.accounted.emitted_once ha hb' (le_antisymm hab hba)
  have hretired : w'.retired = w''.retired :=
    StrSet.ext fun aid => (h'.retired aid).trans (h''.retired aid).symm
  have htraversals : w'.traversals = w''.traversals :=
    Dict.ext fun x => (h'.traversals x).trans (h''.traversals x).symm
  unfold RouterState.forgetSnapshots
  rw [hnodes, hslots, htraversals, hlive, hretired, hemissions, h'.dropped, h''.dropped, houtcome,
    h'.reason, h''.reason]

theorem Footprint.disjoint (hlegal : t.Legal) {p₁ p₂ : String}
    (h₁ : Footprint t n₁ p₁ edges₁ cleared₁) (h₂ : Footprint t n₂ p₂ edges₂ cleared₂)
    (hne : n₁ ≠ n₂) : ∀ x ∈ edges₁, x ∉ edges₂ := by
  intro x hx₁ hx₂
  obtain ⟨k₁, hk₁, hs₁, -⟩ := h₁.source hlegal hx₁
  obtain ⟨k₂, hk₂, hs₂, -⟩ := h₂.source hlegal hx₂
  obtain rfl := Option.some.inj (hk₁.symm.trans hk₂)
  exact hne (hs₁.symm.trans hs₂)

/-- **Two emissions, one after the other**, when the first one touches nothing that the second one
clears. -/
theorem both_of_moved (hlegal : t.Legal) (hw : Inv t w) {s₁ s₁₂ : Step} {l₁ l₂ : LiveActivation}
    (hl₁ : Emits w e₁ l₁) (hl₂ : Emits w e₂ l₂)
    (h₁ : Moved t w e₁ l₁.nodeId edges₁ cleared₁ s₁)
    (h₂ : Moved t s₁.state e₂ l₂.nodeId edges₂ cleared₂ s₁₂) (hne : l₁.nodeId ≠ l₂.nodeId)
    (hclears : Clears t l₁.nodeId cleared₁ cleared₂) (hout : l₂.nodeId ∉ cleared₁) :
    Both t w e₁ e₂ l₁.nodeId l₂.nodeId edges₁ edges₂ cleared₁ cleared₂ s₁₂.state := by
  obtain ⟨F, hclosed, hFn, hFcleared, hFout⟩ := hclears
  have hwait := hw.waiting (hw.live_of_running hl₁.live)
  obtain ⟨b₁, _, hmoves₁, hb₁, hsettled₁, -⟩ := h₁.exists_settled
  obtain ⟨b₂, _, hmoves₂, hb₂, hsettled₂, -⟩ := h₂.exists_settled
  have hedges := h₁.footprint.disjoint hlegal h₂.footprint hne
  have hrun₂ := (hw.consistent.emitter hl₂).2.1
  refine ⟨fun x => ?_, fun x => ?_, fun x => ?_, fun aid => ?_, ?_, ?_, ?_, hsettled₂.reason⟩
  · have hevolves := hsettled₂.evolves hb₂ x
    rw [hmoves₂.node] at hevolves
    unfold afterBoth
    by_cases hx₂ : x ∈ cleared₂
    · -- the second emission resets a node the first one has not touched
      rw [if_pos hx₂, h₁.node_outside hlegal hw.consistent hwait hclosed hFn hFcleared x
        (hFout x hx₂)] at hevolves
      rw [if_pos (Or.inr hx₂)]
      exact hevolves
    rw [if_neg hx₂] at hevolves
    have hevolves₁ := hsettled₁.evolves hb₁ x
    rw [hmoves₁.node] at hevolves₁
    by_cases hx₁ : x ∈ cleared₁
    · rw [if_neg fun heq : x = l₂.nodeId => hout (heq ▸ hx₁)] at hevolves
      rw [if_pos hx₁] at hevolves₁
      rw [if_pos (Or.inl hx₁)]
      exact hevolves₁.trans hevolves
    rw [if_neg hx₁] at hevolves₁
    rw [if_neg (not_or.mpr ⟨hx₁, hx₂⟩)]
    by_cases hxn₂ : x = l₂.nodeId
    · subst hxn₂
      -- the second emitter is running, so the first emission leaves it alone
      rw [if_neg hne.symm] at hevolves₁
      have hsame : s₁.state.node l₂.nodeId = w.node l₂.nodeId :=
        hevolves₁.resolve_right fun h => NodeStatus.noConfusion (hrun₂.symm.trans h.1)
      rw [if_pos rfl, hsame] at hevolves
      rw [if_neg hne.symm, if_pos rfl]
      exact hevolves
    · rw [if_neg hxn₂] at hevolves
      rw [if_neg hxn₂]
      refine Evolves.trans ?_ hevolves
      by_cases hxn₁ : x = l₁.nodeId
      · rw [if_pos hxn₁] at hevolves₁ ⊢
        rw [hxn₁] at hevolves₁ ⊢
        exact hevolves₁
      · rw [if_neg hxn₁] at hevolves₁ ⊢
        exact hevolves₁
  · rw [hsettled₂.slots, hmoves₂.slots, hsettled₁.slots, hmoves₁.slots]
    by_cases hx₁ : x ∈ edges₁
    · -- the first token is not cleared by the second emission
      have hkept : nodeOf e₁.activationId ∉ cleared₂ := by
        rw [(hw.consistent.emitter hl₁).1, nodeOf_gateKey]
        exact fun hmem => hFout _ hmem hFn
      rw [if_neg (hedges x hx₁), if_pos hx₁, if_pos hx₁, Option.filter_some,
        if_pos (decide_eq_true hkept)]
    · rw [if_neg hx₁, if_neg hx₁]
      by_cases hx₂ : x ∈ edges₂
      · rw [if_pos hx₂, if_pos hx₂]
      · rw [if_neg hx₂, if_neg hx₂, Option.filter_filter]
        simp only [Bool.decide_and]
  · rw [hsettled₂.traversals, hmoves₂.traversals, h₁.traversed, hsettled₁.traversals,
      hmoves₁.traversals]
    by_cases hx₁ : x ∈ edges₁
    · simp only [hx₁, hedges x hx₁, true_or, true_and, false_and, if_false]
    · simp only [hx₁, false_or, false_and, if_false]
  · rw [hsettled₂.retired, hmoves₂.retired, hsettled₁.retired, hmoves₁.retired, or_assoc,
      ← exists_or]
    refine or_congr_right (exists_congr fun l => ?_)
    by_cases hl : l.nodeId ∈ cleared₂
    · rw [h₁.live_outside hlegal hw.consistent hwait hl₁.live rfl hclosed hFn hFcleared aid l
        (hFout _ hl), ← and_or_left]
    · simp only [hl, and_false, or_false]
  · rw [hsettled₂.emissions, hmoves₂.emissions, hsettled₁.emissions, hmoves₁.emissions]
    refine (List.perm_insertionSort _ _).trans ?_
    refine ((List.perm_insertionSort _ _).append_right _).trans ?_
    rw [List.append_assoc, List.singleton_append]
  · rw [hsettled₂.emissions]
    have : Std.Total fun a b : Emission => a.activationId ≤ b.activationId :=
      ⟨fun a b => le_total a.activationId b.activationId⟩
    have : IsTrans Emission fun a b => a.activationId ≤ b.activationId :=
      ⟨fun a b c => le_trans⟩
    exact List.pairwise_insertionSort _ _
  · rw [hsettled₂.dropped, hmoves₂.dropped, hsettled₁.dropped, hmoves₁.dropped]

end Twice

/-! ## 3. Either order -/

/-- The node is in the footprint of an emission of `n` on a port with these edges: the region that
is reset, if one of them is a loop edge, else `n` and what is reachable from it. -/
def InFootprint (t : Topology) (n : String) (edges : List String) (x : String) : Prop :=
  match edges.find? (· ∈ t.bounds) with
  | some eid => x ∈ t.region (t.endpoints eid).target
  | none => t.InRegion n x

section Order

variable {n p : String} {edges cleared : List String}

theorem inFootprint_forward (hforward : ∀ eid ∈ edges, eid ∉ t.bounds) (x : String) :
    InFootprint t n edges x ↔ t.InRegion n x := by
  have hnone : edges.find? (· ∈ t.bounds) = none := by
    rw [List.find?_eq_none]
    exact fun eid heid h => hforward eid heid (of_decide_eq_true h)
  rw [InFootprint, hnone]

theorem inFootprint_back (hlegal : t.Legal) {eid : String} {k : EdgeKey} (hk : t.IsBack eid k)
    (x : String) : InFootprint t n [eid] x ↔ t.InRegion k.target x := by
  have hsome : [eid].find? (· ∈ t.bounds) = some eid := by
    rw [List.find?_cons_of_pos]
    exact decide_eq_true hk.2
  rw [InFootprint, hsome]
  dsimp only
  rw [Topology.endpoints_of_get? hk.1, hlegal.mem_region eid k hk]

theorem Footprint.forwardClosed (hlegal : t.Legal) (h : Footprint t n p edges cleared) :
    ForwardClosed t (InFootprint t n edges) := by
  intro a b ha hab
  cases h with
  | forward edges port forward =>
    rw [inFootprint_forward forward] at ha ⊢
    exact ha.forward hab
  | back eid k port back source sourcePort =>
    rw [inFootprint_back hlegal back] at ha ⊢
    exact ha.forward hab

theorem Footprint.emitter (hlegal : t.Legal) (h : Footprint t n p edges cleared) :
    InFootprint t n edges n := by
  cases h with
  | forward edges port forward =>
    rw [inFootprint_forward forward]
    exact Relation.ReflTransGen.refl
  | back eid k port back source sourcePort =>
    rw [inFootprint_back hlegal back, ← source]
    exact hlegal.closes_cycle eid k back

theorem Footprint.inFootprint_cleared (hlegal : t.Legal) (h : Footprint t n p edges cleared) :
    ∀ x ∈ cleared, InFootprint t n edges x := by
  intro x hx
  cases h with
  | forward edges port forward => exact nomatch hx
  | back eid k port back source sourcePort =>
    rw [inFootprint_back hlegal back, ← hlegal.mem_region eid k back]
    exact hx

theorem Footprint.cleared_eq_nil (h : Footprint t n p edges cleared)
    (hforward : ∀ eid ∈ edges, eid ∉ t.bounds) : cleared = [] := by
  cases h with
  | forward edges port forward => rfl
  | back eid k port back source sourcePort =>
    exact absurd back.2 (hforward eid List.mem_cons_self)

/-- The emissions do not get in each other's way: neither takes a loop, or their footprints are
disjoint. -/
def Apart (t : Topology) (n₁ n₂ : String) (edges₁ edges₂ : List String) : Prop :=
  (∀ eid, eid ∈ edges₁ ∨ eid ∈ edges₂ → eid ∉ t.bounds) ∨
    ∀ x, ¬(InFootprint t n₁ edges₁ x ∧ InFootprint t n₂ edges₂ x)

theorem Apart.symm {n₁ n₂ : String} {edges₁ edges₂ : List String}
    (h : Apart t n₁ n₂ edges₁ edges₂) : Apart t n₂ n₁ edges₂ edges₁ :=
  h.imp (fun h eid heid => h eid heid.symm) fun h x hx => h x hx.symm

theorem Apart.clears (hlegal : t.Legal) {n₁ n₂ p₁ p₂ : String}
    {edges₁ edges₂ cleared₁ cleared₂ : List String} (h : Apart t n₁ n₂ edges₁ edges₂)
    (h₁ : Footprint t n₁ p₁ edges₁ cleared₁) (h₂ : Footprint t n₂ p₂ edges₂ cleared₂) :
    Clears t n₁ cleared₁ cleared₂ ∧ n₂ ∉ cleared₁ := by
  rcases h with hforward | hdisjoint
  · rw [h₁.cleared_eq_nil fun eid heid => hforward eid (Or.inl heid),
      h₂.cleared_eq_nil fun eid heid => hforward eid (Or.inr heid)]
    exact ⟨⟨fun _ => True, fun _ _ _ _ => trivial, trivial, fun _ _ => trivial,
      nofun⟩, List.not_mem_nil⟩
  · refine ⟨⟨InFootprint t n₁ edges₁, h₁.forwardClosed hlegal, h₁.emitter hlegal,
      h₁.inFootprint_cleared hlegal, fun x hx hin => ?_⟩, fun hmem => ?_⟩
    · exact hdisjoint x ⟨hin, h₂.inFootprint_cleared hlegal x hx⟩
    · exact hdisjoint n₂ ⟨h₁.inFootprint_cleared hlegal n₂ hmem, h₂.emitter hlegal⟩

/-- One order: both emissions are applied, and the state is described by `Both`. -/
theorem exists_both (hlegal : t.Legal) {w : RouterState} (hw : Inv t w) {e₁ e₂ : Emitted}
    {l₁ l₂ : LiveActivation} {edges₁ edges₂ : List String} (h₁ : Emits w e₁ l₁)
    (h₂ : Emits w e₂ l₂) (hne : e₁.activationId ≠ e₂.activationId)
    (hnodes : l₁.nodeId ≠ l₂.nodeId)
    (hp₁ : (t.outPortsOf l₁.nodeId)[e₁.port]? = some edges₁)
    (hp₂ : (t.outPortsOf l₂.nodeId)[e₂.port]? = some edges₂)
    (hgo₁ : edges₁ = [] → (t.terminalsOf l₁.nodeId)[e₁.port]? = none)
    (hgo₂ : edges₂ = [] → (t.terminalsOf l₂.nodeId)[e₂.port]? = none)
    (hapart : Apart t l₁.nodeId l₂.nodeId edges₁ edges₂) :
    ∃ s₁ s₁₂ cleared₁ cleared₂, advance t w (.emitted e₁) = .ok s₁ ∧
      advance t s₁.state (.emitted e₂) = .ok s₁₂ ∧
      Moved t w e₁ l₁.nodeId edges₁ cleared₁ s₁ ∧
      Moved t s₁.state e₂ l₂.nodeId edges₂ cleared₂ s₁₂ ∧ Inv t s₁₂.state ∧
      Both t w e₁ e₂ l₁.nodeId l₂.nodeId edges₁ edges₂ cleared₁ cleared₂ s₁₂.state := by
  obtain ⟨s₁, cleared₁, hadv₁, hmoved₁⟩ := exists_moved hlegal hw h₁ hp₁ hgo₁
  have hi₁ := (advanced_of_advance hlegal hw.consistent hadv₁).inv hlegal hw
  obtain ⟨_, cleared₂', -, hmoved₂⟩ := exists_moved hlegal hw h₂ hp₂ hgo₂
  obtain ⟨hclears, hout⟩ := hapart.clears hlegal hmoved₁.footprint hmoved₂.footprint
  have hlive₂ : Emits s₁.state e₂ l₂ := ⟨hmoved₁.live_kept h₂.live hne hout, h₂.available⟩
  obtain ⟨s₁₂, cleared₂, hadv₁₂, hmoved₁₂⟩ := exists_moved hlegal hi₁ hlive₂ hp₂ hgo₂
  have hi₁₂ := (advanced_of_advance hlegal hi₁.consistent hadv₁₂).inv hlegal hi₁
  obtain ⟨-, rfl⟩ := hmoved₁₂.footprint.unique hmoved₂.footprint
  exact ⟨s₁, s₁₂, cleared₁, cleared₂, hadv₁, hadv₁₂, hmoved₁, hmoved₁₂, hi₁₂,
    both_of_moved hlegal hw h₁ h₂ hmoved₁ hmoved₁₂ hnodes hclears hout⟩

end Order

variable {proposer_model_error : String → String → Option String} {graph : PipelineGraph}
  {registry : Registry} {roles : Dict RoleConfig}

def issuedIds (s s' : Step) (aid : String) : Prop :=
  aid ∈ s.activations.map Activation.activationId ∨ aid ∈ s'.activations.map Activation.activationId

theorem Moved.mem_issued_twice {w : RouterState} {e₁ e₂ : Emitted} {n₁ n₂ : String}
    {edges₁ edges₂ cleared₁ cleared₂ : List String} {s₁ s₁₂ : Step}
    (h₁ : Moved t w e₁ n₁ edges₁ cleared₁ s₁)
    (h₂ : Moved t s₁.state e₂ n₂ edges₂ cleared₂ s₁₂) (aid : String) :
    issuedIds s₁ s₁₂ aid ↔
      ∃ x r, aid = gateKey x r ∧ (w.node x).round < r ∧ r ≤ (s₁₂.state.node x).round := by
  rw [issuedIds, h₁.mem_issued_iff, h₂.mem_issued_iff]
  constructor
  · rintro (⟨x, r, haid, hlt, hle⟩ | ⟨x, r, haid, hlt, hle⟩)
    · exact ⟨x, r, haid, hlt, hle.trans (h₂.round_le x)⟩
    · exact ⟨x, r, haid, (h₁.round_le x).trans_lt hlt, hle⟩
  · rintro ⟨x, r, haid, hlt, hle⟩
    rcases le_or_gt r (s₁.state.node x).round with hr | hr
    · exact Or.inl ⟨x, r, haid, hlt, hr⟩
    · exact Or.inr ⟨x, r, haid, hr, hle⟩

/-- **The router is confluent.**  Two live activations whose emissions do not end the run, and
either take no loop or have disjoint footprints, may emit in either order: the states are equal up
to the snapshots of unavailable ports, and the same activations are issued. -/
theorem confluence (hval : validate proposer_model_error graph registry roles =
      { problems := [], topology := some t })
    {w : RouterState} (hw : ReachableState t w) {e₁ e₂ : Emitted} {l₁ l₂ : LiveActivation}
    {edges₁ edges₂ : List String} (h₁ : Emits w e₁ l₁) (h₂ : Emits w e₂ l₂)
    (hne : e₁.activationId ≠ e₂.activationId)
    (hp₁ : (t.outPortsOf l₁.nodeId)[e₁.port]? = some edges₁)
    (hp₂ : (t.outPortsOf l₂.nodeId)[e₂.port]? = some edges₂)
    (hgo₁ : ∀ s, advance t w (.emitted e₁) = .ok s → s.outcome.isTerminal = false)
    (hgo₂ : ∀ s, advance t w (.emitted e₂) = .ok s → s.outcome.isTerminal = false)
    (hapart : Apart t l₁.nodeId l₂.nodeId edges₁ edges₂) :
    ∃ s₁ s₁₂ s₂ s₂₁, advance t w (.emitted e₁) = .ok s₁ ∧
      advance t s₁.state (.emitted e₂) = .ok s₁₂ ∧ advance t w (.emitted e₂) = .ok s₂ ∧
      advance t s₂.state (.emitted e₁) = .ok s₂₁ ∧
      s₁₂.state.forgetSnapshots = s₂₁.state.forgetSnapshots ∧
      ∀ aid, issuedIds s₁ s₁₂ aid ↔ issuedIds s₂ s₂₁ aid := by
  have hlegal := legal_of_report hval
  have hinv := inv_of_reachableState hlegal hw
  have hnodes : l₁.nodeId ≠ l₂.nodeId := by
    intro heq
    refine hne ?_
    rw [(hinv.consistent.emitter h₁).1, (hinv.consistent.emitter h₂).1, heq]
  have hport₁ := not_terminal_of_advance hinv h₁ hp₁ hgo₁
  have hport₂ := not_terminal_of_advance hinv h₂ hp₂ hgo₂
  obtain ⟨s₁, s₁₂, cleared₁, cleared₂, ha₁, ha₁₂, hm₁, hm₁₂, hi₁₂, hboth₁₂⟩ :=
    exists_both hlegal hinv h₁ h₂ hne hnodes hp₁ hp₂ hport₁ hport₂ hapart
  obtain ⟨s₂, s₂₁, cleared₂', cleared₁', ha₂, ha₂₁, hm₂, hm₂₁, hi₂₁, hboth₂₁⟩ :=
    exists_both hlegal hinv h₂ h₁ hne.symm hnodes.symm hp₂ hp₁ hport₂ hport₁ hapart.symm
  obtain ⟨-, rfl⟩ := hm₁.footprint.unique hm₂₁.footprint
  obtain ⟨-, rfl⟩ := hm₂.footprint.unique hm₁₂.footprint
  have hsame := hboth₁₂.unique hlegal (hboth₂₁.symm hnodes.symm
    (hm₂.footprint.disjoint hlegal hm₁.footprint hnodes.symm)) hi₁₂ hi₂₁ hm₁₂.not_terminal
    hm₂₁.not_terminal
  have hforget : s₁₂.state.forgetSnapshots.nodes = s₂₁.state.forgetSnapshots.nodes := by rw [hsame]
  have hnode : ∀ x, s₁₂.state.node x = s₂₁.state.node x := fun x => by
    rw [RouterState.node, RouterState.node]
    exact congrArg (fun d : Dict NodeState => d.getD x {}) hforget
  refine ⟨s₁, s₁₂, s₂, s₂₁, ha₁, ha₁₂, ha₂, ha₂₁, hsame, fun aid => ?_⟩
  rw [hm₁.mem_issued_twice hm₁₂, hm₂.mem_issued_twice hm₂₁]
  simp only [hnode]

/-- Both workers of the small graph are running. -/
def sampleWorkers : Step :=
  ((scripted sampleTopology (sampleScript.take 1)).get (by decide +kernel)).2

theorem confluence_sample : ∃ s₁ s₁₂ s₂ s₂₁,
    advance sampleTopology sampleWorkers.state (.emitted ⟨"left#1", "ok", "l"⟩) = .ok s₁ ∧
      advance sampleTopology s₁.state (.emitted ⟨"right#1", "ok", "r"⟩) = .ok s₁₂ ∧
      advance sampleTopology sampleWorkers.state (.emitted ⟨"right#1", "ok", "r"⟩) = .ok s₂ ∧
      advance sampleTopology s₂.state (.emitted ⟨"left#1", "ok", "l"⟩) = .ok s₂₁ ∧
      s₁₂.state.forgetSnapshots = s₂₁.state.forgetSnapshots ∧
      ∀ aid, issuedIds s₁ s₁₂ aid ↔ issuedIds s₂ s₂₁ aid := by
  have hreach : ReachableState sampleTopology sampleWorkers.state :=
    ⟨sampleWorkers, ⟨_, run_scripted (Option.some_get _).symm⟩, rfl⟩
  have hgo : ∀ e ∈ [(⟨"left#1", "ok", "l"⟩ : Emitted), ⟨"right#1", "ok", "r"⟩], ∀ s,
      advance sampleTopology sampleWorkers.state (.emitted e) = .ok s →
        s.outcome.isTerminal = false := by
    intro e he s hs
    have hrun : ∀ e ∈ [(⟨"left#1", "ok", "l"⟩ : Emitted), ⟨"right#1", "ok", "r"⟩],
        ((advance sampleTopology sampleWorkers.state (.emitted e)).toOption.map fun s =>
          s.outcome.isTerminal) = some false := by decide +kernel
    have := hrun e he
    rw [hs] at this
    exact Option.some.inj this
  have hleft : Emits sampleWorkers.state ⟨"left#1", "ok", "l"⟩ ⟨"left#1", "left", ∅⟩ :=
    ⟨by decide +kernel, by decide +kernel⟩
  have hright : Emits sampleWorkers.state ⟨"right#1", "ok", "r"⟩ ⟨"right#1", "right", ∅⟩ :=
    ⟨by decide +kernel, by decide +kernel⟩
  have hports : (sampleTopology.outPortsOf "left")["ok"]? = some ["left.ok->join.left"] ∧
      (sampleTopology.outPortsOf "right")["ok"]? = some ["right.ok->join.right"] := by
    decide +kernel
  refine confluence validate_sampleGraph hreach hleft hright (by decide) hports.1 hports.2
    (hgo _ (by decide)) (hgo _ (by decide)) (Or.inl ?_)
  rintro eid (h | h) <;> rw [List.mem_singleton.mp h] <;> decide +kernel

end GraphRouter

end Kroker
