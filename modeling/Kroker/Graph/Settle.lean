import Kroker.Graph.Legal
import Kroker.Graph.Router

/-!
# What settling does

`settle` marks dead nodes until nothing changes and then issues every ready node.  Deadness only
grows while nodes are marked, and issuing changes neither deadness nor readiness, so the result can
be read off the final state: a node that was pending is dead there exactly when it is dead *by the
final state's own account*, and otherwise runs exactly when it is ready by that account
(`Settled.settled`).  Nothing else changes: slots, counters and nodes that were not pending stay as
they were.

This local description is all that the rest of the development uses of `settle`.
-/

namespace Kroker

namespace RouterState

@[simp] theorem node_setNode (w : RouterState) (n : String) (ns : NodeState) (m : String) :
    (w.setNode n ns).node m = if n = m then ns else w.node m :=
  Dict.getD_insert _ _ _ _ _

theorem mem_nodes_setNode (w : RouterState) (n : String) (ns : NodeState) (m : String) :
    m ∈ (w.setNode n ns).nodes ↔ n = m ∨ m ∈ w.nodes :=
  Dict.mem_insert _ _ _ _

end RouterState

namespace GraphRouter

variable {t : Topology}

/-! ## 1. Deadness and readiness are local

Whether a node is dead or ready depends on its forward in-edges only: on which of them are dead and
on which of their slots are filled. -/

variable {w : RouterState}

theorem edgeDead_iff {eid : String} {k : EdgeKey} (hk : t.edges[eid]? = some k) :
    edgeDead t w eid = true ↔
      (w.node k.source).status = .dead ∨
        ((w.node k.source).status = .done ∧ (w.node k.source).takenPort ≠ some k.sourcePort) := by
  rw [edgeDead, Topology.endpoints_of_get? hk]
  simp

/-- The source of the edge has finished, one way or the other. -/
def Resolved (w : RouterState) (n : String) : Prop :=
  (w.node n).status = .done ∨ (w.node n).status = .dead

theorem resolved_of_edgeDead {eid : String} {k : EdgeKey} (hk : t.edges[eid]? = some k)
    (h : edgeDead t w eid = true) : Resolved w k.source := by
  rcases (edgeDead_iff hk).mp h with h | h
  · exact Or.inr h
  · exact Or.inl h.1

theorem portState_dead_iff (w : RouterState) (wiring : PortWiring) :
    portState t w wiring = .dead ↔ ∀ e ∈ wiring.forwardEdges, edgeDead t w e = true := by
  unfold portState
  split
  · next h => exact ⟨fun _ => List.all_eq_true.mp h, fun _ => rfl⟩
  · next h =>
    rw [List.all_eq_true] at h
    refine ⟨fun hdead => ?_, fun hall => absurd hall h⟩
    exfalso
    split at hdead <;> split at hdead <;> cases hdead

theorem portState_filled_iff (w : RouterState) (wiring : PortWiring) :
    portState t w wiring = .filled ↔ (∃ e ∈ wiring.forwardEdges, edgeDead t w e = false) ∧
      (∃ e ∈ wiring.forwardEdges, e ∈ w.slots) ∧
      (wiring.multiplicity = .many →
        ∀ e ∈ wiring.forwardEdges, e ∈ w.slots ∨ edgeDead t w e = true) := by
  have hnot : (¬wiring.forwardEdges.all (edgeDead t w) = true) ↔
      ∃ e ∈ wiring.forwardEdges, edgeDead t w e = false := by
    rw [Bool.not_eq_true, List.all_eq_false]
    simp
  unfold portState
  split
  · next h =>
    refine ⟨fun hd => PortState.noConfusion hd, fun hf => ?_⟩
    exact absurd h (hnot.mpr hf.1)
  · next h =>
    cases hm : wiring.multiplicity with
    | one =>
      have hany : (wiring.forwardEdges.any (· ∈ w.slots)) = true ↔
          ∃ e ∈ wiring.forwardEdges, e ∈ w.slots := by simp
      simp only [hany]
      split
      · next hs => exact ⟨fun _ => ⟨hnot.mp h, hs, nofun⟩, fun _ => rfl⟩
      · next hs => exact ⟨fun he => PortState.noConfusion he, fun hf => absurd hf.2.1 hs⟩
    | many =>
      have hcond : (wiring.forwardEdges.all (fun e => e ∈ w.slots || edgeDead t w e) &&
          wiring.forwardEdges.any (· ∈ w.slots)) = true ↔
            (∀ e ∈ wiring.forwardEdges, e ∈ w.slots ∨ edgeDead t w e = true) ∧
              ∃ e ∈ wiring.forwardEdges, e ∈ w.slots := by simp
      simp only [hcond]
      split
      · next hs => exact ⟨fun _ => ⟨hnot.mp h, hs.2, fun _ => hs.1⟩, fun _ => rfl⟩
      · next hs =>
        exact ⟨fun he => PortState.noConfusion he, fun hf => absurd ⟨hf.2.2 trivial, hf.2.1⟩ hs⟩

/-- The in-port takes part in deadness and readiness: it has a forward edge. -/
def Fed (t : Topology) (n p : String) (wiring : PortWiring) : Prop :=
  (t.inPortsOf n)[p]? = some wiring ∧ wiring.forwardEdges ≠ []

variable {n : String}

theorem mem_fedPortStates {x : PortWiring × PortState} :
    x ∈ fedPortStates t w n ↔ ∃ p, Fed t n p x.1 ∧ x.2 = portState t w x.1 := by
  rw [fedPortStates, List.mem_map]
  constructor
  · rintro ⟨⟨p, wiring⟩, hmem, rfl⟩
    obtain ⟨hin, hfed⟩ := List.mem_filter.mp hmem
    exact ⟨p, ⟨Std.ExtTreeMap.mem_toList_iff_getElem?_eq_some.mp hin, by simpa using hfed⟩, rfl⟩
  · rintro ⟨p, ⟨hin, hfed⟩, hstate⟩
    refine ⟨(p, x.1), List.mem_filter.mpr ⟨?_, by simpa using hfed⟩, ?_⟩
    · exact Std.ExtTreeMap.mem_toList_iff_getElem?_eq_some.mpr hin
    · rw [← hstate]

/-- **When a node is dead**: a required port is, or every port is. -/
theorem isDead_iff :
    isDead t w n = true ↔ (∃ p wiring, Fed t n p wiring) ∧
      ((∃ p wiring, Fed t n p wiring ∧ wiring.required = true ∧ portState t w wiring = .dead) ∨
        ∀ p wiring, Fed t n p wiring → portState t w wiring = .dead) := by
  have hfed : fedPortStates t w n ≠ [] ↔ ∃ p wiring, Fed t n p wiring := by
    constructor
    · intro hne
      obtain ⟨x, hx⟩ := List.exists_mem_of_ne_nil _ hne
      obtain ⟨p, hp, -⟩ := mem_fedPortStates.mp hx
      exact ⟨p, x.1, hp⟩
    · rintro ⟨p, wiring, hp⟩
      have hmem : (wiring, portState t w wiring) ∈ fedPortStates t w n :=
        mem_fedPortStates.mpr ⟨p, hp, rfl⟩
      exact List.ne_nil_of_mem hmem
  have hreq : ((fedPortStates t w n).any fun s => s.1.required && s.2 = .dead) = true ↔
      ∃ p wiring, Fed t n p wiring ∧ wiring.required = true ∧ portState t w wiring = .dead := by
    rw [List.any_eq_true]
    constructor
    · rintro ⟨x, hx, hd⟩
      obtain ⟨p, hp, hs⟩ := mem_fedPortStates.mp hx
      rw [Bool.and_eq_true, decide_eq_true_eq] at hd
      exact ⟨p, x.1, hp, hd.1, hs ▸ hd.2⟩
    · rintro ⟨p, wiring, hp, hr, hd⟩
      refine ⟨(wiring, portState t w wiring), mem_fedPortStates.mpr ⟨p, hp, rfl⟩, ?_⟩
      rw [Bool.and_eq_true, decide_eq_true_eq]
      exact ⟨hr, hd⟩
  have hall : ((fedPortStates t w n).all fun s => s.2 = .dead) = true ↔
      ∀ p wiring, Fed t n p wiring → portState t w wiring = .dead := by
    rw [List.all_eq_true]
    constructor
    · intro h p wiring hp
      have := h (wiring, portState t w wiring) (mem_fedPortStates.mpr ⟨p, hp, rfl⟩)
      exact of_decide_eq_true this
    · intro h x hx
      obtain ⟨p, hp, hs⟩ := mem_fedPortStates.mp hx
      rw [decide_eq_true_eq, hs]
      exact h p x.1 hp
  unfold isDead
  dsimp only
  split
  · next hnil =>
    refine ⟨nofun, fun h => ?_⟩
    exact absurd hnil (hfed.mpr h.1)
  · next hne =>
    split
    · next hr => exact ⟨fun _ => ⟨hfed.mp hne, Or.inl (hreq.mp hr)⟩, fun _ => rfl⟩
    · next hr =>
      rw [hall]
      refine ⟨fun h => ⟨hfed.mp hne, Or.inr h⟩, fun h => ?_⟩
      exact h.2.resolve_left fun h' => hr (hreq.mpr h')

/-- **When a node is ready**: its required ports are filled and its optional ones decided. -/
theorem isReady_iff :
    isReady t w n = true ↔ ∀ p wiring, Fed t n p wiring → portState t w wiring = .filled ∨
      (wiring.required = false ∧ portState t w wiring = .dead) := by
  unfold isReady
  rw [List.all_eq_true]
  constructor
  · intro h p wiring hp
    have hs := h (wiring, portState t w wiring) (mem_fedPortStates.mpr ⟨p, hp, rfl⟩)
    dsimp only at hs
    cases hr : wiring.required with
    | true =>
      rw [hr, if_pos rfl, decide_eq_true_eq] at hs
      exact Or.inl hs
    | false =>
      rw [hr, if_neg Bool.false_ne_true, Bool.or_eq_true, decide_eq_true_eq,
        decide_eq_true_eq] at hs
      exact hs.imp_right fun hd => ⟨rfl, hd⟩
  · intro h x hx
    obtain ⟨p, hp, hs⟩ := mem_fedPortStates.mp hx
    rw [hs]
    rcases h p x.1 hp with hf | ⟨hr, hd⟩
    · rw [hf]
      split <;> rfl
    · rw [hr, hd]
      rfl

def AgreeInto (t : Topology) (w w' : RouterState) (n : String) : Prop :=
  ∀ eid k, t.IsForward eid k → k.target = n →
    edgeDead t w eid = edgeDead t w' eid ∧ (eid ∈ w.slots ↔ eid ∈ w'.slots)

variable {w' : RouterState}

theorem AgreeInto.symm (h : AgreeInto t w w' n) :
    AgreeInto t w' w n := fun eid k hk hn => ⟨(h eid k hk hn).1.symm, (h eid k hk hn).2.symm⟩

theorem portState_of_agree (hlegal : t.Legal) {p : String} {wiring : PortWiring}
    (hp : Fed t n p wiring) (h : AgreeInto t w w' n) :
    (portState t w' wiring = .dead → portState t w wiring = .dead) ∧
      (portState t w' wiring = .filled → portState t w wiring = .filled) := by
  have hedge : ∀ e ∈ wiring.forwardEdges,
      edgeDead t w e = edgeDead t w' e ∧ (e ∈ w.slots ↔ e ∈ w'.slots) := by
    intro e he
    obtain ⟨k, hk, hn, -⟩ := ((hlegal.inPort n p wiring hp.1).mem_forwardEdges e).mp he
    exact h e k hk hn
  rw [portState_dead_iff, portState_dead_iff, portState_filled_iff, portState_filled_iff]
  constructor
  · exact fun hs e he => (hedge e he).1.trans (hs e he)
  · rintro ⟨⟨e, he, hd⟩, ⟨e', he', hf⟩, hmany⟩
    refine ⟨⟨e, he, (hedge e he).1.trans hd⟩, ⟨e', he', (hedge e' he').2.mpr hf⟩,
      fun hm x hx => ?_⟩
    exact (hmany hm x hx).imp (hedge x hx).2.mpr fun hd => (hedge x hx).1.trans hd

theorem portState_congr (hlegal : t.Legal) {p : String} {wiring : PortWiring}
    (hp : Fed t n p wiring) (h : AgreeInto t w w' n) :
    portState t w wiring = portState t w' wiring := by
  obtain ⟨hdead, hfilled⟩ := portState_of_agree hlegal hp h
  obtain ⟨hdead', hfilled'⟩ := portState_of_agree hlegal hp h.symm
  cases hs : portState t w' wiring with
  | dead => exact hdead hs
  | filled => exact hfilled hs
  | empty =>
    cases hw : portState t w wiring with
    | dead => exact (hs.symm.trans (hdead' hw)).symm
    | filled => exact (hs.symm.trans (hfilled' hw)).symm
    | empty => rfl

/-- **Locality of deadness.** -/
theorem isDead_congr (hlegal : t.Legal) (h : AgreeInto t w w' n) :
    isDead t w n = isDead t w' n := by
  rw [Bool.eq_iff_iff, isDead_iff, isDead_iff]
  refine and_congr_right fun _ => or_congr ?_ ?_
  · refine exists_congr fun p => exists_congr fun wiring => and_congr_right fun hp => ?_
    rw [portState_congr hlegal hp h]
  · refine forall_congr' fun p => forall_congr' fun wiring => imp_congr_right fun hp => ?_
    rw [portState_congr hlegal hp h]

/-- **Locality of readiness.** -/
theorem isReady_congr (hlegal : t.Legal) (h : AgreeInto t w w' n) :
    isReady t w n = isReady t w' n := by
  rw [Bool.eq_iff_iff, isReady_iff, isReady_iff]
  refine forall_congr' fun p => forall_congr' fun wiring => imp_congr_right fun hp => ?_
  rw [portState_congr hlegal hp h]

/-- **Deadness only grows** when edges die. -/
theorem isDead_mono (hlegal : t.Legal)
    (h : ∀ eid k, t.IsForward eid k → k.target = n → edgeDead t w eid = true →
      edgeDead t w' eid = true) (hd : isDead t w n = true) : isDead t w' n = true := by
  have hport : ∀ p wiring, Fed t n p wiring → portState t w wiring = .dead →
      portState t w' wiring = .dead := by
    intro p wiring hp hs
    rw [portState_dead_iff] at hs ⊢
    intro e he
    obtain ⟨k, hk, hn, -⟩ := ((hlegal.inPort n p wiring hp.1).mem_forwardEdges e).mp he
    exact h e k hk hn (hs e he)
  rw [isDead_iff] at hd ⊢
  refine ⟨hd.1, hd.2.imp ?_ ?_⟩
  · rintro ⟨p, wiring, hp, hr, hs⟩
    exact ⟨p, wiring, hp, hr, hport p wiring hp hs⟩
  · exact fun hall p wiring hp => hport p wiring hp (hall p wiring hp)

/-! ## 2. Phase A: marking dead nodes -/

/-- `w'` arises from `w` by marking pending nodes that are dead, still dead in `w'`. -/
structure Marked (t : Topology) (w w' : RouterState) : Prop where
  frame : w' = { w with nodes := w'.nodes }
  keys : ∀ n, n ∈ w'.nodes ↔ n ∈ w.nodes
  node : ∀ n, w'.node n = w.node n ∨ ((w.node n).status = .pending ∧
    w'.node n = { round := (w.node n).round, status := .dead } ∧ isDead t w' n = true)

theorem Marked.refl (w : RouterState) : Marked t w w := ⟨rfl, fun _ => Iff.rfl, fun _ => Or.inl rfl⟩

theorem edgeDead_setNode_dead {eid : String} (h : edgeDead t w eid = true) :
    edgeDead t (w.setNode n { round := (w.node n).round, status := .dead }) eid = true := by
  unfold edgeDead at h ⊢
  rw [RouterState.node_setNode]
  split
  · rfl
  · exact h

theorem Marked.mark (hlegal : t.Legal) (h : Marked t w w') (hmem : n ∈ w.nodes)
    (hn : (w'.node n).status = .pending) (hd : isDead t w' n = true) :
    Marked t w (w'.setNode n { round := (w'.node n).round, status := .dead }) := by
  have hmono : ∀ m, isDead t w' m = true →
      isDead t (w'.setNode n { round := (w'.node n).round, status := .dead }) m = true := fun m =>
    isDead_mono hlegal fun eid k _ _ => edgeDead_setNode_dead
  refine ⟨?_, fun m => ?_, fun m => ?_⟩
  · rw [RouterState.setNode, h.frame]
  · rw [RouterState.mem_nodes_setNode, h.keys]
    exact ⟨fun hm => hm.elim (fun heq => heq ▸ hmem) id, Or.inr⟩
  · rw [RouterState.node_setNode]
    split
    · next heq =>
      subst heq
      right
      rcases h.node n with hsame | ⟨hp, hdead, -⟩
      · rw [← hsame]
        exact ⟨hn, rfl, hmono n hd⟩
      · rw [hdead] at hn
        cases hn
    · rcases h.node m with hsame | ⟨hp, hdead, hm⟩
      · exact Or.inl hsame
      · exact Or.inr ⟨hp, hdead, hmono m hm⟩

def pendingCount (t : Topology) (w : RouterState) : ℕ :=
  (t.nodeIds.toFinset.filter fun n => (w.node n).status = .pending).card

theorem pendingCount_setNode_lt (hmem : n ∈ t.nodeIds) (hn : (w.node n).status = .pending) :
    pendingCount t (w.setNode n { round := (w.node n).round, status := .dead }) <
      pendingCount t w := by
  refine Finset.card_lt_card (Finset.ssubset_iff_of_subset ?_ |>.mpr ⟨n, ?_, ?_⟩)
  · intro m hm
    rw [Finset.mem_filter, RouterState.node_setNode] at hm
    rw [Finset.mem_filter]
    refine ⟨hm.1, ?_⟩
    have hp := hm.2
    split at hp
    · cases hp
    · exact hp
  · exact Finset.mem_filter.mpr ⟨List.mem_toFinset.mpr hmem, hn⟩
  · rw [Finset.mem_filter, RouterState.node_setNode, if_pos rfl]
    exact fun h => NodeStatus.noConfusion h.2

theorem markDead_pass (hlegal : t.Legal) (ns : List String)
    (hns : ∀ n ∈ ns, n ∈ t.nodeIds ∧ n ∈ w.nodes) {p : RouterState × Bool} (h : Marked t w p.1) :
    Marked t w (ns.foldl (markDead t) p).1 ∧
      ((ns.foldl (markDead t) p = p ∧
          ∀ n ∈ ns, (p.1.node n).status = .pending → isDead t p.1 n = false) ∨
        ((ns.foldl (markDead t) p).2 = true ∧
          pendingCount t (ns.foldl (markDead t) p).1 < pendingCount t p.1)) := by
  induction ns generalizing p with
  | nil => exact ⟨h, Or.inl ⟨rfl, nofun⟩⟩
  | cons n ns ih =>
    have hns' : ∀ m ∈ ns, m ∈ t.nodeIds ∧ m ∈ w.nodes := fun m hm =>
      hns m (List.mem_cons_of_mem _ hm)
    obtain ⟨hid, hmem⟩ := hns n List.mem_cons_self
    rw [List.foldl_cons]
    let marked := p.1.setNode n { round := (p.1.node n).round, status := .dead }
    by_cases hcond : (p.1.node n).status = .pending ∧ isDead t p.1 n = true
    · have hstep : markDead t p n = (marked, true) := by
        rw [markDead, if_pos (by rw [Bool.and_eq_true, decide_eq_true_eq]; exact hcond)]
      have hlt : pendingCount t marked < pendingCount t p.1 := pendingCount_setNode_lt hid hcond.1
      have hmarked : Marked t w marked := h.mark hlegal hmem hcond.1 hcond.2
      rw [hstep]
      obtain ⟨hmark, hrest⟩ := ih hns' (p := (marked, true)) hmarked
      refine ⟨hmark, Or.inr ?_⟩
      rcases hrest with ⟨hsame, -⟩ | ⟨htrue, hlt'⟩
      · rw [hsame]
        exact ⟨rfl, hlt⟩
      · exact ⟨htrue, hlt'.trans hlt⟩
    · have hstep : markDead t p n = p := by
        rw [markDead, if_neg (by rw [Bool.and_eq_true, decide_eq_true_eq]; exact hcond)]
      rw [hstep]
      obtain ⟨hmark, hrest⟩ := ih hns' h
      refine ⟨hmark, hrest.imp_left fun hs => ⟨hs.1, fun m hm hp => ?_⟩⟩
      rcases List.mem_cons.mp hm with rfl | hm
      · exact Bool.eq_false_iff.mpr fun hd => hcond ⟨hp, hd⟩
      · exact hs.2 m hm hp

/-- **Phase A reaches its fixpoint**: afterwards no pending node is dead. -/
theorem marked_settleDead (hlegal : t.Legal) (hkeys : ∀ n, n ∈ w.nodes ↔ n ∈ t.nodeIds) (fuel : ℕ)
    (h : Marked t w w') (hfuel : pendingCount t w' < fuel) :
    Marked t w (settleDead t fuel w') ∧ ∀ n ∈ t.nodeIds,
      ((settleDead t fuel w').node n).status = .pending →
        isDead t (settleDead t fuel w') n = false := by
  induction fuel generalizing w' with
  | zero => exact absurd hfuel (Nat.not_lt_zero _)
  | succ fuel ih =>
    obtain ⟨hmark, hpass⟩ := markDead_pass hlegal t.nodeIds
      (fun n hn => ⟨hn, (hkeys n).mpr hn⟩) (p := (w', false)) h
    rw [settleDead]
    dsimp only at hpass ⊢
    split
    · next htrue =>
      refine ih hmark ?_
      rcases hpass with ⟨hsame, -⟩ | ⟨-, hlt⟩
      · rw [hsame] at htrue
        cases htrue
      · omega
    · next hfalse =>
      refine ⟨hmark, ?_⟩
      rcases hpass with ⟨hsame, hall⟩ | ⟨htrue, -⟩
      · rw [hsame]
        exact hall
      · exact absurd htrue hfalse

theorem pendingCount_le (t : Topology) (w : RouterState) :
    pendingCount t w ≤ t.nodeIds.length :=
  (Finset.card_filter_le _ _).trans (List.toFinset_card_le _)

/-! ## 3. Phase B: issuing ready nodes -/

/-- No `one` port of any node holds two tokens. -/
def NoOverfull (t : Topology) (w : RouterState) : Prop :=
  ∀ (n p : String) (wiring : PortWiring), (t.inPortsOf n)[p]? = some wiring →
    overfull (slotPayload w) wiring = false

theorem inputs_of_noOverfull (h : NoOverfull t w) (n : String) :
    inputs t w n = some (portInputs t (slotPayload w) n) := by
  unfold inputs
  rw [if_neg]
  rw [Bool.not_eq_true, List.any_eq_false]
  rintro ⟨p, wiring⟩ hmem
  rw [h n p wiring (Std.ExtTreeMap.mem_toList_iff_getElem?_eq_some.mp hmem)]
  exact Bool.false_ne_true

def readyNow (t : Topology) (w : RouterState) (n : String) : Bool :=
  (w.node n).status = .pending && isReady t w n

theorem collectReady_eq (h : NoOverfull t w) (ns : List String) :
    collectReady t w ns = .ok ((ns.filter (readyNow t w)).map fun n =>
      (n, portInputs t (slotPayload w) n)) := by
  induction ns with
  | nil => rfl
  | cons n ns ih =>
    rw [collectReady, List.filter_cons]
    by_cases hr : readyNow t w n = true
    · have hr' := hr
      unfold readyNow at hr'
      rw [if_pos hr', if_pos hr, inputs_of_noOverfull h, ih]
      rfl
    · have hr' := hr
      unfold readyNow at hr'
      rw [if_neg hr', if_neg hr, ih]

theorem unavailable_congr (htrav : w.traversals = w'.traversals)
    (hdead : ∀ n, (w.node n).status = .dead ↔ (w'.node n).status = .dead) (n : String) :
    unavailable t w n = unavailable t w' n := by
  have ht : ∀ eid, w.traversed eid = w'.traversed eid := fun eid => by
    rw [RouterState.traversed, htrav, RouterState.traversed]
  unfold unavailable
  simp only [ht, hdead]

structure Issued (t : Topology) (names : List String) (w w' : RouterState) : Prop where
  frame : w' = { w with nodes := w'.nodes, live := w'.live }
  keys : (∀ n ∈ names, n ∈ w.nodes) → ∀ n, n ∈ w'.nodes ↔ n ∈ w.nodes
  node : ∀ n, w'.node n =
    if n ∈ names then { round := (w.node n).round + 1, status := .running } else w.node n
  live_issued : ∀ n ∈ names, w'.live[gateKey n ((w.node n).round + 1)]? =
    some { activationId := gateKey n ((w.node n).round + 1), nodeId := n,
           unavailablePorts := unavailable t w n }
  live_other : ∀ aid, (∀ n ∈ names, aid ≠ gateKey n ((w.node n).round + 1)) →
    w'.live[aid]? = w.live[aid]?

def activationOf (t : Topology) (w : RouterState) (content : String → Option String)
    (n : String) : Activation where
  activationId := gateKey n ((w.node n).round + 1)
  nodeId := n
  round := (w.node n).round + 1
  inputs := portInputs t content n
  unavailablePorts := unavailable t w n

theorem issued_issueAll (content : String → Option String) (names : List String)
    (hnodup : names.Nodup) (hpending : ∀ n ∈ names, (w.node n).status = .pending) :
    Issued t names w (issueAll t w (names.map fun n => (n, portInputs t content n))).1 ∧
      (issueAll t w (names.map fun n => (n, portInputs t content n))).2 =
        names.map (activationOf t w content) := by
  induction names generalizing w with
  | nil =>
    refine ⟨⟨rfl, fun _ _ => Iff.rfl, fun n => ?_, ?_, fun _ _ => rfl⟩, rfl⟩
    · rw [if_neg List.not_mem_nil]
      rfl
    · exact nofun
  | cons m names ih =>
    obtain ⟨hm, hnodup'⟩ := List.nodup_cons.mp hnodup
    have hne : ∀ n ∈ names, m ≠ n := fun n hn heq => hm (heq ▸ hn)
    -- the state after the first node has been issued
    generalize hw₁ : (issue t w m (portInputs t content m)).1 = w₁
    have hnode₁ : ∀ n, w₁.node n =
        if m = n then { round := (w.node m).round + 1, status := .running } else w.node n := by
      intro n
      rw [← hw₁]
      exact RouterState.node_setNode w m _ n
    have hsame : ∀ n ∈ names, w₁.node n = w.node n := fun n hn => by
      rw [hnode₁, if_neg (hne n hn)]
    have hunavailable : ∀ n, unavailable t w₁ n = unavailable t w n := by
      refine unavailable_congr (by rw [← hw₁]; rfl) fun n => ?_
      rw [hnode₁]
      split
      · next heq =>
        rw [← heq, hpending m List.mem_cons_self]
        exact ⟨nofun, nofun⟩
      · rfl
    have hlive₁ : ∀ aid, w₁.live[aid]? = if gateKey m ((w.node m).round + 1) = aid then
        some { activationId := gateKey m ((w.node m).round + 1), nodeId := m,
               unavailablePorts := unavailable t w m } else w.live[aid]? := by
      intro aid
      rw [← hw₁]
      exact Dict.get?_insert _ _ _ _
    have hkeys₁ : ∀ n, n ∈ w₁.nodes ↔ m = n ∨ n ∈ w.nodes := by
      intro n
      rw [← hw₁]
      exact RouterState.mem_nodes_setNode w m _ n
    have hframe₁ : w₁ = { w with nodes := w₁.nodes, live := w₁.live } := by
      rw [← hw₁]
      rfl
    obtain ⟨hissued, hacts⟩ := ih hnodup' (w := w₁) fun n hn => by
      rw [hsame n hn]
      exact hpending n (List.mem_cons_of_mem _ hn)
    have hround : ∀ n ∈ names, (w₁.node n).round = (w.node n).round := fun n hn => by
      rw [hsame n hn]
    rw [List.map_cons, issueAll, hw₁]
    refine ⟨⟨?_, fun hin n => ?_, fun n => ?_, fun n hn => ?_, fun aid hother => ?_⟩, ?_⟩
    · rw [hissued.frame, hframe₁]
    · have hin₁ : ∀ n ∈ names, n ∈ w₁.nodes := fun n hn =>
        (hkeys₁ n).mpr (Or.inr (hin n (List.mem_cons_of_mem _ hn)))
      rw [hissued.keys hin₁, hkeys₁]
      exact ⟨fun h => h.elim (fun heq => heq ▸ hin m List.mem_cons_self) id, Or.inr⟩
    · rw [hissued.node]
      by_cases hn : n ∈ names
      · rw [if_pos hn, if_pos (List.mem_cons_of_mem _ hn), hround n hn]
      · rw [if_neg hn, hnode₁]
        by_cases hmn : m = n
        · rw [if_pos hmn, if_pos (hmn ▸ List.mem_cons_self), hmn]
        · rw [if_neg hmn, if_neg]
          rw [List.mem_cons, not_or]
          exact ⟨fun h => hmn h.symm, hn⟩
    · rcases List.mem_cons.mp hn with rfl | hn
      · rw [hissued.live_other, hlive₁, if_pos rfl]
        intro x hx heq
        exact hm ((gateKey_inj.mp heq).1 ▸ hx)
      · have := hissued.live_issued n hn
        rw [hround n hn, hunavailable n] at this
        exact this
    · rw [hissued.live_other, hlive₁, if_neg]
      · exact fun heq => hother m List.mem_cons_self heq.symm
      · intro n hn
        rw [hround n hn]
        exact hother n (List.mem_cons_of_mem _ hn)
    · rw [List.map_cons, hacts]
      refine congrArg₂ List.cons rfl (List.map_congr_left fun n hn => ?_)
      rw [activationOf, hround n hn, hunavailable n, activationOf]

/-! ## 4. The settled state -/

/-- What becomes of a pending node: dead or running by the account of the state `w`, else pending
still. -/
def settledNode (t : Topology) (w : RouterState) (n : String) (ns : NodeState) : NodeState :=
  if isDead t w n then { round := ns.round, status := .dead }
  else if isReady t w n then { round := ns.round + 1, status := .running }
  else ns

/-- The node is issued by the step from `w` to `w'`. -/
def IssuedIn (t : Topology) (w w' : RouterState) (n : String) : Prop :=
  n ∈ t.nodeIds ∧ (w.node n).status = .pending ∧ (w'.node n).status = .running

/-- **What settling does**, read off the state it leaves. -/
structure Settled (t : Topology) (w : RouterState) (cancelled : List String) (s : Step) :
    Prop where
  slots : s.state.slots = w.slots
  traversals : s.state.traversals = w.traversals
  retired : s.state.retired = w.retired
  emissions : s.state.emissions =
    w.emissions.insertionSort fun a b => a.activationId ≤ b.activationId
  dropped : s.state.dropped = w.dropped.insertionSort fun a b => a.sortKey ≤ b.sortKey
  keys : ∀ n, n ∈ s.state.nodes ↔ n ∈ w.nodes
  active : ∀ n, (w.node n).status ≠ .pending → s.state.node n = w.node n
  pending : ∀ n ∈ t.nodeIds, (w.node n).status = .pending →
    s.state.node n = settledNode t s.state n (w.node n)
  live_issued : ∀ n, IssuedIn t w s.state n →
    s.state.live[gateKey n (s.state.node n).round]? =
      some { activationId := gateKey n (s.state.node n).round, nodeId := n,
             unavailablePorts := unavailable t s.state n }
  live_other : ∀ aid, (∀ n, IssuedIn t w s.state n → aid ≠ gateKey n (s.state.node n).round) →
    s.state.live[aid]? = w.live[aid]?
  activations : ∀ a, a ∈ s.activations ↔ ∃ n, IssuedIn t w s.state n ∧
    a = { activationId := gateKey n (s.state.node n).round, nodeId := n,
          round := (s.state.node n).round, inputs := portInputs t (slotPayload s.state) n,
          unavailablePorts := unavailable t s.state n }
  cancelled_eq : s.cancelled = cancelled.insertionSort (· ≤ ·)
  outcome : s.state.outcome = if s.state.live.isEmpty then .completed else .running
  reason : s.state.reason = none
  step_outcome : s.outcome = s.state.outcome
  step_reason : s.reason = none

theorem agreeInto_of_resolved_alike (hslots : w.slots = w'.slots)
    (hnode : ∀ n, w.node n = w'.node n ∨ (¬Resolved w n ∧ ¬Resolved w' n)) (n : String) :
    AgreeInto t w w' n := by
  intro eid k hk _
  refine ⟨?_, by rw [hslots]⟩
  rw [Bool.eq_iff_iff, edgeDead_iff hk.1, edgeDead_iff hk.1]
  rcases hnode k.source with hsame | ⟨h, h'⟩
  · rw [hsame]
  · constructor
    · rintro (hd | hd)
      · exact absurd (Or.inr hd) h
      · exact absurd (Or.inl hd.1) h
    · rintro (hd | hd)
      · exact absurd (Or.inr hd) h'
      · exact absurd (Or.inl hd.1) h'

theorem not_resolved_of_status (h : (w.node n).status = .pending ∨ (w.node n).status = .running) :
    ¬Resolved w n := by
  rintro (hd | hd) <;> rcases h with h | h <;> rw [hd] at h <;> cases h

theorem settled_settle (hlegal : t.Legal) (hkeys : ∀ n, n ∈ w.nodes ↔ n ∈ t.nodeIds)
    (hover : NoOverfull t w) (cancelled : List String) :
    Settled t w cancelled (settle t w cancelled) := by
  obtain ⟨hmarked, hfix⟩ := marked_settleDead hlegal hkeys (t.nodeIds.length + 1)
    (Marked.refl w) (Nat.lt_succ_of_le (pendingCount_le t w))
  unfold settle
  dsimp only
  generalize settleDead t (t.nodeIds.length + 1) w = a at hmarked hfix ⊢
  have hslots : a.slots = w.slots := by rw [hmarked.frame]
  have hover' : NoOverfull t a := by
    have hpay : slotPayload a = slotPayload w := by
      funext eid
      rw [slotPayload, hslots, slotPayload]
    intro n p wiring hp
    rw [hpay]
    exact hover n p wiring hp
  rw [collectReady_eq hover']
  dsimp only
  have hready : ∀ n, n ∈ t.nodeIds.filter (readyNow t a) ↔
      n ∈ t.nodeIds ∧ (a.node n).status = .pending ∧ isReady t a n = true := by
    intro n
    rw [List.mem_filter, readyNow, Bool.and_eq_true, decide_eq_true_eq]
  obtain ⟨hissued, hacts⟩ := issued_issueAll (t := t) (slotPayload a)
    (t.nodeIds.filter (readyNow t a)) (hlegal.nodup_nodeIds.filter _)
    (fun n hn => ((hready n).mp hn).2.1)
  generalize issueAll t a ((t.nodeIds.filter (readyNow t a)).map fun n =>
    (n, portInputs t (slotPayload a) n)) = b at hissued hacts ⊢
  generalize hs : (RouterState.freeze { b.1 with
    outcome := if b.1.live.isEmpty then .completed else .running, reason := none }) = s
  have hsnode : ∀ n, s.node n = b.1.node n := fun n => by rw [← hs]; rfl
  have hsslots : s.slots = a.slots := by rw [← hs, hissued.frame]; rfl
  have hslive : s.live = b.1.live := by rw [← hs]; rfl
  -- issuing touches neither done nor dead nodes, so the account of `a` is that of the final state
  have hagree : ∀ n, AgreeInto t s a n := by
    refine agreeInto_of_resolved_alike hsslots fun n => ?_
    rw [hsnode, hissued.node]
    split
    · next hn =>
      right
      refine ⟨not_resolved_of_status (Or.inr ?_), not_resolved_of_status (Or.inl ?_)⟩
      · rw [hsnode, hissued.node, if_pos hn]
      · exact ((hready n).mp hn).2.1
    · exact Or.inl rfl
  have hdead : ∀ n, isDead t s n = isDead t a n := fun n => isDead_congr hlegal (hagree n)
  have hisReady : ∀ n, isReady t s n = isReady t a n := fun n => isReady_congr hlegal (hagree n)
  have hpending : ∀ n ∈ t.nodeIds, (w.node n).status = .pending →
      s.node n = settledNode t s n (w.node n) ∧
        ((s.node n).status = .running ↔ n ∈ t.nodeIds.filter (readyNow t a)) := by
    intro n hn hp
    rw [settledNode, hdead, hisReady, hsnode, hissued.node]
    rcases hmarked.node n with hsame | ⟨-, hnode, hd⟩
    · have hnd : isDead t a n = false := hfix n hn (hsame ▸ hp)
      rw [hnd, if_neg Bool.false_ne_true, hsame]
      by_cases hr : isReady t a n = true
      · have hmem := (hready n).mpr ⟨hn, hsame ▸ hp, hr⟩
        rw [if_pos hmem, if_pos hr]
        exact ⟨rfl, fun _ => hmem, fun _ => rfl⟩
      · have hmem : n ∉ t.nodeIds.filter (readyNow t a) := fun h => hr ((hready n).mp h).2.2
        rw [if_neg hmem, if_neg hr]
        refine ⟨rfl, fun h => ?_, fun h => absurd h hmem⟩
        rw [hp] at h
        cases h
    · have hmem : n ∉ t.nodeIds.filter (readyNow t a) := by
        intro h
        have := ((hready n).mp h).2.1
        rw [hnode] at this
        cases this
      rw [if_neg hmem, hd, if_pos rfl, hnode]
      exact ⟨rfl, nofun, fun h => absurd h hmem⟩
  have hnames : ∀ n, n ∈ t.nodeIds.filter (readyNow t a) ↔ IssuedIn t w s n := by
    intro n
    constructor
    · intro hn
      obtain ⟨hid, hpa, -⟩ := (hready n).mp hn
      have hpw : (w.node n).status = .pending := by
        rcases hmarked.node n with hsame | ⟨hp, -, -⟩
        · rw [← hsame]
          exact hpa
        · exact hp
      exact ⟨hid, hpw, (hpending n hid hpw).2.mpr hn⟩
    · rintro ⟨hid, hpw, hrun⟩
      exact (hpending n hid hpw).2.mp hrun
  have hround : ∀ n ∈ t.nodeIds.filter (readyNow t a),
      gateKey n ((a.node n).round + 1) = gateKey n (s.node n).round := by
    intro n hn
    rw [hsnode, hissued.node, if_pos hn]
  have hunavailable : ∀ n, unavailable t s n = unavailable t a n := by
    refine unavailable_congr (by rw [← hs, hissued.frame]; rfl) fun n => ?_
    rw [hsnode, hissued.node]
    split
    · next hn =>
      rw [((hready n).mp hn).2.1]
      exact ⟨nofun, nofun⟩
    · rfl
  have hkeysa : ∀ n ∈ t.nodeIds.filter (readyNow t a), n ∈ a.nodes := fun n hn =>
    (hmarked.keys n).mpr ((hkeys n).mpr ((hready n).mp hn).1)
  refine ⟨hsslots.trans hslots, ?_, ?_, ?_, ?_, fun n => ?_, fun n hn => ?_,
    fun n hn hp => (hpending n hn hp).1, fun n hn => ?_, fun aid hother => ?_, fun x => ?_, rfl, ?_,
    ?_, ?_, rfl⟩
  · rw [← hs, hissued.frame, hmarked.frame]; rfl
  · rw [← hs, hissued.frame, hmarked.frame]; rfl
  · rw [← hs, hissued.frame, hmarked.frame]; rfl
  · rw [← hs, hissued.frame, hmarked.frame]; rfl
  · show n ∈ s.nodes ↔ n ∈ w.nodes
    have : s.nodes = b.1.nodes := by rw [← hs]; rfl
    rw [this, hissued.keys hkeysa, hmarked.keys]
  · have hsame : a.node n = w.node n := (hmarked.node n).resolve_right fun h => hn h.1
    rw [hsnode, hissued.node, if_neg, hsame]
    intro hmem
    rw [hnames] at hmem
    exact hn hmem.2.1
  · have hmem := (hnames n).mpr hn
    show s.live[gateKey n (s.node n).round]? =
      some (⟨gateKey n (s.node n).round, n, unavailable t s n⟩ : LiveActivation)
    rw [hslive, ← hround n hmem, hissued.live_issued n hmem, hunavailable]
  · rw [hslive, hissued.live_other]
    · rw [hmarked.frame]
    · intro n hn
      rw [hround n hn]
      exact hother n ((hnames n).mp hn)
  · show x ∈ b.2 ↔ _
    rw [hacts, List.mem_map]
    have hact : ∀ n ∈ t.nodeIds.filter (readyNow t a), activationOf t a (slotPayload a) n =
        { activationId := gateKey n (s.node n).round, nodeId := n, round := (s.node n).round,
          inputs := portInputs t (slotPayload s) n, unavailablePorts := unavailable t s n } := by
      intro n hn
      have hr : (a.node n).round + 1 = (s.node n).round := by
        rw [hsnode, hissued.node, if_pos hn]
      have hpay : slotPayload s = slotPayload a := by
        funext eid
        rw [slotPayload, hsslots, slotPayload]
      rw [activationOf, hr, hpay, hunavailable]
    constructor
    · rintro ⟨n, hn, rfl⟩
      exact ⟨n, (hnames n).mp hn, hact n hn⟩
    · rintro ⟨n, hn, rfl⟩
      exact ⟨n, (hnames n).mpr hn, hact n ((hnames n).mpr hn)⟩
  · rw [hslive, ← hs]; rfl
  · rw [← hs]; rfl
  · rw [← hs]; rfl

end GraphRouter

end Kroker
