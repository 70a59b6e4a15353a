import Kroker.Graph.RouterSafety

/-!
# Redelivered emissions

Delivery is at least once, so the router sees emissions of activations that a loop or the end of the
run has retired, and emissions it has applied already.  It drops both: nothing but the audit
`dropped` changes, and nothing is issued or cancelled.

The proof has two halves that do not meet before the end.  No function of the router reads the
audit, so `advance` on two states that differ in it only gives the same result on both
(`advance_redrop`).  And a reachable state accounts for every id it has issued, so a redelivery is
recognised as one and dropped (`advance_redelivery`).  `redelivery_harmless` runs a script and the
same script with redeliveries inserted side by side.
-/

namespace Kroker

def RouterState.redrop (w : RouterState) (dropped : List Dropped) : RouterState :=
  { w with dropped }

theorem RouterState.emissions_redrop (w : RouterState) (d : List Dropped) :
    (w.redrop d).emissions = w.emissions := rfl

theorem RouterState.live_redrop (w : RouterState) (d : List Dropped) :
    (w.redrop d).live = w.live := rfl

def Step.redrop (s : Step) (dropped : List Dropped) : Step :=
  { s with state := s.state.redrop dropped }

namespace GraphRouter

variable {t : Topology}

/-! ## 1. Nothing reads the audit -/

theorem markDead_redrop (w : RouterState) (noticed : Bool) (d : List Dropped) (n : String) :
    markDead t (w.redrop d, noticed) n =
      ((markDead t (w, noticed) n).1.redrop d, (markDead t (w, noticed) n).2) := by
  show (if (w.node n).status = .pending && isDead t w n then _ else _) = _
  unfold markDead
  dsimp only
  split <;> rfl

theorem foldl_markDead_redrop (ids : List String) (w : RouterState) (noticed : Bool)
    (d : List Dropped) : ids.foldl (markDead t) (w.redrop d, noticed) =
      ((ids.foldl (markDead t) (w, noticed)).1.redrop d,
        (ids.foldl (markDead t) (w, noticed)).2) := by
  induction ids generalizing w noticed with
  | nil => rfl
  | cons n ids ih =>
    rw [List.foldl_cons, List.foldl_cons, markDead_redrop, ih]

theorem settleDead_redrop (fuel : ℕ) (w : RouterState) (d : List Dropped) :
    settleDead t fuel (w.redrop d) = (settleDead t fuel w).redrop d := by
  induction fuel generalizing w with
  | zero => rfl
  | succ fuel ih =>
    rw [settleDead, settleDead, foldl_markDead_redrop]
    dsimp only
    split
    · exact ih _
    · rfl

theorem collectReady_redrop (w : RouterState) (d : List Dropped) (ids : List String) :
    collectReady t (w.redrop d) ids = collectReady t w ids := by
  induction ids with
  | nil => rfl
  | cons n ids ih =>
    rw [collectReady, collectReady, ih]
    rfl

theorem issueAll_redrop (w : RouterState) (d : List Dropped) (ready : List (String × Dict Input)) :
    issueAll t (w.redrop d) ready =
      ((issueAll t w ready).1.redrop d, (issueAll t w ready).2) := by
  induction ready generalizing w with
  | nil => rfl
  | cons p ready ih =>
    obtain ⟨n, i⟩ := p
    have hissue : issue t (w.redrop d) n i =
        ((issue t w n i).1.redrop d, (issue t w n i).2) := rfl
    rw [issueAll, issueAll, hissue, ih]

/-- The order the audit is frozen in. -/
def sortDropped (d : List Dropped) : List Dropped := d.insertionSort fun a b => a.sortKey ≤ b.sortKey

theorem settle_redrop (w : RouterState) (d : List Dropped) (cancelled : List String) :
    settle t (w.redrop d) cancelled = (settle t w cancelled).redrop (sortDropped d) := by
  unfold settle
  rw [settleDead_redrop]
  dsimp only
  rw [collectReady_redrop]
  cases collectReady t (settleDead t (t.nodeIds.length + 1) w) t.nodeIds with
  | error n => rfl
  | ok ready =>
    dsimp only
    rw [issueAll_redrop]
    rfl

theorem deliver_redrop (w : RouterState) (d : List Dropped) (token : Token) (edges : List String) :
    deliver t (w.redrop d) token edges = (deliver t w token edges).redrop (sortDropped d) := by
  induction edges generalizing w with
  | nil => exact settle_redrop w d []
  | cons eid edges ih =>
    rw [deliver, deliver]
    show (if eid ∈ w.slots then _ else _) = _
    split
    · rfl
    · exact ih { w with slots := w.slots.insert eid token }

theorem route_redrop (w : RouterState) (d : List Dropped) (nodeId : String) (event : Emitted)
    (edges : List String) :
    route t (w.redrop d) nodeId event edges =
      (route t w nodeId event edges).redrop (sortDropped d) := by
  cases edges with
  | nil =>
    rw [route, route]
    cases (t.terminalsOf nodeId)[event.port]? with
    | some kind => rfl
    | none => exact settle_redrop w d []
  | cons eid edges =>
    rw [route, route]
    split
    · exact settle_redrop (traverseBack t w eid ⟨event.payloadRef, event.activationId⟩) d _
    · exact deliver_redrop w d _ _

theorem notLive_redrop (w : RouterState) (d : List Dropped) (event : Emitted) :
    ∃ d', notLive (w.redrop d) event = (notLive w event).map (·.redrop d') := by
  unfold notLive
  show ∃ d', (if event.activationId ∈ w.retired then _ else _) = _
  split
  · exact ⟨sortDropped (d ++ [⟨event.activationId, event.port, _⟩]), rfl⟩
  · rw [RouterState.emissions_redrop]
    cases w.emissions.find? fun e => e.activationId = event.activationId with
    | none => exact ⟨d, rfl⟩
    | some applied =>
      dsimp only
      split
      · exact ⟨sortDropped (d ++ [⟨event.activationId, event.port, _⟩]), rfl⟩
      · exact ⟨d, rfl⟩

/-- **A call of `advance` gives the same result whatever the audit holds**, but for the audit. -/
theorem advance_redrop (w : RouterState) (d : List Dropped) (event : Event) :
    ∃ d', advance t (w.redrop d) event = (advance t w event).map (·.redrop d') := by
  cases event with
  | halt h =>
    rw [advance, advance]
    show ∃ d', (if w.outcome ≠ .running then _ else _) = _
    split
    · exact ⟨d, rfl⟩
    · exact ⟨sortDropped d, rfl⟩
  | emitted event =>
    rw [advance, advance]
    show ∃ d', (issuedNode w event.activationId).bind _ = _
    cases issuedNode w event.activationId with
    | error msg => exact ⟨d, rfl⟩
    | ok n =>
      show ∃ d', applyEmitted t (w.redrop d) event n = (applyEmitted t w event n).map _
      unfold applyEmitted
      cases (t.outPortsOf n)[event.port]? with
      | none => exact ⟨d, rfl⟩
      | some edges =>
        dsimp only
        rw [RouterState.live_redrop]
        cases w.live[event.activationId]? with
        | none => exact notLive_redrop w d event
        | some live =>
          dsimp only
          cases live.unavailablePorts[event.port]? with
          | some why => exact ⟨sortDropped d, rfl⟩
          | none =>
            exact ⟨sortDropped d, congrArg Except.ok (route_redrop (finish w n event) d n event edges)⟩

/-! ## 2. A redelivery is recognised -/

def IsRedelivery (t : Topology) (w : RouterState) (e : Emitted) : Prop :=
  e.activationId ∈ w.retired ∧ e.port ∈ t.outPortsOf (nodeOf e.activationId) ∨
    ⟨e.activationId, e.port, e.payloadRef⟩ ∈ w.emissions

variable {w : RouterState}

/-- After a call the emissions are those of before and at most one more, of a live activation that
emits on a port of its node; and they are sorted. -/
theorem Advanced.emissions {event : Event} {s : Step} (h : Advanced t w event s) (hlegal : t.Legal)
    (hw : Inv t w) :
    ∃ l : List Emission, s.state.emissions =
        l.insertionSort (fun a b => a.activationId ≤ b.activationId) ∧
      ∀ x ∈ l, x ∈ w.emissions ∨ ∃ e l, Emits w e l ∧ e.port ∈ t.outPortsOf l.nodeId ∧
        x = ⟨e.activationId, e.port, e.payloadRef⟩ := by
  have hnew : ∀ {e : Emitted} {l : LiveActivation} {edges : List String}, Emits w e l →
      (t.outPortsOf l.nodeId)[e.port]? = some edges →
      ∀ x ∈ w.emissions ++ [⟨e.activationId, e.port, e.payloadRef⟩],
        x ∈ w.emissions ∨ ∃ e l, Emits w e l ∧ e.port ∈ t.outPortsOf l.nodeId ∧
          x = ⟨e.activationId, e.port, e.payloadRef⟩ := by
    intro e l edges hemits hport x hmem
    rw [List.mem_append, List.mem_singleton] at hmem
    rcases hmem with hmem | rfl
    · exact Or.inl hmem
    · exact Or.inr ⟨e, l, hemits, (Dict.mem_iff_get? _ _).mpr ⟨_, hport⟩, rfl⟩
  cases h with
  | halted x running => exact ⟨w.emissions, rfl, fun x hx => Or.inl hx⟩
  | late e reason notLive => exact ⟨w.emissions, rfl, fun x hx => Or.inl hx⟩
  | escalated e l why live unavailable => exact ⟨w.emissions, rfl, fun x hx => Or.inl hx⟩
  | ended e l kind emits port terminal => exact ⟨_, rfl, hnew emits port⟩
  | forwarded e l edges emits port forward =>
    obtain ⟨hc, -, -⟩ := hw.emits_delivered hlegal emits (mem_forward_port hlegal port forward)
    exact ⟨_, (settled_settle hlegal hc.keys (hc.noOverfull hlegal) []).emissions,
      hnew emits port⟩
  | traversed e l eid k emits port back source sourcePort =>
    obtain ⟨hc, -, -⟩ := hw.emits_delivered hlegal emits
      (no_forward_of_back_port hlegal port back.2)
    have htoken : nodeOf e.activationId = k.source := by
      rw [(hw.consistent.emitter emits).1, nodeOf_gateKey, source]
    have hc' : Consistent t (traverseBack t (delivered w l.nodeId e []) eid
        ⟨e.payloadRef, e.activationId⟩) := hc.traverseBack hlegal back htoken
      (hw.consistent.traversed_lt emits back source sourcePort)
    exact ⟨_, (settled_settle hlegal hc'.keys (hc'.noOverfull hlegal) _).emissions,
      hnew emits port⟩

structure Delivered (t : Topology) (w : RouterState) : Prop where
  sorted : w.emissions.Pairwise fun a b => a.activationId ≤ b.activationId
  port : ∀ x ∈ w.emissions, x.port ∈ t.outPortsOf (nodeOf x.activationId)

theorem delivered_of_reachableState (hlegal : t.Legal) (hw : ReachableState t w) :
    Delivered t w := by
  obtain ⟨s, hs, rfl⟩ := hw
  refine Reachable.induct (P := fun s : Step => Delivered t s.state) ?_ ?_ hs
  · have hstart := (settled_start hlegal).emissions
    refine ⟨hstart ▸ List.pairwise_insertionSort _ _, fun x hx => ?_⟩
    rw [hstart, List.mem_insertionSort] at hx
    exact nomatch hx
  · intro s event s' hs hrecorded hnext
    have hinv := inv_of_reachable hlegal hs
    have hadvanced := advanced_of_advance hlegal hinv.consistent (advance_of_next hnext)
    obtain ⟨l, hl, hmem⟩ := hadvanced.emissions hlegal hinv
    refine ⟨hl ▸ List.pairwise_insertionSort _ _, fun x hx => ?_⟩
    rw [hl, List.mem_insertionSort] at hx
    rcases hmem x hx with hx | ⟨e, l, hemits, hport, rfl⟩
    · exact hrecorded.port x hx
    · dsimp only
      rw [(hinv.consistent.emitter hemits).1, nodeOf_gateKey]
      exact hport

theorem advance_of_notLive {e : Emitted} {n : String} {r : ℕ} (hkeys : n ∈ w.nodes)
    (hid : e.activationId = gateKey n r) (h1 : 1 ≤ r) (hr : r ≤ (w.node n).round)
    (hport : e.port ∈ t.outPortsOf n) (hlive : e.activationId ∉ w.live) :
    advance t w (.emitted e) = notLive w e := by
  obtain ⟨edges, hedges⟩ := (Dict.mem_iff_get? _ _).mp hport
  have hissued : issuedNode w e.activationId = .ok n := hid ▸ issuedNode_ok hkeys h1 hr
  rw [advance, hissued]
  show applyEmitted t w e n = _
  rw [applyEmitted, hedges]
  dsimp only
  rw [(Dict.notMem_iff_get? _ _).mp hlive]

/-- **A redelivery is dropped.** -/
theorem advance_redelivery (hlegal : t.Legal) (hw : ReachableState t w) {e : Emitted}
    (he : IsRedelivery t w e) :
    ∃ reason, advance t w (.emitted e) = .ok (drop w e reason) := by
  have hinv := inv_of_reachableState hlegal hw
  rcases he with ⟨hretired, hport⟩ | hemitted
  · obtain ⟨hlive, n, hn, r, hid, h1, hr⟩ := hinv.accounted.retired _ hretired
    rw [hid, nodeOf_gateKey] at hport
    refine ⟨if w.outcome.isTerminal then .postTerminal else .stale, ?_⟩
    rw [advance_of_notLive ((hinv.consistent.keys n).mpr hn) hid h1 hr hport hlive, notLive,
      if_pos hretired]
  · obtain ⟨hlive, hretired, n, hn, r, hid, h1, hr⟩ := hinv.accounted.emitted _ hemitted
    have hport := (delivered_of_reachableState hlegal hw).port _ hemitted
    dsimp only at hid hlive hretired hport
    rw [hid, nodeOf_gateKey] at hport
    refine ⟨.duplicate, ?_⟩
    rw [advance_of_notLive ((hinv.consistent.keys n).mpr hn) hid h1 hr hport hlive, notLive,
      if_neg hretired]
    -- the applied emission is the only one of its id
    cases hfind : w.emissions.find? fun x => x.activationId = e.activationId with
    | none =>
      have := List.find?_eq_none.mp hfind _ hemitted
      exact absurd (decide_eq_true rfl) this
    | some applied =>
      have hmem := List.mem_of_find?_eq_some hfind
      have hsame := List.find?_some hfind
      rw [decide_eq_true_eq] at hsame
      have happlied := List.inj_on_of_nodup_map hinv.accounted.emitted_once hmem hemitted hsame
      subst happlied
      exact if_pos ⟨rfl, rfl⟩

/-! ## 3. Two scripts side by side -/

/-- The state after a call: one that raises changes nothing. -/
def after (t : Topology) (w : RouterState) (event : Event) : RouterState :=
  match advance t w event with
  | .ok s => s.state
  | .error _ => w

inductive Inserted (t : Topology) : RouterState → List Event → List Event → Prop
  | nil (w : RouterState) : Inserted t w [] []
  | event {w : RouterState} (e : Event) {script script' : List Event}
      (rest : Inserted t (after t w e) script script') : Inserted t w (e :: script) (e :: script')
  | redelivery {w : RouterState} (e : Emitted) {script script' : List Event}
      (redelivered : IsRedelivery t w e) (rest : Inserted t w script script') :
      Inserted t w script (.emitted e :: script')

/-- Two states that are equal in every field but `dropped`. -/
def SameButDropped (w w' : RouterState) : Prop := w'.redrop [] = w.redrop []

/-- Two calls that raise alike, or return the same step but for `dropped`. -/
def SameResult : Except String Step → Except String Step → Prop
  | .ok s, .ok s' => SameButDropped s.state s'.state ∧ s'.activations = s.activations ∧
      s'.cancelled = s.cancelled ∧ s'.outcome = s.outcome ∧ s'.reason = s.reason
  | .error msg, .error msg' => msg' = msg
  | _, _ => False

/-- The two scripts run side by side: states are equal but for `dropped` all along, an event has the
same result in both, and a redelivery returns a step that issues and cancels nothing. -/
inductive RunsAlike (t : Topology) : RouterState → RouterState → List Event → List Event → Prop
  | nil {w w' : RouterState} (same : SameButDropped w w') : RunsAlike t w w' [] []
  | event {w w' : RouterState} (e : Event) {script script' : List Event}
      (same : SameButDropped w w') (results : SameResult (advance t w e) (advance t w' e))
      (rest : RunsAlike t (after t w e) (after t w' e) script script') :
      RunsAlike t w w' (e :: script) (e :: script')
  | redelivery {w w' : RouterState} (e : Emitted) {script script' : List Event} (s : Step)
      (same : SameButDropped w w') (accepted : advance t w' (.emitted e) = .ok s)
      (activations : s.activations = []) (cancelled : s.cancelled = [])
      (outcome : s.outcome = w'.outcome) (reason : s.reason = w'.reason)
      (rest : RunsAlike t w s.state script script') :
      RunsAlike t w w' script (.emitted e :: script')

theorem SameButDropped.eq_redrop {w' : RouterState} (h : SameButDropped w w') :
    w' = w.redrop w'.dropped := by
  have hredrop : (w'.redrop []).redrop w'.dropped = (w.redrop []).redrop w'.dropped := by rw [h]
  exact hredrop

theorem SameButDropped.trans {a b c : RouterState} (hab : SameButDropped a b)
    (hbc : SameButDropped b c) : SameButDropped a c := Eq.trans hbc hab

theorem sameButDropped_redrop (w : RouterState) (d : List Dropped) :
    SameButDropped w (w.redrop d) := rfl

theorem SameButDropped.advance {w' : RouterState} (h : SameButDropped w w') (e : Event) :
    SameResult (advance t w e) (advance t w' e) ∧
      SameButDropped (after t w e) (after t w' e) := by
  rw [h.eq_redrop]
  obtain ⟨d, hd⟩ := advance_redrop (t := t) w w'.dropped e
  unfold after
  rw [hd]
  cases GraphRouter.advance t w e with
  | error msg => exact ⟨rfl, sameButDropped_redrop w _⟩
  | ok s => exact ⟨⟨sameButDropped_redrop s.state d, rfl, rfl, rfl, rfl⟩,
      sameButDropped_redrop s.state d⟩

theorem reachableState_after (hw : ReachableState t w) (e : Event) :
    ReachableState t (after t w e) := by
  unfold after
  cases hadv : advance t w e with
  | error msg => exact hw
  | ok s =>
    obtain ⟨s₀, hs₀, rfl⟩ := hw
    refine ⟨s, hs₀.step (e := e) ?_, rfl⟩
    rw [next, hadv]
    rfl

theorem runsAlike_of_inserted (hlegal : t.Legal) {script script' : List Event}
    (h : Inserted t w script script') (hw : ReachableState t w) {w' : RouterState}
    (hsame : SameButDropped w w') : RunsAlike t w w' script script' := by
  induction h generalizing w' with
  | nil w => exact .nil hsame
  | event e rest ih =>
    exact .event e hsame (hsame.advance e).1 (ih (reachableState_after hw e) (hsame.advance e).2)
  | @redelivery w e script script' redelivered rest ih =>
    obtain ⟨reason, hdrop⟩ := advance_redelivery hlegal hw redelivered
    have hresult := (hsame.advance (t := t) (.emitted e)).1
    rw [hdrop] at hresult
    cases hadv : advance t w' (.emitted e) with
    | error msg =>
      rw [hadv] at hresult
      exact hresult.elim
    | ok s =>
      rw [hadv] at hresult
      obtain ⟨hstate, hactivations, hcancelled, houtcome, hreason⟩ := hresult
      -- a reachable state's emissions are sorted already, so freezing leaves them alone
      have hfrozen : SameButDropped w (drop w e reason).state := by
        show ({ w with
          emissions := w.emissions.insertionSort fun a b => a.activationId ≤ b.activationId
          dropped := [] } : RouterState) = { w with dropped := [] }
        rw [(delivered_of_reachableState hlegal hw).sorted.insertionSort_eq]
      have hw' := hsame.eq_redrop
      refine .redelivery e s hsame hadv hactivations hcancelled ?_ ?_
        (ih hw (SameButDropped.trans hfrozen hstate))
      · rw [houtcome, hw']
        rfl
      · rw [hreason, hw']
        rfl

variable {proposer_model_error : String → String → Option String} {graph : PipelineGraph}
  {registry : Registry} {roles : Dict RoleConfig}

/-- **Redelivery is harmless.**  With any redeliveries put into any script of events, the two runs
keep their states equal in every field but `dropped`, each event of the script has the same result,
and a redelivery issues and cancels nothing. -/
theorem redelivery_harmless (hval : validate proposer_model_error graph registry roles =
      { problems := [], topology := some t })
    {script script' : List Event} (h : Inserted t (start t).state script script') :
    RunsAlike t (start t).state (start t).state script script' :=
  runsAlike_of_inserted (legal_of_report hval) h ⟨start t, .start, rfl⟩ rfl

/-- A run that is stopped after two emissions.  The first is delivered twice at once; after the stop
come a late emission of an activation that the stop has retired, and the second emission again. -/
def redeliveredScript : List Event :=
  [.emitted ⟨"plan#1", "ok", "p"⟩, .emitted ⟨"plan#1", "ok", "p"⟩, .emitted ⟨"left#1", "ok", "l"⟩,
    .halt ⟨.failed, "budget"⟩, .emitted ⟨"right#1", "ok", "late"⟩, .emitted ⟨"left#1", "ok", "l"⟩]

instance (t : Topology) (w : RouterState) (e : Emitted) : Decidable (IsRedelivery t w e) :=
  inferInstanceAs (Decidable (_ ∧ _ ∨ _))

theorem redelivery_harmless_sample :
    RunsAlike sampleTopology (start sampleTopology).state (start sampleTopology).state
      [.emitted ⟨"plan#1", "ok", "p"⟩, .emitted ⟨"left#1", "ok", "l"⟩, .halt ⟨.failed, "budget"⟩]
      redeliveredScript := by
  exact redelivery_harmless validate_sampleGraph (.event _ (.redelivery _ (by decide +kernel)
    (.event _ (.event _ (.redelivery _ (by decide +kernel) (.redelivery _ (by decide +kernel)
      (.nil _)))))))

end GraphRouter

end Kroker
