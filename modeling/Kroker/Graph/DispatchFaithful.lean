import Kroker.Graph.DispatchSafety

/-!
# The dispatcher is faithful to its router

`dispatch_faithful` reads the invariant of `Graph.DispatchSafety` for a dispatcher that is built the
way the workflow builds it: its topology is the one the validator handed out for its graph, and
every node type of the graph has a handler.  Nothing is assumed about the handlers, nor about the
order in which they begin, return, fail or obey a cancellation.
-/

namespace Kroker

open GraphRouter

namespace Dispatcher

variable {π : Type} {D : DispatchConfig} {d d' : Dispatcher π}
  {log : List (Transition (Dispatcher π) (DispatchEvent π))}

/-! ## 1. Every activation has a handler -/

theorem hasHandler_of_validate {proposer_model_error : String → String → Option String}
    {roles : Dict RoleConfig}
    (hval : validate proposer_model_error D.graph D.registry roles =
      { problems := [], topology := some D.topology })
    (hhandlers : ∀ n ∈ D.graph.nodes, n.type ∈ D.handlers) :
    ∀ n ∈ D.topology.nodeIds, D.hasHandler n = true := by
  have hclean : D.graph.Clean D.registry := clean_of_validate (by rw [hval])
  obtain ⟨-, hbuilt⟩ := built_of_validate (congrArg ValidationReport.topology hval)
  intro n hn
  rw [hbuilt] at hn
  obtain ⟨node, hnode⟩ := (Dict.mem_iff_get? _ _).mp (Std.ExtTreeMap.mem_keys.mp hn)
  obtain ⟨hmem, hid⟩ := id_of_firstNodes hnode
  have hfst : ((D.graph.nodes.map fun n => (n.id, n)).map Prod.fst).Nodup := by
    rw [List.map_map]
    exact hclean.ids_nodup
  have hget : D.nodes[n]? = some node := by
    rw [DispatchConfig.nodes, Dict.get?_ofItems_of_nodup hfst]
    exact List.mem_map.mpr ⟨node, hmem, by rw [hid]⟩
  rw [DispatchConfig.hasHandler, hget]
  simp [hclean.typed n node hnode, hhandlers node hmem]

/-! ## 2. What the invariant says of one event -/

theorem Faithful.storePayload_kept (hlegal : D.topology.Legal) (h : Faithful D log d)
    (hunraised : d.Unraised) {event : DispatchEvent π} {aid : String} {r : NodeResult π}
    (hhand : AtHand d event aid) {ref : String} {p : StoredPayload π}
    (hp : d.payloads[ref]? = some p) : (d.storePayload aid r).payloads[ref]? = some p := by
  obtain ⟨hlive, -⟩ := h.atHand hhand d
  obtain ⟨-, hdot⟩ := issued_of_live hlegal (h.ledger.inv hlegal) hlive
  have hne : refOf aid r.port ≠ ref := by
    rintro rfl
    exact not_spent_of_live hdot hlive _
      (h.spent hunraised _ ((Dict.mem_iff_get? _ _).mpr ⟨p, hp⟩))
  rw [storePayload, Dict.get?_insert_of_ne _ _ hne]
  exact hp

/-- **No event changes a payload that is stored.** -/
theorem Faithful.payloads_kept (hlegal : D.topology.Legal) (h : Faithful D log d)
    {event : DispatchEvent π} (hhappens : Happens D d event d') {ref : String}
    {p : StoredPayload π} (hp : d.payloads[ref]? = some p) : d'.payloads[ref]? = some p := by
  cases hhappens with
  | begun aid task spawned created => exact hp
  | finished aid outcome task spawned running => exact hp
  | round _ _ hbegin allBegun unraised round =>
    cases round with
    | idle same spawned pending =>
      rw [same.payloads]
      exact hp
    | halted step halt advanced stepEq calls payloads spawned pending =>
      rw [payloads]
      exact hp
    | refused aid r hand step calls spawned payloads message phase =>
      rw [payloads]
      exact h.storePayload_kept hlegal unraised hand hp
    | emitted aid r step hand advanced stepEq calls payloads spawned phase =>
      rw [payloads]
      exact h.storePayload_kept hlegal unraised hand hp

/-- **An activation that was issued has been started once, or is about to be**: then nothing but the
tasks goes on. -/
theorem Faithful.started (h : Faithful D log d) {a : Activation}
    (ha : a ∈ issuedBy D.topology d.calls) :
    starts a.activationId log = 1 ∨ starts a.activationId log = 0 ∧ ¬IsOver d.phase ∧
      d.allBegun = false ∧ (next D d (.begin a.activationId)).isSome = true := by
  obtain ⟨life, hlife⟩ := h.tasks.complete a ha
  rw [h.begun, startsOf, hlife]
  dsimp only
  by_cases hcreated : life = .created
  · have hnot : d.allBegun = false := by
      rw [Bool.eq_false_iff]
      exact fun hall => (allBegun_iff d).mp hall _ _ hlife hcreated
    refine Or.inr ⟨if_pos hcreated, fun hover => ?_, hnot, ?_⟩
    · rw [h.ended hover] at hnot
      cases hnot
    · rw [next, hlife]
      dsimp only
      rw [if_pos hcreated]
      rfl
  · exact Or.inl (if_neg hcreated)

/-- **A handler begins with the activation the router issued, and finds its inputs stored.** -/
theorem Faithful.begins_with (h : Faithful D log d) {aid : String}
    (hnext : next D d (.begin aid) = some d') : ∃ a ∈ issuedBy D.topology d.calls,
      a.activationId = aid ∧ (∃ life, d.spawned[aid]? = some ⟨a, life⟩) ∧
        ∀ ref ∈ a.refs, ref ∈ d.payloads := by
  rw [next] at hnext
  split at hnext
  · rename_i task htask
    obtain ⟨hissued, hid⟩ := h.tasks.sound aid task htask
    exact ⟨task.activation, hissued, hid, ⟨task.life, htask⟩, h.ledger.inputs _ hissued⟩
  · cases hnext

/-! ## 3. The whole run -/

/-- **The dispatcher is faithful to its router**, in every run: its calls are a run of the router;
each activation issued has its handler started exactly once, with every ref it names stored by
then; no event changes a stored payload; and what the router is advanced with is of an activation
that was live when its result was collected, and still is. -/
theorem dispatch_faithful {proposer_model_error : String → String → Option String}
    {roles : Dict RoleConfig}
    (hval : validate proposer_model_error D.graph D.registry roles =
      { problems := [], topology := some D.topology })
    (hhandlers : ∀ n ∈ D.graph.nodes, n.type ∈ D.handlers) (run : DispatchRun D log d) :
    (RouterRun D.topology d.calls d.step ∧
      ((issuedBy D.topology d.calls).map fun a => a.activationId).Nodup) ∧
    (∀ a ∈ issuedBy D.topology d.calls,
      starts a.activationId log = 1 ∨ starts a.activationId log = 0 ∧ ¬IsOver d.phase ∧
        d.allBegun = false ∧ (next D d (.begin a.activationId)).isSome = true) ∧
    (∀ x ∈ log, ∀ aid, x.event = .begin aid →
      ∃ a ∈ issuedBy D.topology x.before.calls, a.activationId = aid ∧
        (∃ life, x.before.spawned[aid]? = some ⟨a, life⟩) ∧
          ∀ ref ∈ a.refs, ref ∈ x.before.payloads) ∧
    (∀ x ∈ log, ∀ (ref : String) (p : StoredPayload π), x.before.payloads[ref]? = some p →
      x.after.payloads[ref]? = some p) ∧
    ∀ c ∈ d.calls, ∀ e, c.event = .emitted e → e.activationId ∈ c.before.state.live ∧
      CollectedIn log e.activationId c.before := by
  have hlegal := legal_of_report hval
  have hexec := hasHandler_of_validate hval hhandlers
  have hfaithful := faithful_of_run hexec hlegal run
  -- the run up to a transition is faithful as well
  have hbefore : ∀ x ∈ log, next D x.before x.event = some x.after ∧
      ∃ earlier, Faithful D earlier x.before := by
    intro x hx
    obtain ⟨later, earlier, rfl⟩ := List.append_of_mem hx
    obtain ⟨hrun, hnext⟩ := run.of_append
    exact ⟨hnext, earlier, faithful_of_run hexec hlegal hrun⟩
  refine ⟨⟨hfaithful.ledger.run, hfaithful.ledger.nodup⟩, fun a ha => hfaithful.started ha,
    fun x hx aid hevent => ?_, fun x hx ref p hp => ?_, fun c hc e he => ?_⟩
  · obtain ⟨hnext, earlier, hearlier⟩ := hbefore x hx
    rw [hevent] at hnext
    exact hearlier.begins_with hnext
  · obtain ⟨hnext, earlier, hearlier⟩ := hbefore x hx
    exact hearlier.payloads_kept hlegal
      (happens_of_next hexec hlegal (hearlier.ledger.inv hlegal) hnext) hp
  · have hcollected := hfaithful.calls c hc e he
    refine ⟨?_, hcollected⟩
    obtain ⟨x, -, ⟨-, -, hlive⟩, hstep⟩ := hcollected
    rw [isLive, hstep] at hlive
    exact of_decide_eq_true hlive

/-- A dispatcher of the small graph. -/
def sampleDispatch : DispatchConfig where
  topology := sampleTopology
  graph := sampleGraph
  registry := sampleRegistry
  handlers := (∅ : StrSet).insertMany ["plan", "work", "join"]
  budgetAfter := fun _ => .none

/-- The right worker returns before the left one, and the join sends the left one back. -/
def sampleEvents : List (DispatchEvent String) :=
  [.begin "plan#1", .finish "plan#1" (.returned { port := "ok" }), .wake,
    .begin "right#1", .begin "left#1", .finish "right#1" (.returned { port := "ok" }), .wake,
    .finish "left#1" (.returned { port := "ok", payload := some (.model "draft") }), .wake,
    .begin "join#1", .finish "join#1" (.returned { port := "again" }), .wake, .begin "left#2"]

def sampleRun : List (Transition (Dispatcher String) (DispatchEvent String)) × Dispatcher String :=
  (runScript (next sampleDispatch) ([], initial String sampleDispatch) sampleEvents).get
    (by decide +kernel)

theorem run_sampleRun : DispatchRun sampleDispatch sampleRun.1 sampleRun.2 :=
  Run.start.of_runScript (Option.some_get _).symm

theorem dispatch_faithful_sample :
    (∀ c ∈ sampleRun.2.calls, ∀ e, c.event = .emitted e →
      e.activationId ∈ c.before.state.live ∧ CollectedIn sampleRun.1 e.activationId c.before) ∧
    sampleRun.2.payloads.keys = ["join#1.again", "left#1.ok", "plan#1.ok", "right#1.ok"] ∧
    (issuedBy sampleTopology sampleRun.2.calls).map (fun a => (a.activationId, a.refs)) =
      [("left#2", ["plan#1.ok", "join#1.again"]), ("join#1", ["left#1.ok", "right#1.ok"]),
        ("left#1", ["plan#1.ok"]), ("right#1", ["plan#1.ok"]), ("plan#1", [])] ∧
    starts "left#1" sampleRun.1 = 1 ∧ starts "left#2" sampleRun.1 = 1 :=
  ⟨(dispatch_faithful (D := sampleDispatch) validate_sampleGraph (by decide +kernel)
      run_sampleRun).2.2.2.2,
    by decide +kernel, by decide +kernel, by decide +kernel, by decide +kernel⟩

end Dispatcher

end Kroker
