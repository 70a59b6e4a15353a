import Kroker.Graph.Dispatch
import Kroker.Graph.Issue

/-!
# What a dispatcher does with the activations of its router

A run of the dispatcher interleaves the coroutine with any number of handlers.  `happens_of_next`
says once what an event can do: a task begins, a task finishes, or the coroutine plays a round
(`Round`), which leaves the router alone, halts it, or stores one payload and advances it with one
emission.

`Faithful` is the invariant that every event keeps (`faithful_of_run`).  A payload that is stored is
of an activation that is over (`Spent`), and ids are never issued again, so what a round stores is
new; and every ref that is issued is of an emission that was applied, so it is stored by then
(`Ledger`).
-/

namespace Kroker

open GraphRouter

namespace Dispatcher

variable {π : Type} {D : DispatchConfig} {d d' : Dispatcher π}

/-! ## 1. Starting what is held -/

def startAll (d : Dispatcher π) (held : List Activation) : Dispatcher π := held.foldl startTask d

/-- The wait the loop enters. -/
def loopPhase (π : Type) (s : Step) : DispatchPhase π :=
  if s.state.outcome = .running then .collecting else .draining

/-- A change of the tasks only. -/
structure SameRouter (d d' : Dispatcher π) : Prop where
  step : d'.step = d.step
  calls : d'.calls = d.calls
  payloads : d'.payloads = d.payloads

theorem SameRouter.refl (d : Dispatcher π) : SameRouter d d := ⟨rfl, rfl, rfl⟩

theorem SameRouter.trans {d'' : Dispatcher π} (h : SameRouter d d') (h' : SameRouter d' d'') :
    SameRouter d d'' :=
  ⟨h'.step.trans h.step, h'.calls.trans h.calls, h'.payloads.trans h.payloads⟩

theorem sameRouter_startAll (held : List Activation) (d : Dispatcher π) :
    SameRouter d (d.startAll held) := by
  induction held generalizing d with
  | nil => exact SameRouter.refl d
  | cons a held ih =>
    have hfirst : SameRouter d (d.startTask a) := ⟨rfl, rfl, rfl⟩
    exact hfirst.trans (ih (d.startTask a))

variable {held : List Activation}

theorem enter_eq (h : ∀ a ∈ held, D.hasHandler a.nodeId = true) (d : Dispatcher π) :
    enter D d held = { d.startAll held with phase := loopPhase π d.step } := by
  induction held generalizing d with
  | nil => rfl
  | cons a held ih =>
    rw [enter, if_pos (h a List.mem_cons_self),
      ih (fun b hb => h b (List.mem_cons_of_mem _ hb))]
    rfl

variable {aid : String}

theorem spawned_startAll_of_ne (h : ∀ a ∈ held, a.activationId ≠ aid) (d : Dispatcher π) :
    (d.startAll held).spawned[aid]? = d.spawned[aid]? := by
  induction held generalizing d with
  | nil => rfl
  | cons a held ih =>
    refine (ih (fun b hb => h b (List.mem_cons_of_mem _ hb)) (d.startTask a)).trans ?_
    exact Dict.get?_insert_of_ne _ _ (h a List.mem_cons_self)

theorem spawned_startAll_of_mem (hnodup : (held.map (·.activationId)).Nodup) {a : Activation}
    (ha : a ∈ held) (d : Dispatcher π) :
    (d.startAll held).spawned[a.activationId]? = some ⟨a, .created⟩ := by
  induction held generalizing d with
  | nil => exact nomatch ha
  | cons b held ih =>
    rw [List.map_cons, List.nodup_cons] at hnodup
    rcases List.mem_cons.mp ha with rfl | ha
    · refine (spawned_startAll_of_ne (fun c hc heq => ?_) (d.startTask a)).trans
        (Dict.get?_insert_self _ _ _)
      exact hnodup.1 (heq ▸ List.mem_map_of_mem hc)
    · exact ih hnodup.2 ha (d.startTask b)

theorem spawned_startAll_congr {d e : Dispatcher π} (h : e.spawned = d.spawned)
    (held : List Activation) : (e.startAll held).spawned = (d.startAll held).spawned := by
  induction held generalizing d e with
  | nil => exact h
  | cons a held ih => exact ih (congrArg (·.insert a.activationId ⟨a, .created⟩) h)

theorem recordResult_frame (d : Dispatcher π) (r : NodeResult π) (edges : List String)
    (outcome : Outcome) : SameRouter d (d.recordResult r edges outcome) ∧
      (d.recordResult r edges outcome).spawned = d.spawned := by
  unfold recordResult
  split
  · exact ⟨SameRouter.refl d, rfl⟩
  · split
    · exact ⟨⟨rfl, rfl, rfl⟩, rfl⟩
    · split
      · exact ⟨⟨rfl, rfl, rfl⟩, rfl⟩
      · exact ⟨SameRouter.refl d, rfl⟩

/-! ## 2. The rounds of the coroutine -/

/-- The activation whose result the coroutine has at hand while it waits. -/
def pendingIn : DispatchPhase π → Option String
  | .quiescing aid _ | .checking aid _ | .finalizing aid _ => some aid
  | _ => none

def Collects (d : Dispatcher π) (event : DispatchEvent π) (aid : String) : Prop :=
  (match event with | .wake => True | _ => False) ∧ (∃ outcome results,
    d.results = (aid, outcome) :: results) ∧ d.isLive aid = true

/-- The coroutine has the result of the activation at hand: it waits with it, or takes it now. -/
def AtHand (d : Dispatcher π) (event : DispatchEvent π) (aid : String) : Prop :=
  pendingIn d.phase = some aid ∨ Collects d event aid

/-- **What the coroutine does between two waits.** -/
inductive Round (D : DispatchConfig) (d : Dispatcher π) (event : DispatchEvent π) :
    Dispatcher π → Prop
  /-- The router is left alone. -/
  | idle (d' : Dispatcher π) (same : SameRouter d d') (spawned : d'.spawned = d.spawned)
      (pending : ∀ aid, pendingIn d'.phase = some aid → AtHand d event aid) : Round D d event d'
  /-- The budget check has refused, and the router is halted. -/
  | halted (d' : Dispatcher π) (step : Step) (halt : Halt)
      (advanced : advance D.topology d.step.state (.halt halt) = .ok step)
      (stepEq : d'.step = step) (calls : d'.calls = ⟨d.step, .halt halt, step⟩ :: d.calls)
      (payloads : d'.payloads = d.payloads) (spawned : d'.spawned = d.spawned)
      (pending : pendingIn d'.phase = none) : Round D d event d'
  /-- A payload is stored and the router refuses its emission. -/
  | refused (d' : Dispatcher π) (aid : String) (r : NodeResult π) (hand : AtHand d event aid)
      (step : d'.step = d.step) (calls : d'.calls = d.calls) (spawned : d'.spawned = d.spawned)
      (payloads : d'.payloads = (d.storePayload aid r).payloads) (message : String)
      (phase : d'.phase = .raised message) : Round D d event d'
  /-- A payload is stored, the router is advanced, and what it issues is started. -/
  | emitted (d' : Dispatcher π) (aid : String) (r : NodeResult π) (step : Step)
      (hand : AtHand d event aid)
      (advanced : advance D.topology d.step.state
        (.emitted ⟨aid, r.port, refOf aid r.port⟩) = .ok step)
      (stepEq : d'.step = step)
      (calls : d'.calls = ⟨d.step, .emitted ⟨aid, r.port, refOf aid r.port⟩, step⟩ :: d.calls)
      (payloads : d'.payloads = (d.storePayload aid r).payloads)
      (spawned : d'.spawned = (d.startAll step.activations).spawned)
      (phase : d'.phase = loopPhase π step) : Round D d event d'

section Rounds

variable {event : DispatchEvent π} {e : Dispatcher π}

theorem pendingIn_loopPhase (s : Step) : pendingIn (loopPhase π s) = none := by
  unfold loopPhase
  split <;> rfl

theorem round_of_phase (hsame : SameRouter d e) (hspawned : e.spawned = d.spawned)
    {phase : DispatchPhase π} (hphase : ∀ aid, pendingIn phase = some aid → AtHand d event aid) :
    Round D d event { e with phase := phase } :=
  .idle _ ⟨hsame.step, hsame.calls, hsame.payloads⟩ hspawned hphase

theorem round_haltBudget (hsame : SameRouter d e) (hspawned : e.spawned = d.spawned) :
    Round D d event (e.haltBudget D) := by
  unfold haltBudget
  cases hadvance : advance D.topology e.step.state (.halt ⟨.rejected, "budget"⟩) with
  | error message => exact round_of_phase hsame hspawned fun aid h => nomatch h
  | ok step =>
    rw [hsame.step] at hadvance
    refine .halted _ step _ hadvance rfl ?_ hsame.payloads hspawned ?_
    · show ⟨e.step, _, step⟩ :: e.calls = _
      rw [hsame.step, hsame.calls]
    · exact pendingIn_loopPhase step

theorem hasHandler_of_advance (hexec : ∀ n ∈ D.topology.nodeIds, D.hasHandler n = true)
    (hlegal : D.topology.Legal) {w : RouterState} (hw : Inv D.topology w) {ev : Event} {step : Step}
    (h : advance D.topology w ev = .ok step) :
    ∀ a ∈ step.activations, D.hasHandler a.nodeId = true := fun a ha =>
  hexec _ (((advanced_of_advance hlegal hw.consistent h).issues hlegal hw).1.nodeIds a ha)

variable (hexec : ∀ n ∈ D.topology.nodeIds, D.hasHandler n = true) (hlegal : D.topology.Legal)
  (hinv : Inv D.topology d.step.state)

include hexec hlegal hinv

theorem round_emit (hsame : SameRouter d e) (hspawned : e.spawned = d.spawned) {aid : String}
    (hhand : AtHand d event aid) (r : NodeResult π) : Round D d event (e.emit D aid r) := by
  have hpayloads : (e.storePayload aid r).payloads = (d.storePayload aid r).payloads := by
    show e.payloads.insert _ _ = d.payloads.insert _ _
    rw [hsame.payloads]
  unfold emit
  dsimp only
  split
  · exact .refused _ aid r hhand hsame.step hsame.calls hspawned hpayloads _ rfl
  · split
    · exact .refused _ aid r hhand hsame.step hsame.calls hspawned hpayloads _ rfl
    · rename_i step hadvance
      rw [hsame.step] at hadvance
      rw [enter_eq (hasHandler_of_advance hexec hlegal hinv hadvance)]
      generalize hx : ({ e.storePayload aid r with escalatedBy := _ } : Dispatcher π) = x
      have hxsame : SameRouter (e.storePayload aid r) x ∧ x.spawned = e.spawned := by
        rw [← hx]
        exact ⟨⟨rfl, rfl, rfl⟩, rfl⟩
      obtain ⟨hrecord, hrecorded⟩ := recordResult_frame
        (x.applyStep (.emitted ⟨aid, r.port, refOf aid r.port⟩) step) r
        ((D.topology.outPortsOf (nodeOf aid)).getD r.port []) step.outcome
      have hall := hrecord.trans (sameRouter_startAll step.activations _)
      refine .emitted _ aid r step hhand hadvance hall.step ?_ ?_ ?_
        (congrArg (loopPhase π) hrecord.step)
      · refine hall.calls.trans ?_
        show ⟨x.step, _, step⟩ :: x.calls = _
        rw [hxsame.1.step, hxsame.1.calls]
        show ⟨e.step, _, step⟩ :: e.calls = _
        rw [hsame.step, hsame.calls]
      · exact hall.payloads.trans (hxsame.1.payloads.trans hpayloads)
      · exact spawned_startAll_congr (hrecorded.trans (hxsame.2.trans hspawned)) step.activations

theorem round_finalizeOrEmit (hsame : SameRouter d e) (hspawned : e.spawned = d.spawned)
    {aid : String} (hhand : AtHand d event aid) (r : NodeResult π) :
    Round D d event (e.finalizeOrEmit D aid r) := by
  unfold finalizeOrEmit
  split
  · exact round_of_phase hsame hspawned fun x hx => Option.some.inj hx ▸ hhand
  · exact round_emit hexec hlegal hinv hsame hspawned hhand r

theorem round_acceptResult (hsame : SameRouter d e) (hspawned : e.spawned = d.spawned)
    {aid : String} (hhand : AtHand d event aid) (r : NodeResult π) :
    Round D d event (e.acceptResult D aid r) := by
  unfold acceptResult
  dsimp only
  split
  · exact round_of_phase hsame hspawned fun x hx => nomatch hx
  · split
    · exact round_of_phase hsame hspawned fun x hx => nomatch hx
    · split
      · exact round_of_phase hsame hspawned fun x hx => Option.some.inj hx ▸ hhand
      · exact round_finalizeOrEmit hexec hlegal hinv hsame hspawned hhand r

theorem round_classify (hsame : SameRouter d e) (hspawned : e.spawned = d.spawned)
    {aid : String} (hhand : AtHand d event aid) (outcome : HandlerOutcome π) :
    Round D d event (e.classify D aid outcome) := by
  unfold classify
  split
  · exact round_acceptResult hexec hlegal hinv hsame hspawned hhand _
  · exact round_of_phase hsame hspawned fun x hx => nomatch hx
  · exact round_haltBudget hsame hspawned
  · exact round_of_phase hsame hspawned fun x hx => nomatch hx
  · dsimp only
    split
    · exact round_of_phase hsame hspawned fun x hx => nomatch hx
    · split
      · exact round_of_phase hsame hspawned fun x hx => nomatch hx
      · refine round_acceptResult hexec hlegal hinv ?_ ?_ hhand _
        · split
          · exact ⟨hsame.step, hsame.calls, hsame.payloads⟩
          · exact hsame
        · split
          · exact hspawned
          · exact hspawned

theorem round_collect (hwake : ∀ aid, (∃ outcome results, d.results = (aid, outcome) :: results) →
    d.isLive aid = true → AtHand d event aid) : Round D d event (d.collect D) := by
  unfold collect
  split
  · exact .idle _ (SameRouter.refl d) rfl fun aid h => Or.inl h
  · rename_i aid outcome results hresults
    generalize htaken : ({ d with results := results, tasks := d.tasks.erase aid } : Dispatcher π) = e
    have hsame : SameRouter d e := by
      rw [← htaken]
      exact ⟨rfl, rfl, rfl⟩
    have hspawned : e.spawned = d.spawned := by rw [← htaken]
    dsimp only
    split
    · rename_i hlive
      rw [isLive, hsame.step] at hlive
      exact round_classify hexec hlegal hinv hsame hspawned
        (hwake aid ⟨outcome, results, hresults⟩ hlive) outcome
    · rw [enter_eq fun a ha => absurd ha List.not_mem_nil]
      exact round_of_phase hsame hspawned fun x hx => by
        rw [pendingIn_loopPhase] at hx
        exact nomatch hx

theorem round_wake (h : d.wake D = some d') : Round D d .wake d' := by
  unfold wake at h
  split at h
  · split at h
    · exact nomatch h
    · rw [← Option.some.inj h]
      exact round_collect hexec hlegal hinv fun aid hresults hlive =>
        Or.inr ⟨trivial, hresults, hlive⟩
  · rename_i aid r hphase
    split at h
    · rw [← Option.some.inj h]
      refine round_of_phase (SameRouter.refl d) rfl fun x hx => Or.inl ?_
      rw [hphase]
      exact hx
    · exact nomatch h
  · split at h
    · rw [← Option.some.inj h]
      exact round_of_phase (SameRouter.refl d) rfl fun x hx => nomatch hx
    · exact nomatch h
  · split at h
    · rw [← Option.some.inj h]
      exact round_of_phase (SameRouter.refl d) rfl fun x hx => nomatch hx
    · exact nomatch h
  · exact nomatch h

omit hexec hlegal hinv in
theorem round_cancel (h : d.cancel = some d') : Round D d event d' := by
  have hraised : ∀ message, Round D d event { d with phase := .raised message } := fun message =>
    round_of_phase (SameRouter.refl d) rfl fun x hx => nomatch hx
  unfold cancel at h
  split at h
  · exact nomatch h
  · exact nomatch h
  · rw [← Option.some.inj h]
    exact hraised _
  · rw [← Option.some.inj h]
    exact round_of_phase (SameRouter.refl d) rfl fun x hx => nomatch hx

end Rounds

def Unraised (d : Dispatcher π) : Prop := ∀ message, d.phase ≠ .raised message

/-- **What an event does.** -/
inductive Happens (D : DispatchConfig) (d : Dispatcher π) : DispatchEvent π → Dispatcher π → Prop
  | begun (aid : String) (task : HandlerTask) (spawned : d.spawned[aid]? = some task)
      (created : task.life = .created) : Happens D d (.begin aid) (d.setLife aid task .running)
  | finished (aid : String) (outcome : HandlerOutcome π) (task : HandlerTask)
      (spawned : d.spawned[aid]? = some task) (running : task.life = .running) :
      Happens D d (.finish aid outcome)
        { d.setLife aid task .done with results := d.results ++ [(aid, outcome)] }
  | round (event : DispatchEvent π) (d' : Dispatcher π) (begin : ∀ aid, event ≠ .begin aid)
      (allBegun : d.allBegun = true) (unraised : d.Unraised) (round : Round D d event d') :
      Happens D d event d'

theorem happens_of_next (hexec : ∀ n ∈ D.topology.nodeIds, D.hasHandler n = true)
    (hlegal : D.topology.Legal) (hinv : Inv D.topology d.step.state) {event : DispatchEvent π}
    (h : next D d event = some d') : Happens D d event d' := by
  cases event with
  | begin aid =>
    rw [next] at h
    split at h
    · rename_i task htask
      split at h
      · rename_i hcreated
        rw [← Option.some.inj h]
        exact .begun aid task htask hcreated
      · exact nomatch h
    · exact nomatch h
  | finish aid outcome =>
    rw [next] at h
    split at h
    · rename_i task htask
      split at h
      · rename_i hrunning
        rw [← Option.some.inj h]
        exact .finished aid outcome task htask hrunning
      · exact nomatch h
    · exact nomatch h
  | wake =>
    rw [next] at h
    split at h
    · rename_i hbegun
      refine .round _ _ (fun _ => nofun) hbegun (fun message hphase => ?_)
        (round_wake hexec hlegal hinv h)
      rw [wake, hphase] at h
      exact nomatch h
    · exact nomatch h
  | budget answer =>
    rw [next] at h
    split at h
    · rename_i hbegun
      split at h
      · rename_i aid r hphase
        have hhand : AtHand d (.budget answer) aid := Or.inl (by rw [hphase]; rfl)
        refine .round _ _ (fun _ => nofun) hbegun (fun message hraised => ?_) ?_
        · rw [hphase] at hraised
          exact nomatch hraised
        · cases answer with
          | accepted =>
            rw [← Option.some.inj h]
            exact round_finalizeOrEmit hexec hlegal hinv (SameRouter.refl d) rfl hhand r
          | rejected =>
            rw [← Option.some.inj h]
            exact round_haltBudget (SameRouter.refl d) rfl
          | raised message =>
            rw [← Option.some.inj h]
            exact round_of_phase (SameRouter.refl d) rfl fun x hx => nomatch hx
      · exact nomatch h
    · exact nomatch h
  | finalized raised =>
    rw [next] at h
    split at h
    · rename_i hbegun
      split at h
      · rename_i aid r hphase
        have hhand : AtHand d (.finalized raised) aid := Or.inl (by rw [hphase]; rfl)
        refine .round _ _ (fun _ => nofun) hbegun (fun message hraised => ?_) ?_
        · rw [hphase] at hraised
          exact nomatch hraised
        · cases raised with
          | none =>
            rw [← Option.some.inj h]
            exact round_emit hexec hlegal hinv (SameRouter.refl d) rfl hhand r
          | some message =>
            rw [← Option.some.inj h]
            exact round_of_phase (SameRouter.refl d) rfl fun x hx => nomatch hx
      · exact nomatch h
    · exact nomatch h
  | cancel =>
    rw [next] at h
    split at h
    · rename_i hbegun
      refine .round _ _ (fun _ => nofun) hbegun (fun message hphase => ?_) (round_cancel h)
      rw [cancel, hphase] at h
      exact nomatch h
    · exact nomatch h

/-! ## 3. The tasks of what has been issued -/

def issuedBy (t : Topology) : List (Transition Step Event) → List Activation
  | [] => (start t).activations
  | c :: calls => c.after.activations ++ issuedBy t calls

structure HasTasks (issued : List Activation) (spawned : Dict HandlerTask) : Prop where
  sound : ∀ (aid : String) (task : HandlerTask), spawned[aid]? = some task →
    task.activation ∈ issued ∧ task.activation.activationId = aid
  complete : ∀ a ∈ issued, ∃ life, spawned[a.activationId]? = some ⟨a, life⟩

theorem HasTasks.startAll {issued : List Activation} (h : HasTasks issued d.spawned)
    (hnodup : ((held ++ issued).map (·.activationId)).Nodup) :
    HasTasks (held ++ issued) (d.startAll held).spawned := by
  rw [List.map_append, List.nodup_append] at hnodup
  obtain ⟨hheld, -, hne⟩ := hnodup
  have hother : ∀ b ∈ issued, ∀ a ∈ held, a.activationId ≠ b.activationId := fun b hb a ha =>
    hne _ (List.mem_map_of_mem ha) _ (List.mem_map_of_mem hb)
  constructor
  · intro aid task htask
    by_cases hmem : ∃ a ∈ held, a.activationId = aid
    · obtain ⟨a, ha, rfl⟩ := hmem
      rw [spawned_startAll_of_mem hheld ha] at htask
      rw [← Option.some.inj htask]
      exact ⟨List.mem_append_left _ ha, rfl⟩
    · rw [spawned_startAll_of_ne fun a ha heq => hmem ⟨a, ha, heq⟩] at htask
      obtain ⟨hin, hid⟩ := h.sound aid task htask
      exact ⟨List.mem_append_right _ hin, hid⟩
  · intro a ha
    rcases List.mem_append.mp ha with ha | ha
    · exact ⟨.created, spawned_startAll_of_mem hheld ha d⟩
    · rw [spawned_startAll_of_ne (hother a ha)]
      exact h.complete a ha

theorem HasTasks.setLife {issued : List Activation} (h : HasTasks issued d.spawned)
    {task : HandlerTask} (htask : d.spawned[aid]? = some task) (life : TaskLife) :
    HasTasks issued (d.setLife aid task life).spawned := by
  constructor
  · intro x task' htask'
    rw [Dispatcher.setLife, Dict.get?_insert] at htask'
    split at htask'
    · rename_i hx
      rw [← Option.some.inj htask', ← hx]
      exact h.sound aid task htask
    · exact h.sound x task' htask'
  · intro a ha
    obtain ⟨life', hlife'⟩ := h.complete a ha
    rw [Dispatcher.setLife]
    by_cases hx : aid = a.activationId
    · subst hx
      rw [hlife'] at htask
      refine ⟨life, ?_⟩
      rw [Dict.get?_insert_self, ← Option.some.inj htask]
    · exact ⟨life', by rw [Dict.get?_insert_of_ne _ _ hx]; exact hlife'⟩

/-! ## 4. Starts -/

/-- The event is the start of the handler of an activation. -/
def begins (aid : String) (x : Transition (Dispatcher π) (DispatchEvent π)) : Bool :=
  match x.event with
  | .begin a => a = aid
  | _ => false

/-- How often the handler of an activation was started. -/
def starts (aid : String) (log : List (Transition (Dispatcher π) (DispatchEvent π))) : ℕ :=
  log.countP (begins aid)

/-- How often a task has been started, by how far it has got. -/
def startsOf (spawned : Dict HandlerTask) (aid : String) : ℕ :=
  match spawned[aid]? with
  | none => 0
  | some task => if task.life = .created then 0 else 1

theorem startsOf_startAll {issued : List Activation} (h : HasTasks issued d.spawned)
    (hnodup : ((held ++ issued).map (·.activationId)).Nodup) (aid : String) :
    startsOf (d.startAll held).spawned aid = startsOf d.spawned aid := by
  rw [List.map_append, List.nodup_append] at hnodup
  obtain ⟨hheld, -, hne⟩ := hnodup
  by_cases hmem : ∃ a ∈ held, a.activationId = aid
  · obtain ⟨a, ha, rfl⟩ := hmem
    have hnone : d.spawned[a.activationId]? = none := by
      cases htask : d.spawned[a.activationId]? with
      | none => rfl
      | some task =>
        obtain ⟨hin, hid⟩ := h.sound _ task htask
        exact absurd hid.symm (hne _ (List.mem_map_of_mem ha) _ (List.mem_map_of_mem hin))
    rw [startsOf, startsOf, spawned_startAll_of_mem hheld ha, hnone]
    rfl
  · rw [startsOf, startsOf, spawned_startAll_of_ne fun a ha heq => hmem ⟨a, ha, heq⟩]

theorem startsOf_setLife {task : HandlerTask} (htask : d.spawned[aid]? = some task)
    {life : TaskLife} (hlife : life ≠ .created) (x : String) :
    startsOf (d.setLife aid task life).spawned x = startsOf d.spawned x +
      if task.life = .created ∧ aid = x then 1 else 0 := by
  rw [startsOf, startsOf, setLife, Dict.get?_insert]
  by_cases hx : aid = x
  · subst hx
    rw [if_pos rfl, htask]
    dsimp only
    rw [if_neg hlife]
    by_cases hcreated : task.life = .created
    · rw [if_pos hcreated, if_pos ⟨hcreated, rfl⟩]
    · rw [if_neg hcreated, if_neg fun h => hcreated h.1]
  · rw [if_neg hx, if_neg fun h => hx h.2, Nat.add_zero]

/-! ## 5. Refs -/

theorem refOf_inj {aid' port port' : String} (h : '.' ∉ aid.toList) (h' : '.' ∉ aid'.toList)
    (heq : refOf aid port = refOf aid' port') : aid = aid' := by
  have hlist : aid.toList ++ '.' :: port.toList = aid'.toList ++ '.' :: port'.toList := by
    simpa [refOf, String.toList_append] using congrArg String.toList heq
  exact String.toList_injective (append_cons_inj h h' hlist).1

/-- The ref is of an activation that has been issued and is over. -/
def Spent (w : RouterState) (ref : String) : Prop :=
  ∃ aid port, ref = refOf aid port ∧ '.' ∉ aid.toList ∧ WasIssued w aid ∧ aid ∉ w.live

theorem Spent.advance {t : Topology} {w : RouterState} {s : Step} (hissues : Issues t w s)
    {ref : String} (h : Spent w ref) : Spent s.state ref := by
  obtain ⟨aid, port, rfl, hdot, hissued, hover⟩ := h
  exact ⟨aid, port, rfl, hdot, hissues.kept aid hissued, hissues.not_revived hissued hover⟩

theorem not_spent_of_live {w : RouterState} (hdot : '.' ∉ aid.toList) (hlive : aid ∈ w.live)
    (port : String) : ¬Spent w (refOf aid port) := by
  rintro ⟨aid', port', heq, hdot', -, hover⟩
  exact hover (refOf_inj hdot hdot' heq ▸ hlive)

theorem issued_of_live {t : Topology} (hlegal : t.Legal) {w : RouterState} (hw : Inv t w)
    (hlive : aid ∈ w.live) : WasIssued w aid ∧ '.' ∉ aid.toList := by
  obtain ⟨n, hn, r, rfl, h1, hr⟩ := hw.accounted.live aid hlive
  refine ⟨⟨n, r, rfl, h1, hr⟩, fun hdot => ?_⟩
  have htext : (gateKey n r).toList = n.toList ++ '#' :: (toString r).toList := by
    simp [gateKey, String.toList_append]
  rw [htext, List.mem_append, List.mem_cons] at hdot
  rcases hdot with hdot | hdot | hdot
  · exact notMem_of_isId (hlegal.isId_of_mem n hn) (by decide) hdot
  · exact absurd hdot (by decide)
  · exact notMem_toString (by decide) r hdot

/-! ## 6. What has been issued and stored -/

/-- The calls of the router so far, and a store that has a payload for everything they name. -/
structure Ledger (t : Topology) (calls : List (Transition Step Event)) (step : Step)
    (payloads : Dict (StoredPayload π)) : Prop where
  run : RouterRun t calls step
  known : ∀ a ∈ issuedBy t calls, WasIssued step.state a.activationId
  nodup : ((issuedBy t calls).map (·.activationId)).Nodup
  applied : ∀ r ∈ history calls, r.payloadRef ∈ payloads
  inputs : ∀ a ∈ issuedBy t calls, ∀ ref ∈ a.refs, ref ∈ payloads

section Ledgers

variable {t : Topology} {calls : List (Transition Step Event)} {step step' : Step}
  {payloads payloads' : Dict (StoredPayload π)}

theorem Ledger.inv (h : Ledger t calls step payloads) (hlegal : t.Legal) : Inv t step.state :=
  inv_of_reachable hlegal ⟨calls, h.run⟩

theorem Ledger.mono (h : Ledger t calls step payloads)
    (hmono : ∀ ref ∈ payloads, ref ∈ payloads') : Ledger t calls step payloads' :=
  ⟨h.run, h.known, h.nodup, fun r hr => hmono _ (h.applied r hr),
    fun a ha ref href => hmono _ (h.inputs a ha ref href)⟩

theorem ledger_start (hlegal : t.Legal) : Ledger t [] (start t) (∅ : Dict (StoredPayload π)) := by
  have hissues := issues_start hlegal
  refine ⟨.start, hissues.issued, hissues.nodup, nofun,
    fun a ha ref href => ?_⟩
  obtain ⟨r, hr, -⟩ := exists_applied_of_mem_refs hlegal .start ha href
  exact nomatch hr

/-- **A call whose payload is stored keeps the ledger.** -/
theorem Ledger.advance (hlegal : t.Legal) (h : Ledger t calls step payloads) {event : Event}
    (hadvance : GraphRouter.advance t step.state event = .ok step')
    (hstored : ∀ e, event = .emitted e → e.payloadRef ∈ payloads) :
    Ledger t (⟨step, event, step'⟩ :: calls) step' payloads := by
  have hinv := h.inv hlegal
  obtain ⟨hissues, -⟩ := (advanced_of_advance hlegal hinv.consistent hadvance).issues hlegal hinv
  have hrun : RouterRun t (⟨step, event, step'⟩ :: calls) step' :=
    h.run.step (by rw [GraphRouter.next, hadvance]; rfl)
  have happlied : ∀ r ∈ history (⟨step, event, step'⟩ :: calls), r.payloadRef ∈ payloads := by
    intro r hr
    rw [history, List.filterMap_cons] at hr
    split at hr
    · exact h.applied r hr
    · rename_i r' happlies
      rcases List.mem_cons.mp hr with rfl | hr
      · obtain ⟨e, he, -, href⟩ := emitted_of_appliedIn happlies
        rw [href]
        exact hstored e he
      · exact h.applied r hr
  refine ⟨hrun, fun a ha => ?_, ?_, happlied, fun a ha ref href => ?_⟩
  · rcases List.mem_append.mp ha with ha | ha
    · exact hissues.issued a ha
    · exact hissues.kept _ (h.known a ha)
  · rw [issuedBy, List.map_append, List.nodup_append]
    refine ⟨hissues.nodup, h.nodup, fun x hx y hy hxy => ?_⟩
    obtain ⟨a, ha, rfl⟩ := List.mem_map.mp hx
    obtain ⟨b, hb, rfl⟩ := List.mem_map.mp hy
    exact hissues.fresh a ha (hxy ▸ h.known b hb)
  · rcases List.mem_append.mp ha with ha | ha
    · obtain ⟨r, hr, rfl⟩ := exists_applied_of_mem_refs hlegal hrun ha href
      exact happlied r hr
    · exact h.inputs a ha ref href

end Ledgers

/-! ## 7. The invariant -/

def IsOver : DispatchPhase π → Prop
  | .returned | .raised _ => True
  | _ => False

/-- The result of the activation was taken from the queue while it was live, in the state of the
router `s`. -/
def CollectedIn (log : List (Transition (Dispatcher π) (DispatchEvent π))) (aid : String) (s : Step) :
    Prop :=
  ∃ x ∈ log, Collects x.before x.event aid ∧ x.before.step = s

theorem CollectedIn.cons {log : List (Transition (Dispatcher π) (DispatchEvent π))} {s : Step}
    (h : CollectedIn log aid s) (x : Transition (Dispatcher π) (DispatchEvent π)) :
    CollectedIn (x :: log) aid s := by
  obtain ⟨y, hy, hcollects⟩ := h
  exact ⟨y, List.mem_cons_of_mem _ hy, hcollects⟩

/-- **The invariant of a run.** -/
structure Faithful (D : DispatchConfig) (log : List (Transition (Dispatcher π) (DispatchEvent π)))
    (d : Dispatcher π) : Prop where
  ledger : Ledger D.topology d.calls d.step d.payloads
  tasks : HasTasks (issuedBy D.topology d.calls) d.spawned
  begun : ∀ aid, starts aid log = startsOf d.spawned aid
  ended : IsOver d.phase → d.allBegun = true
  spent : d.Unraised → ∀ ref ∈ d.payloads, Spent d.step.state ref
  pending : ∀ aid, pendingIn d.phase = some aid → d.isLive aid = true ∧ CollectedIn log aid d.step
  calls : ∀ c ∈ d.calls, ∀ e, c.event = .emitted e → CollectedIn log e.activationId c.before

section Steps

variable {log : List (Transition (Dispatcher π) (DispatchEvent π))} {event : DispatchEvent π}

theorem Faithful.atHand (h : Faithful D log d) {aid : String} (hhand : AtHand d event aid)
    (d' : Dispatcher π) :
    aid ∈ d.step.state.live ∧ CollectedIn (⟨d, event, d'⟩ :: log) aid d.step := by
  rcases hhand with hpending | hcollects
  · obtain ⟨hlive, hcollected⟩ := h.pending aid hpending
    exact ⟨of_decide_eq_true hlive, hcollected.cons _⟩
  · exact ⟨of_decide_eq_true hcollects.2.2, _, List.mem_cons_self, hcollects, rfl⟩

theorem starts_cons_of_ne (hevent : ∀ aid, event ≠ .begin aid) (d' : Dispatcher π) (aid : String) :
    starts aid (⟨d, event, d'⟩ :: log) = starts aid log := by
  have hnot : begins aid ⟨d, event, d'⟩ = false := by
    unfold begins
    split
    · rename_i a heq
      exact absurd heq (hevent a)
    · rfl
  rw [starts, List.countP_cons_of_neg (by rw [hnot]; exact Bool.false_ne_true)]
  rfl

theorem allBegun_iff (d : Dispatcher π) : d.allBegun = true ↔
    ∀ (aid : String) (task : HandlerTask), d.spawned[aid]? = some task → task.life ≠ .created := by
  rw [allBegun, List.all_eq_true]
  constructor
  · intro h aid task htask
    have hmem := Std.ExtTreeMap.mem_toList_iff_getElem?_eq_some.mpr htask
    exact of_decide_eq_true (h (aid, task) hmem)
  · rintro h ⟨aid, task⟩ hmem
    have htask := Std.ExtTreeMap.mem_toList_iff_getElem?_eq_some.mp hmem
    exact decide_eq_true (h aid task htask)

theorem allBegun_setLife (h : d.allBegun = true) {life : TaskLife} (hlife : life ≠ .created)
    (aid : String) (task : HandlerTask) : (d.setLife aid task life).allBegun = true := by
  rw [allBegun_iff] at h ⊢
  intro x task' htask'
  rw [setLife, Dict.get?_insert] at htask'
  split at htask'
  · rw [← Option.some.inj htask']
    exact hlife
  · exact h x task' htask'

theorem allBegun_congr (h : d'.spawned = d.spawned) : d'.allBegun = d.allBegun := by
  rw [allBegun, allBegun, h]

theorem Faithful.setLife (h : Faithful D log d) {aid : String} {task : HandlerTask}
    (htask : d.spawned[aid]? = some task) {life : TaskLife} (hlife : life ≠ .created)
    (hrouter : SameRouter d d') (hphase : d'.phase = d.phase)
    (hspawned : d'.spawned = (d.setLife aid task life).spawned)
    (hstarts : ∀ x, starts x (⟨d, event, d'⟩ :: log) = starts x log +
      if task.life = .created ∧ aid = x then 1 else 0) :
    Faithful D (⟨d, event, d'⟩ :: log) d' := by
  obtain ⟨hstep, hcalls, hpayloads⟩ := hrouter
  refine ⟨?_, ?_, fun x => ?_, fun hover => ?_, fun hraised ref href => ?_, fun x hx => ?_,
    fun c hc e he => ?_⟩
  · rw [hstep, hcalls, hpayloads]
    exact h.ledger
  · rw [hcalls, hspawned]
    exact h.tasks.setLife htask life
  · rw [hstarts, h.begun, hspawned, startsOf_setLife htask hlife]
  · rw [hphase] at hover
    exact (allBegun_congr hspawned).trans (allBegun_setLife (h.ended hover) hlife _ _)
  · rw [hpayloads] at href
    rw [hstep]
    exact h.spent (fun message => hphase ▸ hraised message) ref href
  · rw [hphase] at hx
    obtain ⟨hlive, hcollected⟩ := h.pending x hx
    rw [isLive, hstep]
    exact ⟨hlive, hcollected.cons _⟩
  · rw [hcalls] at hc
    exact (h.calls c hc e he).cons _

theorem Faithful.idle (h : Faithful D log d) (hbegin : ∀ aid, event ≠ .begin aid)
    (hbegun : d.allBegun = true) (hunraised : d.Unraised) (hrouter : SameRouter d d')
    (hspawned : d'.spawned = d.spawned)
    (hpending : ∀ aid, pendingIn d'.phase = some aid → AtHand d event aid) :
    Faithful D (⟨d, event, d'⟩ :: log) d' := by
  obtain ⟨hstep, hcalls, hpayloads⟩ := hrouter
  refine ⟨?_, ?_, fun x => ?_, fun _ => ?_, fun _ ref href => ?_, fun x hx => ?_,
    fun c hc e he => ?_⟩
  · rw [hstep, hcalls, hpayloads]
    exact h.ledger
  · rw [hcalls, hspawned]
    exact h.tasks
  · rw [starts_cons_of_ne hbegin, h.begun, hspawned]
  · exact (allBegun_congr hspawned).trans hbegun
  · rw [hpayloads] at href
    rw [hstep]
    exact h.spent hunraised ref href
  · obtain ⟨hlive, hcollected⟩ := h.atHand (hpending x hx) d'
    rw [isLive, hstep]
    exact ⟨decide_eq_true hlive, hcollected⟩
  · rw [hcalls] at hc
    exact (h.calls c hc e he).cons _

theorem mem_storePayload {aid ref : String} {r : NodeResult π} :
    ref ∈ (d.storePayload aid r).payloads ↔ refOf aid r.port = ref ∨ ref ∈ d.payloads :=
  Dict.mem_insert _ _ _ _

theorem Faithful.refused (h : Faithful D log d) (hbegin : ∀ aid, event ≠ .begin aid)
    (hbegun : d.allBegun = true) (hstep : d'.step = d.step) (hcalls : d'.calls = d.calls)
    (hspawned : d'.spawned = d.spawned) {aid : String} {r : NodeResult π}
    (hpayloads : d'.payloads = (d.storePayload aid r).payloads) {message : String}
    (hphase : d'.phase = .raised message) : Faithful D (⟨d, event, d'⟩ :: log) d' := by
  refine ⟨?_, ?_, fun x => ?_, fun _ => ?_, fun hraised => absurd hphase (hraised message),
    fun x hx => ?_, fun c hc e he => ?_⟩
  · rw [hstep, hcalls, hpayloads]
    exact h.ledger.mono fun ref href => mem_storePayload.mpr (Or.inr href)
  · rw [hcalls, hspawned]
    exact h.tasks
  · rw [starts_cons_of_ne hbegin, h.begun, hspawned]
  · exact (allBegun_congr hspawned).trans hbegun
  · rw [hphase] at hx
    exact nomatch hx
  · rw [hcalls] at hc
    exact (h.calls c hc e he).cons _

theorem activations_of_halt {t : Topology} (hlegal : t.Legal) {w : RouterState}
    (hw : Inv t w) {halt : Halt} {step : Step} (h : advance t w (.halt halt) = .ok step) :
    step.activations = [] := by
  cases advanced_of_advance hlegal hw.consistent h with
  | halted x running => rfl

theorem Faithful.halted (hlegal : D.topology.Legal) (h : Faithful D log d)
    (hbegin : ∀ aid, event ≠ .begin aid) (hbegun : d.allBegun = true) (hunraised : d.Unraised)
    {step : Step} {halt : Halt} (hadvance : advance D.topology d.step.state (.halt halt) = .ok step)
    (hstep : d'.step = step) (hcalls : d'.calls = ⟨d.step, .halt halt, step⟩ :: d.calls)
    (hpayloads : d'.payloads = d.payloads) (hspawned : d'.spawned = d.spawned)
    (hpending : pendingIn d'.phase = none) : Faithful D (⟨d, event, d'⟩ :: log) d' := by
  have hinv := h.ledger.inv hlegal
  have hledger := h.ledger.advance hlegal hadvance fun e he => nomatch he
  obtain ⟨hissues, -⟩ := (advanced_of_advance hlegal hinv.consistent hadvance).issues hlegal hinv
  refine ⟨?_, ?_, fun x => ?_, fun _ => ?_, fun _ ref href => ?_, fun x hx => ?_,
    fun c hc e he => ?_⟩
  · rw [hstep, hcalls, hpayloads]
    exact hledger
  · rw [hcalls, hspawned, issuedBy, activations_of_halt hlegal hinv hadvance]
    exact h.tasks
  · rw [starts_cons_of_ne hbegin, h.begun, hspawned]
  · exact (allBegun_congr hspawned).trans hbegun
  · rw [hpayloads] at href
    rw [hstep]
    exact (h.spent hunraised ref href).advance hissues
  · rw [hpending] at hx
    exact nomatch hx
  · rw [hcalls] at hc
    rcases List.mem_cons.mp hc with rfl | hc
    · exact nomatch he
    · exact (h.calls c hc e he).cons _

theorem not_isOver_loopPhase (s : Step) : ¬IsOver (loopPhase π s) := by
  unfold loopPhase
  split <;> exact id

/-- **A round that emits keeps the invariant.**  The ref it stores is new, since the activation was
live until now; the tasks it starts are of activations with new ids. -/
theorem Faithful.emitted (hlegal : D.topology.Legal) (h : Faithful D log d)
    (hbegin : ∀ aid, event ≠ .begin aid) (hunraised : d.Unraised) {aid : String} {r : NodeResult π}
    {step : Step} (hhand : AtHand d event aid)
    (hadvance : advance D.topology d.step.state
      (.emitted ⟨aid, r.port, refOf aid r.port⟩) = .ok step)
    (hstep : d'.step = step)
    (hcalls : d'.calls = ⟨d.step, .emitted ⟨aid, r.port, refOf aid r.port⟩, step⟩ :: d.calls)
    (hpayloads : d'.payloads = (d.storePayload aid r).payloads)
    (hspawned : d'.spawned = (d.startAll step.activations).spawned)
    (hphase : d'.phase = loopPhase π step) : Faithful D (⟨d, event, d'⟩ :: log) d' := by
  have hinv := h.ledger.inv hlegal
  obtain ⟨hissues, hover⟩ :=
    (advanced_of_advance hlegal hinv.consistent hadvance).issues hlegal hinv
  obtain ⟨hlive, hcollected⟩ := h.atHand hhand d'
  obtain ⟨hissued, hdot⟩ := issued_of_live hlegal hinv hlive
  have hstored : Ledger D.topology d.calls d.step (d.storePayload aid r).payloads :=
    h.ledger.mono fun ref href => mem_storePayload.mpr (Or.inr href)
  have hledger := hstored.advance hlegal hadvance fun e he => by
    rw [← Event.emitted.inj he]
    exact mem_storePayload.mpr (Or.inl rfl)
  refine ⟨?_, ?_, fun x => ?_, fun hx => ?_, fun _ ref href => ?_, fun x hx => ?_,
    fun c hc e he => ?_⟩
  · rw [hstep, hcalls, hpayloads]
    exact hledger
  · rw [hcalls, hspawned]
    exact h.tasks.startAll hledger.nodup
  · rw [starts_cons_of_ne hbegin, h.begun, hspawned, startsOf_startAll h.tasks hledger.nodup]
  · rw [hphase] at hx
    exact absurd hx (not_isOver_loopPhase step)
  · rw [hpayloads] at href
    rw [hstep]
    rcases mem_storePayload.mp href with rfl | href
    · exact ⟨aid, r.port, rfl, hdot, hissues.kept aid hissued, hover _ rfl⟩
    · exact (h.spent hunraised ref href).advance hissues
  · rw [hphase, pendingIn_loopPhase] at hx
    exact nomatch hx
  · rw [hcalls] at hc
    rcases List.mem_cons.mp hc with rfl | hc
    · rw [← Event.emitted.inj he]
      exact hcollected
    · exact (h.calls c hc e he).cons _

theorem Faithful.round (hlegal : D.topology.Legal) (h : Faithful D log d)
    (hbegin : ∀ aid, event ≠ .begin aid) (hbegun : d.allBegun = true) (hunraised : d.Unraised)
    (hround : Round D d event d') : Faithful D (⟨d, event, d'⟩ :: log) d' := by
  cases hround with
  | idle same spawned pending => exact h.idle hbegin hbegun hunraised same spawned pending
  | halted step halt advanced stepEq calls payloads spawned pending =>
    exact h.halted hlegal hbegin hbegun hunraised advanced stepEq calls payloads spawned pending
  | refused aid r hand step calls spawned payloads message phase =>
    exact h.refused hbegin hbegun step calls spawned payloads phase
  | emitted aid r step hand advanced stepEq calls payloads spawned phase =>
    exact h.emitted hlegal hbegin hunraised hand advanced stepEq calls payloads spawned phase

theorem Faithful.happens (hlegal : D.topology.Legal) (h : Faithful D log d)
    (hhappens : Happens D d event d') : Faithful D (⟨d, event, d'⟩ :: log) d' := by
  cases hhappens with
  | begun aid task spawned created =>
    refine h.setLife spawned (by decide) ⟨rfl, rfl, rfl⟩ rfl rfl fun x => ?_
    rw [starts, List.countP_cons]
    congr 1
    by_cases hx : aid = x
    · simp [begins, created, hx]
    · simp [begins, hx]
  | finished aid outcome task spawned running =>
    have hdone : TaskLife.done ≠ .created := by decide
    refine h.setLife spawned hdone ⟨rfl, rfl, rfl⟩ rfl rfl fun x => ?_
    have hnot : ¬(task.life = .created ∧ aid = x) := by
      rw [running]
      exact fun hx => nomatch hx.1
    have hbegin : ∀ a, DispatchEvent.finish aid outcome ≠ .begin a := fun a => nofun
    rw [starts_cons_of_ne hbegin, if_neg hnot, Nat.add_zero]
  | round _ _ hbegin allBegun unraised round =>
    exact h.round hlegal hbegin allBegun unraised round

end Steps

section Runs

variable (hexec : ∀ n ∈ D.topology.nodeIds, D.hasHandler n = true) (hlegal : D.topology.Legal)

include hexec hlegal

theorem faithful_initial : Faithful D [] (initial π D) := by
  have hissues := issues_start hlegal
  have hnodup :
      (((start D.topology).activations ++ []).map fun a : Activation => a.activationId).Nodup := by
    rw [List.append_nil]
    exact hissues.nodup
  have hnone : HasTasks [] ({ step := start D.topology } : Dispatcher π).spawned :=
    ⟨fun aid task htask => absurd ((Dict.get?_empty aid).symm.trans htask) nofun,
      nofun⟩
  have hrouter := sameRouter_startAll (start D.topology).activations
    ({ step := start D.topology } : Dispatcher π)
  obtain ⟨hstep, hcalls, hpayloads⟩ := hrouter
  rw [initial, enter_eq fun a ha => hexec _ (hissues.nodeIds a ha)]
  refine ⟨?_, ?_, fun x => ?_, fun hx => ?_, fun _ ref href => ?_, fun x hx => ?_,
    fun c hc => ?_⟩
  · dsimp only
    rw [hstep, hcalls, hpayloads]
    exact ledger_start hlegal
  · dsimp only
    rw [hcalls]
    have htasks := hnone.startAll hnodup
    rwa [List.append_nil] at htasks
  · exact (startsOf_startAll hnone hnodup x).symm
  · exact absurd hx (not_isOver_loopPhase _)
  · dsimp only at href
    rw [hpayloads] at href
    exact absurd href Std.ExtTreeMap.not_mem_empty
  · dsimp only at hx
    rw [pendingIn_loopPhase] at hx
    exact nomatch hx
  · dsimp only at hc
    rw [hcalls] at hc
    exact nomatch hc

/-- **Every run is faithful.** -/
theorem faithful_of_run {log : List (Transition (Dispatcher π) (DispatchEvent π))}
    (run : DispatchRun D log d) : Faithful D log d := by
  refine Run.induct (P := Faithful D) (faithful_initial hexec hlegal) ?_ run
  intro log d event d' _ hfaithful hnext
  exact hfaithful.happens hlegal
    (happens_of_next hexec hlegal (hfaithful.ledger.inv hlegal) hnext)

end Runs

end Dispatcher

end Kroker
