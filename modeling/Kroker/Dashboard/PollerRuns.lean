import Kroker.Dashboard.Poller

/-!
# Runs of the poller

`poller_lawful` says of every run of the poller what `Law` lists.  Three invariants carry it:

* `Kept`, of the loops and the stops.  The slot `task` holds the one loop that is not cancelled;
  with a subscriber it is not empty and no timer is set; without one a timer is set, or a task of
  the timer has yet to run.  A task of an earlier timer does no harm: it looks for subscribers
  first, and it takes the loop out of the slot before it awaits it.
* `Locked`, of the lock: whoever fans out has it.
* `queue_suffix`, of the queues, which lose from their front alone.

Most events do not touch the loops, but for the stage they are in, nor the stops: `Undisturbed` says
so once for all of them.
-/

namespace Kroker

open Fleet

namespace FleetPoller

variable {e : PollerEvent}

theorem next_eq_some {interval grace : ℚ} {s s' : FleetPoller} :
    s.next interval grace e = some s' ↔ s.Enabled e ∧ s.apply interval grace e = s' := by
  rw [next]
  split_ifs with h
  · rw [Option.some.injEq, and_iff_right h]
  · exact ⟨nofun, fun h' => absurd h'.1 h⟩

/-! ## 1.  The loops -/

/-- **The invariant of the loops and the stops.** -/
structure Kept (s : FleetPoller) : Prop where
  fresh_loops : ∀ t ∈ s.loops.rows, t.id < s.created
  fresh_stops : ∀ t ∈ s.stops.rows, t.id < s.created
  fresh_subscribers : ∀ q ∈ s.subscribers.rows, q.id < s.created
  task_runs : ∀ i ∈ s.task, ∃ t ∈ s.loops.rows, t.id = i ∧ t.cancelled = false
  runs_task : ∀ t ∈ s.loops.rows, t.cancelled = false → s.task = some t.id
  watched : s.subscribers.rows ≠ [] → s.task ≠ none ∧ s.stopHandle = none
  stopping : s.subscribers.rows = [] → s.task ≠ none →
    (∃ h ∈ s.stopHandle, h.fired = false) ∨ ∃ t ∈ s.stops.rows, t.awaiting = none

/-- A state that differs in no loop, but for its stage, and in no stop. -/
structure Undisturbed (s s' : FleetPoller) : Prop where
  created : s.created ≤ s'.created
  subscribers : s'.subscribers.rows.map (·.id) = s.subscribers.rows.map (·.id)
  task : s'.task = s.task
  stopHandle : s'.stopHandle = s.stopHandle
  stops : s'.stops = s.stops
  loops : s'.loops.rows.map (fun t => (t.id, t.cancelled)) =
    s.loops.rows.map fun t => (t.id, t.cancelled)

namespace Undisturbed

variable {s s' : FleetPoller} (h : Undisturbed s s')

include h

theorem mem_loops {t' : LoopTask} (ht' : t' ∈ s'.loops.rows) :
    ∃ t ∈ s.loops.rows, t.id = t'.id ∧ t.cancelled = t'.cancelled := by
  have hmem : (t'.id, t'.cancelled) ∈ s.loops.rows.map fun t => (t.id, t.cancelled) :=
    h.loops ▸ List.mem_map_of_mem ht'
  obtain ⟨t, ht, heq⟩ := List.mem_map.mp hmem
  exact ⟨t, ht, congrArg Prod.fst heq, congrArg Prod.snd heq⟩

theorem symm_loops {t : LoopTask} (ht : t ∈ s.loops.rows) :
    ∃ t' ∈ s'.loops.rows, t'.id = t.id ∧ t'.cancelled = t.cancelled := by
  have hmem : (t.id, t.cancelled) ∈ s'.loops.rows.map fun t => (t.id, t.cancelled) :=
    h.loops ▸ List.mem_map_of_mem ht
  obtain ⟨t', ht', heq⟩ := List.mem_map.mp hmem
  exact ⟨t', ht', congrArg Prod.fst heq, congrArg Prod.snd heq⟩

theorem subscribers_eq_nil_iff : s'.subscribers.rows = [] ↔ s.subscribers.rows = [] := by
  rw [← List.map_eq_nil_iff (f := (·.id)), h.subscribers, List.map_eq_nil_iff]

theorem active_eq : s'.active = s.active := by
  have hactive : ∀ p : FleetPoller, p.active =
      ((p.loops.rows.map fun t => (t.id, t.cancelled)).filter (!·.2)).map Prod.fst := by
    intro p
    rw [active, List.filter_map, List.map_map]
    rfl
  rw [hactive, hactive, h.loops]

theorem kept (hs : Kept s) : Kept s' where
  fresh_loops t' ht' := by
    obtain ⟨t, ht, hid, -⟩ := h.mem_loops ht'
    exact hid ▸ (hs.fresh_loops t ht).trans_le h.created
  fresh_stops t ht := (hs.fresh_stops t (h.stops ▸ ht)).trans_le h.created
  fresh_subscribers q' hq' := by
    have hmem : q'.id ∈ s.subscribers.rows.map (·.id) := h.subscribers ▸ List.mem_map_of_mem hq'
    obtain ⟨q, hq, hid⟩ := List.mem_map.mp hmem
    exact hid ▸ (hs.fresh_subscribers q hq).trans_le h.created
  task_runs i hi := by
    obtain ⟨t, ht, hid, hcancelled⟩ := hs.task_runs i (h.task ▸ hi)
    obtain ⟨t', ht', hid', hcancelled'⟩ := h.symm_loops ht
    exact ⟨t', ht', hid'.trans hid, hcancelled'.trans hcancelled⟩
  runs_task t' ht' hcancelled := by
    obtain ⟨t, ht, hid, heq⟩ := h.mem_loops ht'
    rw [h.task, hs.runs_task t ht (heq.trans hcancelled), hid]
  watched hne := by
    rw [h.task, h.stopHandle]
    exact hs.watched fun hnil => hne (h.subscribers_eq_nil_iff.mpr hnil)
  stopping hnil := by
    rw [h.task, h.stopHandle, h.stops]
    exact hs.stopping (h.subscribers_eq_nil_iff.mp hnil)

end Undisturbed

/-- The events that start a loop, or are part of a stop. -/
def Disturbs : PollerEvent → Prop
  | .subscribe => True
  | .unsubscribe _ => True
  | e => Stops e

section Undisturbed

variable (s : FleetPoller)

theorem Undisturbed.refl : Undisturbed s s := ⟨le_rfl, rfl, rfl, rfl, rfl, rfl⟩

theorem Undisturbed.trans {s s' s'' : FleetPoller} (h : Undisturbed s s')
    (h' : Undisturbed s' s'') : Undisturbed s s'' :=
  ⟨h.created.trans h'.created, h'.subscribers.trans h.subscribers, h'.task.trans h.task,
    h'.stopHandle.trans h.stopHandle, h'.stops.trans h.stops, h'.loops.trans h.loops⟩

theorem undisturbed_setStage (id : ℕ) (stage : LoopStage) :
    Undisturbed s (s.setStage id stage) := by
  have h := Table.map_rows_modify (t := s.loops) (k := id)
    (f := fun t : LoopTask => { t with stage := stage }) (g := fun t => (t.id, t.cancelled))
    (fun _ h => h) fun _ => rfl
  exact ⟨le_rfl, rfl, rfl, rfl, rfl, h⟩

theorem undisturbed_release (holder : Holder) : Undisturbed s (s.release holder) := by
  rw [release]
  split_ifs
  · exact ⟨le_rfl, rfl, rfl, rfl, rfl, rfl⟩
  · exact Undisturbed.refl s

theorem undisturbed_publish (snap : FleetSnapshot) : Undisturbed s (s.publish snap) := by
  refine ⟨le_rfl, ?_, rfl, rfl, rfl, rfl⟩
  rw [publish, List.map_map]
  rfl

theorem undisturbed_apply (interval grace : ℚ) {e : PollerEvent} (he : ¬ Disturbs e) :
    Undisturbed s (s.apply interval grace e) := by
  cases e with
  | tick elapsed => exact ⟨le_rfl, rfl, rfl, rfl, rfl, rfl⟩
  | get id =>
    have h := Table.map_rows_modify (t := s.subscribers) (k := id)
      (f := fun q : Subscriber => { q with queue := q.queue.tail }) (g := (·.id))
      (fun _ h => h) fun _ => rfl
    exact ⟨le_rfl, h, rfl, rfl, rfl, rfl⟩
  | loopEnters id =>
    have h := undisturbed_setStage s id .fetching
    exact ⟨h.created, h.subscribers, h.task, h.stopHandle, h.stops, h.loops⟩
  | loopFetched id result =>
    have h := (undisturbed_setStage s id (.sleeping (s.time + interval))).trans
      (undisturbed_release _ (.loop id))
    cases result with
    | none => exact h
    | some snap => exact h.trans (undisturbed_publish _ snap)
  | loopWakes id => exact undisturbed_setStage s id .waiting
  | call fansOut => exact ⟨Nat.le_succ _, rfl, rfl, rfl, rfl, rfl⟩
  | callEnters id clock =>
    rw [apply, callEnters]
    split_ifs
    · exact ⟨le_rfl, rfl, rfl, rfl, rfl, rfl⟩
    · exact ⟨le_rfl, rfl, rfl, rfl, rfl, rfl⟩
  | callFetched id snap =>
    have h := undisturbed_release s (.call id)
    exact ⟨h.created, h.subscribers, h.task, h.stopHandle, h.stops, h.loops⟩
  | callEnds id =>
    have h := undisturbed_release s (.call id)
    exact ⟨h.created, h.subscribers, h.task, h.stopHandle, h.stops, h.loops⟩
  | _ => exact absurd trivial he

end Undisturbed

theorem eq_of_id {s : FleetPoller} {t t' : LoopTask} (ht : t ∈ s.loops.rows)
    (ht' : t' ∈ s.loops.rows) (hid : t.id = t'.id) : t = t' :=
  List.inj_on_of_nodup_map s.loops.keys_nodup ht ht' hid

namespace Kept

variable {s : FleetPoller} (h : Kept s)

include h

theorem running_iff : s.running = true ↔ s.task ≠ none := by
  rw [running, Option.any_eq_true]
  constructor
  · rintro ⟨i, hi, -⟩ hnone
    rw [hnone] at hi
    cases hi
  · intro hne
    obtain ⟨i, hi⟩ := Option.ne_none_iff_exists'.mp hne
    obtain ⟨t, ht, hid, -⟩ := h.task_runs i hi
    exact ⟨i, hi, by rw [Table.find?_eq_some_iff.mpr ⟨ht, hid⟩, Option.isSome_some]⟩

theorem find?_created {n : ℕ} (hn : s.created ≤ n) : s.loops.find? n = none :=
  Table.find?_eq_none_iff.mpr fun t ht => ((h.fresh_loops t ht).trans_le hn).ne

theorem subscribe : Kept s.subscribe := by
  have hsubscribers : ∀ q ∈ (s.subscribers.insertNew { id := s.created }).rows,
      q.id < s.created + 1 := by
    intro q hq
    rcases Table.mem_rows_insertNew hq with hold | rfl
    · exact (h.fresh_subscribers q hold).trans (Nat.lt_succ_self _)
    · exact Nat.lt_succ_self _
  have hnil : (s.subscribers.insertNew { id := s.created }).rows ≠ [] := by
    have hnone : s.subscribers.find? s.created = none :=
      Table.find?_eq_none_iff.mpr fun q hq => (h.fresh_subscribers q hq).ne
    rw [Table.insertNew_of_none hnone]
    exact List.append_ne_nil_of_right_ne_nil _ (List.cons_ne_nil _ _)
  rw [FleetPoller.subscribe]
  split_ifs with hrunning
  · have htask : s.task ≠ none := h.running_iff.mp hrunning
    exact
      { fresh_loops := fun t ht => (h.fresh_loops t ht).trans (Nat.lt_succ_self _)
        fresh_stops := fun t ht => (h.fresh_stops t ht).trans (Nat.lt_succ_self _)
        fresh_subscribers := hsubscribers
        task_runs := h.task_runs
        runs_task := h.runs_task
        watched := fun _ => ⟨htask, rfl⟩
        stopping := fun hempty => absurd hempty hnil }
  · -- no loop is left but the cancelled ones, and one is started
    have hnone : s.task = none := by
      by_contra hne
      exact hrunning (h.running_iff.mpr hne)
    have hrows := Table.insertNew_of_none (a := ({ id := s.created + 1 } : LoopTask))
      (h.find?_created (Nat.le_succ s.created))
    exact
      { fresh_loops := fun t ht => by
          rcases Table.mem_rows_insertNew ht with hold | rfl
          · exact ((h.fresh_loops t hold).trans (Nat.lt_succ_self _)).trans (Nat.lt_succ_self _)
          · exact Nat.lt_succ_self _
        fresh_stops := fun t ht =>
          ((h.fresh_stops t ht).trans (Nat.lt_succ_self _)).trans (Nat.lt_succ_self _)
        fresh_subscribers := fun q hq => (hsubscribers q hq).trans (Nat.lt_succ_self _)
        task_runs := by
          rintro i ⟨⟩
          refine ⟨{ id := s.created + 1 }, ?_, rfl, rfl⟩
          exact hrows ▸ List.mem_append_right _ (List.mem_singleton_self _)
        runs_task := fun t ht hcancelled => by
          rcases Table.mem_rows_insertNew ht with hold | rfl
          · exact absurd (hnone.symm.trans (h.runs_task t hold hcancelled)) nofun
          · rfl
        watched := fun _ => ⟨nofun, rfl⟩
        stopping := fun hempty => absurd hempty hnil }

theorem unsubscribe (grace : ℚ) (id : ℕ) : Kept (s.unsubscribe grace id) := by
  have hsubscribers : ∀ q ∈ (s.subscribers.erase id).rows, q.id < s.created := fun q hq =>
    h.fresh_subscribers q (Table.mem_rows_erase.mp hq).1
  rw [FleetPoller.unsubscribe]
  split_ifs with hempty
  · exact
      { fresh_loops := h.fresh_loops
        fresh_stops := h.fresh_stops
        fresh_subscribers := hsubscribers
        task_runs := h.task_runs
        runs_task := h.runs_task
        watched := fun hne => absurd hempty hne
        stopping := fun _ _ => .inl ⟨_, rfl, rfl⟩ }
  · have hne : s.subscribers.rows ≠ [] := by
      intro hnil
      refine hempty (List.eq_nil_iff_forall_not_mem.mpr fun q hq => ?_)
      rw [Table.mem_rows_erase, hnil] at hq
      exact absurd hq.1 List.not_mem_nil
    exact
      { fresh_loops := h.fresh_loops
        fresh_stops := h.fresh_stops
        fresh_subscribers := hsubscribers
        task_runs := h.task_runs
        runs_task := h.runs_task
        watched := fun _ => h.watched hne
        stopping := fun hnil => absurd hnil hempty }

theorem loopCancelled {t : LoopTask} (ht : t ∈ s.loops.rows) (hcancelled : t.cancelled = true) :
    Kept { s.release (.loop t.id) with loops := s.loops.erase t.id } := by
  have hs := (undisturbed_release s (.loop t.id)).kept h
  exact
    { fresh_loops := fun t' ht' =>
        (h.fresh_loops t' (Table.mem_rows_erase.mp ht').1).trans_le
          (undisturbed_release s (.loop t.id)).created
      fresh_stops := hs.fresh_stops
      fresh_subscribers := hs.fresh_subscribers
      task_runs := by
        intro i hi
        rw [(undisturbed_release s (.loop t.id)).task] at hi
        obtain ⟨t', ht', hid, hactive⟩ := h.task_runs i hi
        refine ⟨t', Table.mem_rows_erase.mpr ⟨ht', fun hsame => ?_⟩, hid, hactive⟩
        rw [eq_of_id ht' ht hsame, hcancelled] at hactive
        cases hactive
      runs_task := fun t' ht' hactive => by
        rw [(undisturbed_release s (.loop t.id)).task]
        exact h.runs_task t' (Table.mem_rows_erase.mp ht').1 hactive
      watched := hs.watched
      stopping := hs.stopping }

theorem timerFires {handle : StopHandle} (hhandle : s.stopHandle = some handle)
    (interval grace : ℚ) : Kept (s.apply interval grace .timerFires) where
  fresh_loops t ht := (h.fresh_loops t ht).trans (Nat.lt_succ_self _)
  fresh_stops t ht := by
    rcases Table.mem_rows_insertNew ht with hold | rfl
    · exact (h.fresh_stops t hold).trans (Nat.lt_succ_self _)
    · exact Nat.lt_succ_self _
  fresh_subscribers q hq := (h.fresh_subscribers q hq).trans (Nat.lt_succ_self _)
  task_runs := h.task_runs
  runs_task := h.runs_task
  watched hne := absurd (hhandle.symm.trans (h.watched hne).2) nofun
  stopping _ _ := by
    have hnone : s.stops.find? s.created = none :=
      Table.find?_eq_none_iff.mpr fun t ht => (h.fresh_stops t ht).ne
    refine .inr ⟨{ id := s.created }, ?_, rfl⟩
    have hrows := Table.insertNew_of_none (a := ({ id := s.created } : StopTask)) hnone
    exact hrows ▸ List.mem_append_right _ (List.mem_singleton_self _)

theorem stopFinishes {t : StopTask} (ht : t ∈ s.stops.rows) (hawaiting : t.awaiting ≠ none) :
    Kept { s with stops := s.stops.erase t.id } where
  fresh_loops := h.fresh_loops
  fresh_stops t' ht' := h.fresh_stops t' (Table.mem_rows_erase.mp ht').1
  fresh_subscribers := h.fresh_subscribers
  task_runs := h.task_runs
  runs_task := h.runs_task
  watched := h.watched
  stopping hnil hne := (h.stopping hnil hne).imp_right fun ⟨t', ht', hcreated⟩ => by
    refine ⟨t', Table.mem_rows_erase.mpr ⟨ht', fun hid => hawaiting ?_⟩, hcreated⟩
    rw [← List.inj_on_of_nodup_map s.stops.keys_nodup ht' ht hid]
    exact hcreated

theorem stopIfIdle (id : ℕ) : Kept (s.stopIfIdle id) := by
  have hstops : ∀ t ∈ (s.stops.erase id).rows, t.id < s.created := fun t ht =>
    h.fresh_stops t (Table.mem_rows_erase.mp ht).1
  rw [FleetPoller.stopIfIdle]
  split_ifs with hempty
  · rw [aclose]
    cases htask : s.task with
    | none =>
      exact
        { fresh_loops := h.fresh_loops
          fresh_stops := hstops
          fresh_subscribers := h.fresh_subscribers
          task_runs := fun i hi => by cases hi
          runs_task := fun t ht hactive => htask.symm.trans (h.runs_task t ht hactive)
          watched := fun hne => absurd hempty hne
          stopping := fun _ hne => absurd rfl hne }
    | some i =>
      have hone : ∀ t ∈ s.loops.rows, t.cancelled = false → t.id = i := fun t ht hactive =>
        (Option.some.inj (htask.symm.trans (h.runs_task t ht hactive))).symm
      dsimp only
      split_ifs with hruns
      · exact
          { fresh_loops := fun t' ht' => by
              obtain ⟨t, ht, rfl⟩ := List.mem_map.mp ht'
              split_ifs <;> exact h.fresh_loops t ht
            fresh_stops := fun t' ht' => by
              obtain ⟨t, ht, rfl⟩ := List.mem_map.mp ht'
              split_ifs <;> exact h.fresh_stops t ht
            fresh_subscribers := h.fresh_subscribers
            task_runs := fun i hi => by cases hi
            runs_task := fun t' ht' hactive => by
              obtain ⟨t, ht, rfl⟩ := List.mem_map.mp ht'
              split_ifs at hactive with hid
              exact absurd (hone t ht hactive) hid
            watched := fun hne => absurd hempty hne
            stopping := fun _ hne => absurd rfl hne }
      · exact
          { fresh_loops := h.fresh_loops
            fresh_stops := hstops
            fresh_subscribers := h.fresh_subscribers
            task_runs := fun i hi => by cases hi
            runs_task := fun t ht hactive => by
              have hfind : s.loops.find? i = some t :=
                Table.find?_eq_some_iff.mpr ⟨ht, hone t ht hactive⟩
              exact absurd (congrArg Option.isSome hfind) hruns
            watched := fun hne => absurd hempty hne
            stopping := fun _ hne => absurd rfl hne }
  · exact
      { fresh_loops := h.fresh_loops
        fresh_stops := hstops
        fresh_subscribers := h.fresh_subscribers
        task_runs := h.task_runs
        runs_task := h.runs_task
        watched := h.watched
        stopping := fun hnil => absurd hnil hempty }

/-- **Every event keeps the invariant.** -/
theorem apply {interval grace : ℚ} {e : PollerEvent} (he : s.Enabled e) :
    Kept (s.apply interval grace e) := by
  by_cases hdisturbs : Disturbs e
  · cases e with
    | subscribe => exact h.subscribe
    | unsubscribe id => exact h.unsubscribe grace id
    | loopCancelled id =>
      obtain ⟨t, ht, rfl, hcancelled⟩ := he
      exact h.loopCancelled ht hcancelled
    | timerFires =>
      obtain ⟨handle, hhandle, -⟩ := he
      exact h.timerFires hhandle interval grace
    | stopRuns id => exact h.stopIfIdle id
    | stopFinishes id =>
      obtain ⟨t, ht, rfl, i, hi, -⟩ := he
      exact h.stopFinishes ht (Option.ne_none_iff_exists'.mpr ⟨i, hi⟩)
    | _ => exact hdisturbs.elim
  · exact (undisturbed_apply s interval grace hdisturbs).kept h

theorem active_eq {i : ℕ} (hi : s.task = some i) : s.active = [i] := by
  have hnodup : s.active.Nodup := (List.filter_sublist.map LoopTask.id).nodup s.loops.keys_nodup
  refine List.perm_singleton.mp
    ((List.perm_ext_iff_of_nodup hnodup (List.nodup_singleton i)).mpr fun j => ?_)
  simp only [active, List.mem_map, List.mem_filter, List.mem_singleton, Bool.not_eq_true']
  constructor
  · rintro ⟨t, ⟨ht, hactive⟩, rfl⟩
    exact Option.some.inj ((h.runs_task t ht hactive).symm.trans hi)
  · rintro rfl
    obtain ⟨t, ht, hid, hactive⟩ := h.task_runs j hi
    exact ⟨t, ⟨ht, hactive⟩, hid⟩

theorem active_apply (hne : s.subscribers.rows ≠ []) {interval grace : ℚ} {e : PollerEvent}
    (he : s.Enabled e) : (s.apply interval grace e).active = s.active := by
  by_cases hdisturbs : Disturbs e
  · cases e with
    | subscribe =>
      have hrunning := h.running_iff.mpr (h.watched hne).1
      rw [FleetPoller.apply, FleetPoller.subscribe]
      split_ifs with hcase
      · rfl
      · exact absurd hrunning hcase
    | unsubscribe id =>
      rw [FleetPoller.apply, FleetPoller.unsubscribe]
      split_ifs <;> rfl
    | loopCancelled id =>
      obtain ⟨t, ht, rfl, hcancelled⟩ := he
      have hsame : (s.loops.erase t.id).rows.filter (!·.cancelled) =
          s.loops.rows.filter (!·.cancelled) := by
        rw [Table.erase, List.filter_filter]
        refine List.filter_congr fun t' ht' => ?_
        by_cases hid : t'.id = t.id
        · rw [eq_of_id ht' ht hid, hcancelled]
          rfl
        · rw [decide_eq_true hid, Bool.and_true]
      exact congrArg (List.map (·.id)) hsame
    | timerFires => rfl
    | stopRuns id =>
      rw [FleetPoller.apply, FleetPoller.stopIfIdle, if_neg hne]
      rfl
    | stopFinishes id => rfl
    | _ => exact hdisturbs.elim
  · exact (undisturbed_apply s interval grace hdisturbs).active_eq

end Kept

/-! ## 2.  The lock -/

/-- A task that has the lock. -/
def Holds (s : FleetPoller) : Holder → Prop
  | .loop i => ∃ t ∈ s.loops.rows, t.id = i ∧ t.stage = .fetching
  | .call i => ∃ c ∈ s.calls.rows, c.id = i ∧ c.holding = true

/-- **The invariant of the lock.** -/
def Locked (s : FleetPoller) : Prop := ∀ holder, s.Holds holder → s.lock = some holder

theorem loops_release (s : FleetPoller) (holder : Holder) :
    (s.release holder).loops = s.loops := by
  rw [release]
  split_ifs <;> rfl

theorem calls_release (s : FleetPoller) (holder : Holder) :
    (s.release holder).calls = s.calls := by
  rw [release]
  split_ifs <;> rfl

theorem holds_release (s : FleetPoller) (holder other : Holder) :
    (s.release holder).Holds other ↔ s.Holds other := by
  cases other with
  | loop i => rw [Holds, Holds, loops_release]
  | call i => rw [Holds, Holds, calls_release]

namespace Locked

variable {s s' : FleetPoller} (h : Locked s)

include h

theorem keep (hlock : s'.lock = s.lock) (hholds : ∀ holder, s'.Holds holder → s.Holds holder) :
    Locked s' := fun holder hholder => hlock.trans (h holder (hholds holder hholder))

theorem acquire (hfree : s.lock = none) {holder : Holder} (hlock : s'.lock = some holder)
    (hholds : ∀ other, s'.Holds other → s.Holds other ∨ other = holder) : Locked s' := by
  intro other hother
  rcases hholds other hother with hold | rfl
  · exact absurd (hfree.symm.trans (h other hold)) nofun
  · exact hlock

theorem release {holder : Holder} (hlock : s'.lock = (s.release holder).lock)
    (hholds : ∀ other, s'.Holds other → s.Holds other ∧ other ≠ holder) : Locked s' := by
  intro other hother
  obtain ⟨hold, hne⟩ := hholds other hother
  have hother := h other hold
  rw [hlock, FleetPoller.release, if_neg, hother]
  exact fun hsame => hne (Option.some.inj (hother.symm.trans hsame))

theorem length_fanOuts_le : s.fanOuts.length ≤ 1 := by
  have hnodup : s.fanOuts.Nodup := by
    refine List.nodup_append'.mpr ⟨?_, ?_, ?_⟩
    · have hids := (List.filter_sublist (p := fun t => t.stage = .fetching)
        (l := s.loops.rows)).map LoopTask.id
      have hmap := (hids.nodup s.loops.keys_nodup).map
        (f := Holder.loop) fun _ _ => Holder.loop.inj
      rwa [List.map_map] at hmap
    · have hids := (List.filter_sublist (p := fun c => c.fansOut ∧ c.holding)
        (l := s.calls.rows)).map PollerCall.id
      have hmap := (hids.nodup s.calls.keys_nodup).map
        (f := Holder.call) fun _ _ => Holder.call.inj
      rwa [List.map_map] at hmap
    · intro holder hloop hcall
      obtain ⟨t, -, rfl⟩ := List.mem_map.mp hloop
      obtain ⟨c, -, hc⟩ := List.mem_map.mp hcall
      cases hc
  have hholds : ∀ holder ∈ s.fanOuts, s.lock = some holder := by
    intro holder hmem
    refine h holder ?_
    rcases List.mem_append.mp hmem with hloop | hcall
    · obtain ⟨t, ht, rfl⟩ := List.mem_map.mp hloop
      obtain ⟨ht, hstage⟩ := List.mem_filter.mp ht
      exact ⟨t, ht, rfl, of_decide_eq_true hstage⟩
    · obtain ⟨c, hc, rfl⟩ := List.mem_map.mp hcall
      obtain ⟨hc, hholding⟩ := List.mem_filter.mp hc
      exact ⟨c, hc, rfl, (of_decide_eq_true hholding).2⟩
  cases hlock : s.lock with
  | none =>
    rw [List.eq_nil_iff_forall_not_mem.mpr fun holder hmem =>
      absurd (hlock.symm.trans (hholds holder hmem)) nofun]
    exact Nat.zero_le 1
  | some holder =>
    have hsubset : s.fanOuts ⊆ [holder] := fun other hmem =>
      List.mem_singleton.mpr (Option.some.inj ((hholds other hmem).symm.trans hlock))
    exact (List.subperm_of_subset hnodup hsubset).length_le

end Locked

theorem holds_setStage {s : FleetPoller} {id : ℕ} {stage : LoopStage} {holder : Holder}
    (h : (s.setStage id stage).Holds holder) :
    (s.Holds holder ∧ holder ≠ .loop id) ∨ holder = .loop id ∧ stage = .fetching := by
  cases holder with
  | loop i =>
    obtain ⟨t', ht', rfl, hstage⟩ := h
    obtain ⟨t, ht, rfl⟩ := List.mem_map.mp ht'
    split_ifs at hstage with hid
    · rw [if_pos hid]
      exact .inr ⟨congrArg Holder.loop hid, hstage⟩
    · rw [if_neg hid]
      exact .inl ⟨⟨t, ht, rfl, hstage⟩, fun hsame => hid (Holder.loop.inj hsame)⟩
  | call i => exact .inl ⟨h, nofun⟩

theorem holds_erase {s : FleetPoller} {id : ℕ} {holder : Holder}
    (h : ({ s.release (.call id) with calls := s.calls.erase id } : FleetPoller).Holds holder) :
    s.Holds holder ∧ holder ≠ .call id := by
  cases holder with
  | loop i => exact ⟨(holds_release s (.call id) (.loop i)).mp h, nofun⟩
  | call i =>
    obtain ⟨c, hc, rfl, hholding⟩ := h
    obtain ⟨hc, hne⟩ := Table.mem_rows_erase.mp hc
    exact ⟨⟨c, hc, rfl, hholding⟩, fun hsame => hne (Holder.call.inj hsame)⟩

/-- **Every event keeps the invariant of the lock.** -/
theorem Locked.apply {s : FleetPoller} (h : Locked s) {interval grace : ℚ} (he : s.Enabled e) :
    Locked (s.apply interval grace e) := by
  cases e with
  | tick elapsed => exact h.keep rfl fun _ hholds => hholds
  | subscribe =>
    rw [FleetPoller.apply, FleetPoller.subscribe]
    split_ifs
    · exact h.keep rfl fun _ hholds => hholds
    · refine h.keep rfl fun holder hholds => ?_
      cases holder with
      | loop i =>
        obtain ⟨t, ht, rfl, hstage⟩ := hholds
        rcases Table.mem_rows_insertNew ht with hold | rfl
        · exact ⟨t, hold, rfl, hstage⟩
        · cases hstage
      | call i => exact hholds
  | unsubscribe id =>
    rw [FleetPoller.apply, FleetPoller.unsubscribe]
    split_ifs <;> exact h.keep rfl fun _ hholds => hholds
  | get id => exact h.keep rfl fun _ hholds => hholds
  | loopEnters id =>
    refine h.acquire he.1 rfl fun other hother => ?_
    have hset : (s.setStage id .fetching).Holds other := hother
    exact (holds_setStage hset).imp And.left And.left
  | loopFetched id result =>
    have hset : ∀ other, (s.setStage id (.sleeping (s.time + interval))).Holds other →
        s.Holds other ∧ other ≠ .loop id := fun other hother =>
      (holds_setStage hother).resolve_right fun hfetching => by cases hfetching.2
    have hlock : (s.setStage id (.sleeping (s.time + interval))).Locked :=
      h.keep rfl fun other hother => (hset other hother).1
    have hreleased : ((s.setStage id (.sleeping (s.time + interval))).release (.loop id)).Locked :=
      hlock.release rfl fun other hother => by
        rw [holds_release] at hother
        exact ⟨hother, (hset other hother).2⟩
    cases result with
    | none => exact hreleased
    | some snap => exact hreleased.keep rfl fun _ hholds => hholds
  | loopWakes id =>
    refine h.keep rfl fun other hother => ?_
    exact ((holds_setStage hother).resolve_right fun hfetching => by cases hfetching.2).1
  | loopCancelled id =>
    have hlock : (s.apply interval grace (.loopCancelled id)).lock =
      (s.release (.loop id)).lock := rfl
    refine h.release hlock fun other hother => ?_
    cases other with
    | loop i =>
      obtain ⟨t, ht, rfl, hstage⟩ := hother
      obtain ⟨ht, hne⟩ := Table.mem_rows_erase.mp ht
      exact ⟨⟨t, ht, rfl, hstage⟩, fun hsame => hne (Holder.loop.inj hsame)⟩
    | call i => exact ⟨(holds_release s (.loop id) (.call i)).mp hother, Holder.noConfusion⟩
  | call fansOut =>
    refine h.keep rfl fun holder hholds => ?_
    cases holder with
    | loop i => exact hholds
    | call i =>
      obtain ⟨c, hc, rfl, hholding⟩ := hholds
      rcases Table.mem_rows_insertNew hc with hold | rfl
      · exact ⟨c, hold, rfl, hholding⟩
      · cases hholding
  | callEnters id clock =>
    rw [FleetPoller.apply, FleetPoller.callEnters]
    split_ifs
    · refine h.keep rfl fun holder hholds => ?_
      cases holder with
      | loop i => exact hholds
      | call i =>
        obtain ⟨c, hc, hrest⟩ := hholds
        exact ⟨c, (Table.mem_rows_erase.mp hc).1, hrest⟩
    · refine h.acquire he.1 rfl fun holder hholds => ?_
      cases holder with
      | loop i => exact .inl hholds
      | call i =>
        obtain ⟨c', hc', rfl, hholding⟩ := hholds
        obtain ⟨c, hc, rfl⟩ := List.mem_map.mp hc'
        split_ifs at hholding with hid
        · rw [if_pos hid]
          exact .inr (congrArg Holder.call hid)
        · rw [if_neg hid]
          exact .inl ⟨c, hc, rfl, hholding⟩
  | callFetched id snap =>
    have hlock : (s.apply interval grace (.callFetched id snap)).lock =
      (s.release (.call id)).lock := rfl
    exact h.release hlock fun other hother => holds_erase hother
  | callEnds id =>
    have hlock : (s.apply interval grace (.callEnds id)).lock =
      (s.release (.call id)).lock := rfl
    exact h.release hlock fun other hother => holds_erase hother
  | timerFires => exact h.keep rfl fun _ hholds => hholds
  | stopRuns id =>
    rw [FleetPoller.apply, FleetPoller.stopIfIdle, aclose]
    split_ifs
    · cases s.task with
      | none => exact h.keep rfl fun _ hholds => hholds
      | some i =>
        dsimp only
        split_ifs
        · refine h.keep rfl fun holder hholds => ?_
          cases holder with
          | loop j =>
            obtain ⟨t', ht', rfl, hstage⟩ := hholds
            obtain ⟨t, ht, rfl⟩ := List.mem_map.mp ht'
            refine ⟨t, ht, ?_, ?_⟩
            · split_ifs <;> rfl
            · split_ifs at hstage <;> exact hstage
          | call j => exact hholds
        · exact h.keep rfl fun _ hholds => hholds
    · exact h.keep rfl fun _ hholds => hholds
  | stopFinishes id => exact h.keep rfl fun _ hholds => hholds

/-! ## 3.  The queues -/

theorem subscribers_release (s : FleetPoller) (holder : Holder) :
    (s.release holder).subscribers = s.subscribers := by
  rw [release]
  split_ifs <;> rfl

theorem time_release (s : FleetPoller) (holder : Holder) : (s.release holder).time = s.time := by
  rw [release]
  split_ifs <;> rfl

theorem subscribers_stopIfIdle (s : FleetPoller) (id : ℕ) :
    (s.stopIfIdle id).subscribers = s.subscribers := by
  rw [stopIfIdle, aclose]
  split_ifs
  · cases s.task with
    | none => rfl
    | some i =>
      dsimp only
      split_ifs <;> rfl
  · rfl

theorem push_suffix (queue : List FleetSnapshot) (snap : FleetSnapshot) :
    push queue snap <:+ queue ++ [snap] := by
  rw [push]
  split_ifs
  · obtain ⟨dropped, hdropped⟩ := List.tail_suffix queue
    exact ⟨dropped, by rw [← List.append_assoc, hdropped]⟩
  · exact List.suffix_rfl

/-- **What an event does to a queue**: it takes from the front of it, and it adds what it
publishes. -/
theorem queue_apply {s : FleetPoller} {interval grace : ℚ} {q' : Subscriber}
    (hq' : q' ∈ (s.apply interval grace e).subscribers.rows) :
    q'.queue = [] ∨ ∃ q ∈ s.subscribers.rows, q.id = q'.id ∧
      q'.queue <:+ q.queue ++ (published e).toList := by
  have hkept : q' ∈ s.subscribers.rows → q'.queue = [] ∨ ∃ q ∈ s.subscribers.rows, q.id = q'.id ∧
      q'.queue <:+ q.queue ++ [] := fun hmem =>
    .inr ⟨q', hmem, rfl, by rw [List.append_nil]⟩
  cases e with
  | subscribe =>
    rw [apply, subscribe] at hq'
    have hmem : q' ∈ (s.subscribers.insertNew { id := s.created }).rows := by
      split_ifs at hq' <;> exact hq'
    rcases Table.mem_rows_insertNew hmem with hold | rfl
    · exact hkept hold
    · exact .inl rfl
  | unsubscribe id =>
    rw [apply, unsubscribe] at hq'
    have hmem : q' ∈ (s.subscribers.erase id).rows := by
      split_ifs at hq' <;> exact hq'
    exact hkept (Table.mem_rows_erase.mp hmem).1
  | get id =>
    obtain ⟨q, hq, heq⟩ := List.mem_map.mp hq'
    split_ifs at heq
    · obtain rfl := heq
      refine .inr ⟨q, hq, rfl, ?_⟩
      show q.queue.tail <:+ q.queue ++ []
      rw [List.append_nil]
      exact List.tail_suffix q.queue
    · exact hkept (heq ▸ hq)
  | loopFetched id result =>
    have hsame : ((s.setStage id (.sleeping (s.time + interval))).release (.loop id)).subscribers =
        s.subscribers := subscribers_release _ _
    cases result with
    | none => exact hkept (hsame ▸ hq')
    | some snap =>
      obtain ⟨q, hq, rfl⟩ := List.mem_map.mp hq'
      exact .inr ⟨q, hsame ▸ hq, rfl, push_suffix q.queue snap⟩
  | callEnters id clock =>
    rw [apply, callEnters] at hq'
    split_ifs at hq' <;> exact hkept hq'
  | loopCancelled id => exact hkept (subscribers_release s (.loop id) ▸ hq')
  | callFetched id snap => exact hkept (subscribers_release s (.call id) ▸ hq')
  | callEnds id => exact hkept (subscribers_release s (.call id) ▸ hq')
  | stopRuns id => exact hkept (subscribers_stopIfIdle s id ▸ hq')
  | _ => exact hkept hq'

section Runs

variable {interval grace : ℚ} {log : List (Transition FleetPoller PollerEvent)} {s : FleetPoller}
  (run : Run {} (next interval grace) log s)

include run

/-- **A queue holds the end of what was published since it was subscribed.** -/
theorem queue_suffix : ∀ q ∈ s.subscribers.rows, q.queue <:+ publishedTo q.id log := by
  refine Run.induct (P := fun log s => ∀ q ∈ s.subscribers.rows, q.queue <:+ publishedTo q.id log)
    nofun ?_ run
  intro log s e s' _ hqueues hnext q' hq'
  obtain ⟨-, rfl⟩ := next_eq_some.mp hnext
  rcases queue_apply hq' with hnil | ⟨q, hq, hid, hsuffix⟩
  · rw [hnil]
    exact List.nil_suffix
  · have hfind : (s.subscribers.find? q'.id).isSome = true := by
      rw [← hid, Table.find?_key hq, Option.isSome_some]
    obtain ⟨dropped, hdropped⟩ := hqueues q hq
    rw [publishedTo, if_pos hfind]
    refine hsuffix.trans ⟨dropped, ?_⟩
    rw [← List.append_assoc, hdropped, hid]

theorem getLast?_queue : ∀ x ∈ log, ∀ snap ∈ published x.event, ∀ q ∈ x.after.subscribers.rows,
    q.queue.getLast? = some snap := by
  intro x hx snap hsnap q' hq'
  obtain ⟨-, haccepted, -⟩ := run.reachable_of_mem x hx
  obtain ⟨-, hafter⟩ := next_eq_some.mp haccepted
  rw [← hafter] at hq'
  cases hevent : x.event with
  | loopFetched id result =>
    rw [hevent] at hsnap hq'
    obtain rfl : result = some snap := hsnap
    obtain ⟨q, -, rfl⟩ := List.mem_map.mp hq'
    exact List.getLast?_concat
  | _ =>
    rw [hevent] at hsnap
    cases hsnap

end Runs

/-! ## 4.  The calls -/

theorem time_stopIfIdle (s : FleetPoller) (id : ℕ) : (s.stopIfIdle id).time = s.time := by
  rw [stopIfIdle, aclose]
  split_ifs
  · cases s.task with
    | none => rfl
    | some i =>
      dsimp only
      split_ifs <;> rfl
  · rfl

theorem calls_stopIfIdle (s : FleetPoller) (id : ℕ) : (s.stopIfIdle id).calls = s.calls := by
  rw [stopIfIdle, aclose]
  split_ifs
  · cases s.task with
    | none => rfl
    | some i =>
      dsimp only
      split_ifs <;> rfl
  · rfl

/-- **What an event does to a call**: it makes it, or gives it the lock. -/
theorem call_apply {s : FleetPoller} {interval grace : ℚ} {c' : PollerCall}
    (hc' : c' ∈ (s.apply interval grace e).calls.rows) :
    c' ∈ s.calls.rows ∨ (e = .call c'.fansOut ∧ c'.id = s.created ∧ c'.holding = false) ∨
      ((∃ clock, e = .callEnters c'.id clock) ∧
        (s.apply interval grace e).lock = some (.call c'.id) ∧
        ∃ c ∈ s.calls.rows, c.id = c'.id ∧ c.fansOut = c'.fansOut) := by
  cases e with
  | subscribe =>
    rw [apply, subscribe] at hc'
    split_ifs at hc' <;> exact .inl hc'
  | unsubscribe id =>
    rw [apply, unsubscribe] at hc'
    split_ifs at hc' <;> exact .inl hc'
  | loopFetched id result =>
    have hsame : ((s.setStage id (.sleeping (s.time + interval))).release (.loop id)).calls =
        s.calls := calls_release _ _
    cases result with
    | none => exact .inl (hsame ▸ hc')
    | some snap => exact .inl (hsame ▸ hc')
  | loopCancelled id => exact .inl (calls_release s (.loop id) ▸ hc')
  | call fansOut =>
    rcases Table.mem_rows_insertNew hc' with hold | rfl
    · exact .inl hold
    · exact .inr (.inl ⟨rfl, rfl, rfl⟩)
  | callEnters id clock =>
    rw [apply, callEnters] at hc' ⊢
    split_ifs at hc' ⊢ with hfresh
    · exact .inl (Table.mem_rows_erase.mp hc').1
    · obtain ⟨c, hc, heq⟩ := List.mem_map.mp hc'
      split_ifs at heq with hid
      · obtain rfl := heq
        exact .inr (.inr ⟨⟨clock, by rw [← hid]⟩, by rw [← hid], c, hc, rfl, rfl⟩)
      · exact .inl (heq ▸ hc)
  | callFetched id snap => exact .inl (Table.mem_rows_erase.mp hc').1
  | callEnds id => exact .inl (Table.mem_rows_erase.mp hc').1
  | stopRuns id => exact .inl (calls_stopIfIdle s id ▸ hc')
  | _ => exact .inl hc'

section Runs

variable {interval grace : ℚ} {log : List (Transition FleetPoller PollerEvent)} {s : FleetPoller}
  (run : Run {} (next interval grace) log s)

include run

theorem call_made : ∀ c ∈ s.calls.rows, c.fansOut = true → (∃ z ∈ log, Calls c.id z) ∧
    (c.holding = true → ∃ y z, [y, z].Sublist log ∧ FansOut c.id y ∧ Calls c.id z) := by
  refine Run.induct (P := fun log s => ∀ c ∈ s.calls.rows, c.fansOut = true →
    (∃ z ∈ log, Calls c.id z) ∧ (c.holding = true → ∃ y z, [y, z].Sublist log ∧
      FansOut c.id y ∧ Calls c.id z)) nofun ?_ run
  intro log s e s' _ hcalls hnext c' hc' hfans
  obtain ⟨-, rfl⟩ := next_eq_some.mp hnext
  rcases call_apply hc' with hold | ⟨rfl, hid, hholding⟩ | ⟨hevent, hlock, c, hc, hid, hsame⟩
  · obtain ⟨⟨z, hz, hmade⟩, hbegun⟩ := hcalls c' hold hfans
    refine ⟨⟨z, List.mem_cons_of_mem _ hz, hmade⟩, fun hholding => ?_⟩
    obtain ⟨y, z, hsub, hrest⟩ := hbegun hholding
    exact ⟨y, z, hsub.cons _, hrest⟩
  · refine ⟨⟨_, List.mem_cons_self, by rw [hfans], hid.symm⟩, fun htrue => ?_⟩
    exact absurd (hholding.symm.trans htrue) nofun
  · obtain ⟨⟨z, hz, hmade⟩, -⟩ := hcalls c hc (hsame.trans hfans)
    rw [hid] at hmade
    refine ⟨⟨z, List.mem_cons_of_mem _ hz, hmade⟩, fun _ => ?_⟩
    exact ⟨_, z, (List.singleton_sublist.mpr hz).cons_cons _, ⟨hevent, hlock⟩, hmade⟩

/-- **A call returns what is fresh, or what it has fetched itself.** -/
theorem returned_of_run {later earlier : List (Transition FleetPoller PollerEvent)}
    {x : Transition FleetPoller PollerEvent} (hlog : log = later ++ x :: earlier) {id : ℕ}
    {snap : FleetSnapshot} (hreturned : returned interval x = some (id, snap)) :
    (∃ clock, x.event = .callEnters id clock ∧
      ((clock - snap.at_ : ℤ) : ℚ) / 1000000 < 2 * interval) ∨
    x.event = .callFetched id snap ∧
      ∃ y z, [y, z].Sublist earlier ∧ FansOut id y ∧ Calls id z := by
  rw [hlog] at run
  obtain ⟨hearlier, haccepted⟩ := run.of_append
  obtain ⟨henabled, -⟩ := next_eq_some.mp haccepted
  cases hevent : x.event with
  | callEnters i clock =>
    rw [returned, hevent] at hreturned
    dsimp only at hreturned
    split_ifs at hreturned with hcase
    obtain ⟨cached, hcached, heq⟩ := Option.map_eq_some_iff.mp hreturned
    obtain ⟨rfl, rfl⟩ := Prod.mk.inj heq
    have hfresh := hcase.1
    rw [fresh, hcached] at hfresh
    exact .inl ⟨clock, rfl, of_decide_eq_true hfresh⟩
  | callFetched i snap' =>
    rw [returned, hevent] at hreturned
    obtain ⟨rfl, rfl⟩ := Prod.mk.inj (Option.some.inj hreturned)
    rw [hevent] at henabled
    obtain ⟨c, hc, rfl, hfans, hholding⟩ := henabled
    exact .inr ⟨rfl, (call_made hearlier c hc hfans).2 hholding⟩
  | _ =>
    rw [returned, hevent] at hreturned
    cases hreturned

end Runs

/-! ## 5.  The stops -/

/-- **What an event does to the timer**: it sets it, when the last subscriber leaves. -/
theorem stopHandle_apply {s : FleetPoller} {interval grace : ℚ} (he : s.Enabled e) {h' : StopHandle}
    (hh' : h' ∈ (s.apply interval grace e).stopHandle) :
    (∃ h ∈ s.stopHandle, h.deadline = h'.deadline) ∨
      s.subscribers.rows ≠ [] ∧ h'.deadline = s.time + grace := by
  by_cases hdisturbs : Disturbs e
  · cases e with
    | subscribe =>
      rw [apply, subscribe] at hh'
      split_ifs at hh' <;> cases hh'
    | unsubscribe id =>
      rw [apply, unsubscribe] at hh'
      split_ifs at hh'
      · obtain ⟨q, hq, -⟩ := he
        obtain rfl := Option.some.inj hh'
        exact .inr ⟨List.ne_nil_of_mem hq, rfl⟩
      · exact .inl ⟨h', hh', rfl⟩
    | loopCancelled id =>
      exact .inl ⟨h', (undisturbed_release s (.loop id)).stopHandle ▸ hh', rfl⟩
    | timerFires =>
      obtain ⟨h, hh, rfl⟩ := Option.map_eq_some_iff.mp hh'
      exact .inl ⟨h, hh, rfl⟩
    | stopRuns id =>
      rw [apply, stopIfIdle, aclose] at hh'
      split_ifs at hh'
      · cases htask : s.task with
        | none =>
          rw [htask] at hh'
          cases hh'
        | some i =>
          rw [htask] at hh'
          dsimp only at hh'
          split_ifs at hh' <;> cases hh'
      · exact .inl ⟨h', hh', rfl⟩
    | stopFinishes id => exact .inl ⟨h', hh', rfl⟩
    | _ => exact hdisturbs.elim
  · exact .inl ⟨h', (undisturbed_apply s interval grace hdisturbs).stopHandle ▸ hh', rfl⟩

section Runs

variable {interval grace : ℚ} {log : List (Transition FleetPoller PollerEvent)} {s : FleetPoller}
  (run : Run {} (next interval grace) log s)

include run

theorem kept : Kept s := by
  refine Run.induct (P := fun _ s => Kept s) ?_ ?_ run
  · exact ⟨nofun, nofun, nofun, nofun, nofun, fun h => absurd rfl h, fun _ h => absurd rfl h⟩
  · intro _ s e s' _ hkept hnext
    obtain ⟨henabled, rfl⟩ := next_eq_some.mp hnext
    exact hkept.apply henabled

theorem locked : Locked s := by
  refine Run.induct (P := fun _ s => Locked s) ?_ ?_ run
  · rintro (i | i) ⟨t, ht, -⟩ <;> exact nomatch ht
  · intro _ s e s' _ hlocked hnext
    obtain ⟨henabled, rfl⟩ := next_eq_some.mp hnext
    exact hlocked.apply henabled

theorem deadline_eq : ∀ h ∈ s.stopHandle, ∃ x ∈ log, x.before.subscribers.rows ≠ [] ∧
    h.deadline = x.before.time + grace := by
  refine Run.induct (P := fun log s => ∀ h ∈ s.stopHandle, ∃ x ∈ log,
    x.before.subscribers.rows ≠ [] ∧ h.deadline = x.before.time + grace) nofun ?_ run
  intro log s e s' _ hdeadline hnext h' hh'
  obtain ⟨henabled, rfl⟩ := next_eq_some.mp hnext
  rcases stopHandle_apply henabled hh' with ⟨h, hh, hsame⟩ | ⟨hne, heq⟩
  · obtain ⟨x, hx, hrest⟩ := hdeadline h hh
    exact ⟨x, List.mem_cons_of_mem _ hx, hsame ▸ hrest⟩
  · exact ⟨_, List.mem_cons_self, hne, heq⟩

/-- **A grace period after the last subscriber has left, no loop is left.** -/
theorem loops_eq_nil (hnobody : s.subscribers.rows = [])
    (hgrace : ∀ x ∈ log, x.before.subscribers.rows ≠ [] → x.before.time + grace ≤ s.time)
    (hsettled : s.Settled) : s.loops.rows = [] := by
  have hkept := kept run
  have htask : s.task = none := by
    by_contra hne
    rcases hkept.stopping hnobody hne with ⟨h, hh, hfired⟩ | ⟨t, ht, hawaiting⟩
    · -- the timer is due
      obtain ⟨x, hx, hsubscribed, hdeadline⟩ := deadline_eq run h hh
      exact hsettled .timerFires trivial
        ⟨h, hh, hfired, hdeadline.trans_le (hgrace x hx hsubscribed)⟩
    · exact hsettled (.stopRuns t.id) trivial ⟨t, ht, rfl, hawaiting⟩
  refine List.eq_nil_iff_forall_not_mem.mpr fun t ht => ?_
  cases hcancelled : t.cancelled with
  | false => exact absurd (htask.symm.trans (hkept.runs_task t ht hcancelled)) nofun
  | true => exact hsettled (.loopCancelled t.id) trivial ⟨t, ht, rfl, hcancelled⟩

end Runs

theorem timerWork_congr {s s' : FleetPoller} (hhandle : s'.stopHandle = s.stopHandle)
    (htime : s'.time = s.time) : s'.timerWork = s.timerWork := by
  rw [timerWork, timerWork]
  refine if_congr ?_ rfl rfl
  rw [Enabled, Enabled, hhandle, htime]

theorem timerWork_eq_zero {s : FleetPoller} (h : s.stopHandle = none) : s.timerWork = 0 := by
  rw [timerWork, if_neg]
  rintro ⟨handle, hhandle, -⟩
  exact absurd (h.symm.trans hhandle) nofun

theorem stopWork_pos (t : StopTask) : 0 < stopWork t := by
  rw [stopWork]
  split_ifs
  · exact Nat.zero_lt_succ 2
  · exact Nat.one_pos

theorem work_lt_of_erase {s s' : FleetPoller} {t : StopTask} (ht : t ∈ s.stops.rows)
    (hstops : s'.stops = s.stops.erase t.id) (hloops : s'.loops = s.loops)
    (htimer : s'.timerWork ≤ s.timerWork) : s'.work < s.work := by
  have hsum := Table.sum_erase ht stopWork
  have hpos := stopWork_pos t
  rw [work, work, hstops, hloops, hsum]
  omega

theorem work_lt_of_cancel {s s' : FleetPoller} {t : StopTask} {loop : LoopTask}
    (ht : t ∈ s.stops.rows) (hawaiting : t.awaiting = none) (hloop : loop ∈ s.loops.rows)
    (htimer : s'.stopHandle = none)
    (hstops : s'.stops = s.stops.modify t.id (fun t => { t with awaiting := some loop.id })
      fun _ h => h)
    (hloops : s'.loops = s.loops.modify loop.id (fun t => { t with cancelled := true })
      fun _ h => h) : s'.work < s.work := by
  have hthree : stopWork t = 3 := if_pos hawaiting
  have hone : stopWork { t with awaiting := some loop.id } = 1 := if_neg nofun
  have hcancelled : loopWork { loop with cancelled := true } = 1 := if_pos rfl
  rw [work, work, timerWork_eq_zero htimer, hstops, hloops, Table.sum_erase ht stopWork,
    Table.sum_erase hloop loopWork, Table.sum_modify ht, Table.sum_modify hloop, hthree, hone,
    hcancelled]
  omega

theorem work_aclose_lt {s : FleetPoller} {t : StopTask} (ht : t ∈ s.stops.rows)
    (hawaiting : t.awaiting = none) : (s.aclose t.id).work < s.work := by
  rw [aclose]
  cases s.task with
  | none => exact work_lt_of_erase ht rfl rfl ((timerWork_eq_zero rfl).trans_le (Nat.zero_le _))
  | some i =>
    dsimp only
    split_ifs with hruns
    · obtain ⟨loop, hloop⟩ := Option.isSome_iff_exists.mp hruns
      obtain ⟨hmem, rfl⟩ := Table.find?_eq_some_iff.mp hloop
      exact work_lt_of_cancel ht hawaiting hmem rfl rfl rfl
    · exact work_lt_of_erase ht rfl rfl ((timerWork_eq_zero rfl).trans_le (Nat.zero_le _))

/-- **Each part of a stop leaves less of it to be done.** -/
theorem work_apply_lt {s : FleetPoller} (hs : Kept s) {interval grace : ℚ} (hstops : Stops e)
    (he : s.Enabled e) : (s.apply interval grace e).work < s.work := by
  cases e with
  | timerFires =>
    have hfour : s.timerWork = 4 := if_pos he
    have hzero : (s.apply interval grace .timerFires).timerWork = 0 := by
      rw [timerWork, if_neg]
      rintro ⟨h', hh', hfired, -⟩
      obtain ⟨h, -, rfl⟩ := Option.map_eq_some_iff.mp hh'
      cases hfired
    have hnone : s.stops.find? s.created = none :=
      Table.find?_eq_none_iff.mpr fun t ht => (hs.fresh_stops t ht).ne
    have hsum : ((s.apply interval grace .timerFires).stops.rows.map stopWork).sum =
        (s.stops.rows.map stopWork).sum + 3 := by
      have hrows := Table.insertNew_of_none (a := ({ id := s.created } : StopTask)) hnone
      rw [apply, hrows, List.map_append, List.sum_append]
      rfl
    have hloops : (s.apply interval grace .timerFires).loops = s.loops := rfl
    rw [work, work, hfour, hzero, hsum, hloops]
    omega
  | stopRuns id =>
    obtain ⟨t, ht, rfl, hawaiting⟩ := he
    rw [apply, stopIfIdle]
    split_ifs
    · exact work_aclose_lt ht hawaiting
    · exact work_lt_of_erase ht rfl rfl (timerWork_congr rfl rfl).le
  | stopFinishes id =>
    obtain ⟨t, ht, rfl, -⟩ := he
    exact work_lt_of_erase ht rfl rfl (timerWork_congr rfl rfl).le
  | loopCancelled id =>
    obtain ⟨t, ht, rfl, hcancelled⟩ := he
    have hsame := undisturbed_release s (.loop t.id)
    have htimer : (s.apply interval grace (.loopCancelled t.id)).timerWork = s.timerWork :=
      timerWork_congr hsame.stopHandle (time_release s _)
    have hstops : (s.apply interval grace (.loopCancelled t.id)).stops = s.stops := hsame.stops
    have hloops : (s.apply interval grace (.loopCancelled t.id)).loops = s.loops.erase t.id := rfl
    have hsum := Table.sum_erase ht loopWork
    have hone : loopWork t = 1 := if_pos hcancelled
    rw [work, work, htimer, hstops, hloops, hsum, hone]
    omega
  | _ => exact hstops.elim

theorem unsubscribed_apply {s : FleetPoller} {interval grace : ℚ} (hstops : Stops e) :
    (s.apply interval grace e).subscribers = s.subscribers ∧
      (s.apply interval grace e).time = s.time := by
  cases e with
  | timerFires => exact ⟨rfl, rfl⟩
  | stopRuns id => exact ⟨subscribers_stopIfIdle s id, time_stopIfIdle s id⟩
  | stopFinishes id => exact ⟨rfl, rfl⟩
  | loopCancelled id => exact ⟨subscribers_release s _, time_release s _⟩
  | _ => exact hstops.elim

/-! ## 6.  The poller -/

/-- **In every run of the poller**, however the events come and the fan-outs end, one loop runs
while somebody is subscribed, and none is left a grace period after the last has left; one fan-out
is in progress at a time; a queue holds the end of what was published; and a call returns what is
fresh, or what it has fetched. -/
theorem poller_lawful (interval grace : ℚ) {log : List (Transition FleetPoller PollerEvent)}
    {s : FleetPoller} (run : Run {} (next interval grace) log s) : Law interval grace log s where
  one_loop hne := by
    obtain ⟨i, hi⟩ := Option.ne_none_iff_exists'.mp ((kept run).watched hne).1
    exact ⟨i, hi, (kept run).active_eq hi⟩
  goes_on hne e s' hnext := by
    obtain ⟨henabled, rfl⟩ := next_eq_some.mp hnext
    exact (kept run).active_apply hne henabled
  none_left := loops_eq_nil run
  settles e s' hstops hnext := by
    obtain ⟨henabled, rfl⟩ := next_eq_some.mp hnext
    exact ⟨work_apply_lt (kept run) hstops henabled, unsubscribed_apply hstops⟩
  one_fan_out := (locked run).length_fanOuts_le
  queues := queue_suffix run
  newest := getLast?_queue run
  returns _ _ _ hlog _ _ hreturned := returned_of_run run hlog hreturned

/-- A subscriber gets a snapshot and leaves; a grace period later the loop is stopped. -/
def visit : List PollerEvent :=
  [.subscribe, .loopEnters 1, .loopFetched 1 (some { at_ := 0 }), .get 0, .unsubscribe 0, .tick 30,
    .timerFires, .stopRuns 2, .loopCancelled 1, .stopFinishes 2]

theorem poller_lawful_visit : ∃ log s, Run {} (next 2 30) log s ∧ s.loops.rows = [] ∧
    log.length = 10 ∧ Law 2 30 log s := by
  have hscript : (runScript (next 2 30) ([], {}) visit).map
      (fun p => (p.1.length, p.2.loops.rows)) = some (10, []) := by
    decide +kernel
  obtain ⟨log, s, run, heq⟩ := Run.exists_of_runScript hscript
  obtain ⟨hlength, hloops⟩ := Prod.mk.inj heq
  exact ⟨log, s, run, hloops, hlength, poller_lawful 2 30 run⟩

end FleetPoller

end Kroker
