import Kroker.Build.Plan
import Kroker.Library.Run

/-!
# The scheduler of a build

`run_tasks` of `workflows/build.py`, with the host's `_dev_task`, `_merge_task` and `_check_budget`
as what it awaits.  A state is the scheduler between two of its awaits, and an event is the
completion of what is awaited; the tasks of a wave complete in any order.  `waves` records what was
handed to `_dev_task`, and `integrated` what `_merge_task` has merged.

In serial mode a wave is the first ready task.  In wave mode it is the ready tasks, in plan order,
without those that share a declared overlap with an earlier one of the wave.

A schedule is as it should be (`Schedules`) when the scheduler never gives up for want of a ready
task, starts a task only after what it depends on is finished and integrated, keeps declared
overlaps out of a wave, and, undisturbed, ends and has then run every task of the plan once.

## Whether the validator is enough

The validator and the scheduler traverse one graph, so what the first accepts has no cycle for the
second to meet (`exists_ready`).  They read it through a dictionary, and the plan is a list.
-/

namespace Kroker.Build

inductive ExecutionMode where
  | serial
  | waves

/-- The status of a `TaskResult`, of which `_dev_task` returns these two. -/
inductive ResultStatus where
  | done
  | quarantined
  deriving DecidableEq

structure TaskResult where
  taskId : String
  status : ResultStatus
  deriving DecidableEq

inductive BuildFailure where
  | dependencyCycle
  | integrationConflict (tid : String)
  | quarantinedTasks
  deriving DecidableEq

def BuildFailure.text : BuildFailure → String
  | .dependencyCycle => "failed:dependency-cycle"
  | .integrationConflict tid => "failed:integration-conflict:" ++ tid
  | .quarantinedTasks => "failed:quarantined-tasks"

inductive BuildPhase where
  /-- At the head of its loop. -/
  | choosing
  /-- The tasks of a wave are executed. -/
  | running (batch : List DevTask)
  /-- These finished tasks of the wave are still to be merged, the first of them now. -/
  | merging (queue : List String)
  /-- In `_check_budget`. -/
  | checking
  | returned (failure : Option BuildFailure)
  | raised
  deriving DecidableEq

structure Scheduler where
  remaining : Table DevTask.id
  done : Table TaskResult.taskId := ∅
  phase : BuildPhase := .choosing
  waves : List (List DevTask) := []
  integrated : List String := []

inductive BuildEvent where
  | choose
  /-- `run_one` has returned for this task. -/
  | finish (tid : String) (status : ResultStatus)
  | merged
  | conflicts
  | withinBudget
  /-- What is awaited raises: a task, a merge, or the budget gate. -/
  | raises
  deriving DecidableEq

/-- Whether nothing goes wrong in an event. -/
def BuildEvent.benign : BuildEvent → Bool
  | .choose => true
  | .finish _ status => status = .done
  | .merged => true
  | .conflicts => false
  | .withinBudget => true
  | .raises => false

namespace Scheduler

/-- Where `run_tasks` starts. -/
def start (tasks : List DevTask) : Scheduler := { remaining := tasksById tasks }

def ready (s : Scheduler) : List DevTask :=
  s.remaining.rows.filter fun t => t.dependsOn.all fun d => (s.done.find? d).isSome

/-- The ready tasks of a wave, `seen` being the overlaps of those it has. -/
def waveOf : List DevTask → List String → List DevTask
  | [], _ => []
  | t :: ts, seen =>
    if t.overlaps.all (· ∉ seen) then t :: waveOf ts (seen ++ t.overlaps) else waveOf ts seen

def batchOf (mode : ExecutionMode) (ready : List DevTask) : List DevTask :=
  match mode with
  | .serial => ready.take 1
  | .waves => waveOf ready []

/-- The head of the loop. -/
def choose (mode : ExecutionMode) (s : Scheduler) : Scheduler :=
  if s.remaining.rows = [] then { s with phase := .returned none }
  else if s.ready = [] then { s with phase := .returned (some .dependencyCycle) }
  else
    { s with
      phase := .running (batchOf mode s.ready)
      waves := s.waves ++ [batchOf mode s.ready] }

/-- From the last merge of a wave to the next await. -/
def afterMerges (s : Scheduler) : Scheduler :=
  if s.done.rows.any (·.status = .quarantined) then
    { s with phase := .returned (some .quarantinedTasks) }
  else { s with phase := .checking }

/-- With these tasks still to be merged. -/
def mergeNext (s : Scheduler) (queue : List String) : Scheduler :=
  match queue with
  | [] => s.afterMerges
  | _ :: _ => { s with phase := .merging queue }

def mergeable (s : Scheduler) (batch : List DevTask) : List String :=
  (batch.map (·.id)).filter fun tid => s.done.find? tid = some ⟨tid, .done⟩

/-- The end of `run_one`. -/
def record (s : Scheduler) (tid : String) (status : ResultStatus) : Scheduler :=
  { s with
    done := s.done.put ⟨tid, status⟩
    remaining := s.remaining.erase tid }

/-- A task of the wave returns; after the last, the merges begin. -/
def finish (s : Scheduler) (batch : List DevTask) (tid : String) (status : ResultStatus) :
    Scheduler :=
  let s := s.record tid status
  if ∃ t ∈ batch, t ∈ s.remaining.rows then s else s.mergeNext (s.mergeable batch)

/-- One event; `none` where it cannot occur. -/
def next (mode : ExecutionMode) (s : Scheduler) (e : BuildEvent) : Option Scheduler :=
  match s.phase, e with
  | .choosing, .choose => some (s.choose mode)
  | .running batch, .finish tid status =>
    if ∃ t ∈ batch, t ∈ s.remaining.rows ∧ t.id = tid then some (s.finish batch tid status)
    else none
  | .merging (tid :: queue), .merged =>
    some ({ s with integrated := s.integrated ++ [tid] }.mergeNext queue)
  | .merging (tid :: _), .conflicts =>
    some { s with phase := .returned (some (.integrationConflict tid)) }
  | .checking, .withinBudget => some { s with phase := .choosing }
  | .running _, .raises => some { s with phase := .raised }
  | .merging _, .raises => some { s with phase := .raised }
  | .checking, .raises => some { s with phase := .raised }
  | _, _ => none

/-! ## 1. Waves -/

/-- Two tasks without a common declared overlap. -/
def Apart (t u : DevTask) : Prop := ∀ o ∈ t.overlaps, o ∉ u.overlaps

theorem waveOf_sublist (ts : List DevTask) (seen : List String) : (waveOf ts seen).Sublist ts := by
  induction ts generalizing seen with
  | nil => exact List.Sublist.slnil
  | cons t ts ih =>
    rw [waveOf]
    split
    · exact (ih _).cons_cons t
    · exact (ih _).cons t

theorem batchOf_sublist (mode : ExecutionMode) (ts : List DevTask) :
    (batchOf mode ts).Sublist ts := by
  cases mode with
  | serial => exact List.take_sublist 1 ts
  | waves => exact waveOf_sublist ts []

theorem batchOf_ne_nil (mode : ExecutionMode) {ts : List DevTask} (h : ts ≠ []) :
    batchOf mode ts ≠ [] := by
  obtain ⟨t, ts, rfl⟩ := List.exists_cons_of_ne_nil h
  cases mode <;> simp [batchOf, waveOf]

variable {t : DevTask}

theorem notMem_seen_of_mem_waveOf {ts : List DevTask} {seen : List String} (h : t ∈ waveOf ts seen) :
    ∀ o ∈ seen, o ∉ t.overlaps := by
  induction ts generalizing seen with
  | nil => exact nomatch h
  | cons u us ih =>
    rw [waveOf] at h
    split at h
    · rename_i hapart
      rcases List.mem_cons.mp h with rfl | h
      · intro o ho hot
        exact of_decide_eq_true (List.all_eq_true.mp hapart o hot) ho
      · exact fun o ho => ih h o (List.mem_append_left _ ho)
    · exact ih h

/-- **The tasks of a wave are apart.** -/
theorem pairwise_batchOf (mode : ExecutionMode) (ts : List DevTask) :
    (batchOf mode ts).Pairwise Apart := by
  cases mode with
  | serial =>
    cases ts with
    | nil => exact List.Pairwise.nil
    | cons t ts => exact List.pairwise_singleton _ _
  | waves =>
    suffices h : ∀ seen, (waveOf ts seen).Pairwise Apart from h []
    induction ts with
    | nil => exact fun seen => List.Pairwise.nil
    | cons t ts ih =>
      intro seen
      rw [waveOf]
      split
      · refine List.pairwise_cons.mpr ⟨fun u hu o ho => ?_, ih _⟩
        exact notMem_seen_of_mem_waveOf hu o (List.mem_append_right _ ho)
      · exact ih seen

/-! ## 2. What an event can do -/

def Ended (s : Scheduler) : Prop :=
  match s.phase with
  | .returned _ => True
  | .raised => True
  | _ => False

inductive StepCase (mode : ExecutionMode) (s : Scheduler) : BuildEvent → Scheduler → Prop
  | choose (hphase : s.phase = .choosing) : StepCase mode s .choose (s.choose mode)
  | finish {batch : List DevTask} {t : DevTask} (status : ResultStatus)
      (hphase : s.phase = .running batch) (hbatch : t ∈ batch) (hrow : t ∈ s.remaining.rows) :
      StepCase mode s (.finish t.id status) (s.finish batch t.id status)
  | merged {tid : String} {queue : List String} (hphase : s.phase = .merging (tid :: queue)) :
      StepCase mode s .merged ({ s with integrated := s.integrated ++ [tid] }.mergeNext queue)
  | conflicts {tid : String} {queue : List String} (hphase : s.phase = .merging (tid :: queue)) :
      StepCase mode s .conflicts
        { s with phase := .returned (some (.integrationConflict tid)) }
  | withinBudget (hphase : s.phase = .checking) :
      StepCase mode s .withinBudget { s with phase := .choosing }
  | raises (hphase : ¬ s.Ended) (hbusy : s.phase ≠ .choosing) :
      StepCase mode s .raises { s with phase := .raised }

variable {e : BuildEvent}

theorem next_cases {mode : ExecutionMode} {s s' : Scheduler} (h : next mode s e = some s') :
    StepCase mode s e s' := by
  unfold next at h
  split at h
  · rename_i hphase
    exact Option.some.inj h ▸ StepCase.choose hphase
  · rename_i batch tid status hphase
    split at h
    · rename_i hflying
      obtain ⟨t, hbatch, hrow, rfl⟩ := hflying
      exact Option.some.inj h ▸ StepCase.finish status hphase hbatch hrow
    · exact nomatch h
  · rename_i hphase
    exact Option.some.inj h ▸ StepCase.merged hphase
  · rename_i hphase
    exact Option.some.inj h ▸ StepCase.conflicts hphase
  · rename_i hphase
    exact Option.some.inj h ▸ StepCase.withinBudget hphase
  · rename_i hphase
    exact Option.some.inj h ▸ StepCase.raises (by simp [Ended, hphase]) (by simp [hphase])
  · rename_i hphase
    exact Option.some.inj h ▸ StepCase.raises (by simp [Ended, hphase]) (by simp [hphase])
  · rename_i hphase
    exact Option.some.inj h ▸ StepCase.raises (by simp [Ended, hphase]) (by simp [hphase])
  · exact nomatch h

/-! ## 3. The books -/

/-- Every task handed to `_dev_task`, in order. -/
def started (s : Scheduler) : List DevTask := s.waves.flatten

/-- What is booked while the tasks `flying` are executed: each planned task is remaining or done,
and those are started once that are not remaining or are in flight. -/
structure Booked (tasks flying : List DevTask) (s : Scheduler) : Prop where
  planned : ∀ t ∈ s.remaining.rows, t ∈ (tasksById tasks).rows
  done_iff : ∀ t ∈ (tasksById tasks).rows, (s.done.find? t.id).isSome ↔ t ∉ s.remaining.rows
  nodup : s.started.Nodup
  mem_started : ∀ t, t ∈ s.started ↔
    t ∈ (tasksById tasks).rows ∧ (t ∈ s.remaining.rows → t ∈ flying)

variable {tasks flying batch : List DevTask} {mode : ExecutionMode} {s s' : Scheduler}

theorem booked_start (tasks : List DevTask) : Booked tasks [] (start tasks) where
  planned := fun t ht => ht
  done_iff := fun t ht => by simp [start, ht]
  nodup := List.nodup_nil
  mem_started := fun t => by simp [start, started]

theorem eq_of_id_eq {u : DevTask} (ht : t ∈ (tasksById tasks).rows)
    (hu : u ∈ (tasksById tasks).rows) (h : t.id = u.id) : t = u :=
  List.inj_on_of_nodup_map (tasksById tasks).keys_nodup ht hu h

theorem Booked.record (h : Booked tasks flying s) (hflying : t ∈ flying)
    (hrow : t ∈ s.remaining.rows) (status : ResultStatus) :
    Booked tasks flying (s.record t.id status) where
  planned := fun u hu => h.planned u (Table.mem_rows_erase.mp hu).1
  done_iff := by
    intro u hu
    have hfind : (s.record t.id status).done.find? u.id =
        if t.id = u.id then some ⟨t.id, status⟩ else s.done.find? u.id :=
      Table.find?_put s.done ⟨t.id, status⟩ u.id
    have hmem : u ∈ (s.record t.id status).remaining.rows ↔ u ∈ s.remaining.rows ∧ u.id ≠ t.id :=
      Table.mem_rows_erase
    rw [hfind, hmem]
    by_cases hid : t.id = u.id
    · simp [hid]
    · simp [hid, Ne.symm hid, h.done_iff u hu]
  nodup := h.nodup
  mem_started := by
    intro u
    have hmem : u ∈ (s.record t.id status).remaining.rows ↔ u ∈ s.remaining.rows ∧ u.id ≠ t.id :=
      Table.mem_rows_erase
    rw [show u ∈ (s.record t.id status).started ↔ _ from h.mem_started u, hmem]
    refine and_congr_right fun hu => ⟨fun himp hboth => himp hboth.1, fun himp hrem => ?_⟩
    by_cases hid : u.id = t.id
    · rw [eq_of_id_eq hu (h.planned t hrow) hid]
      exact hflying
    · exact himp ⟨hrem, hid⟩

theorem Booked.landed (h : Booked tasks flying s) (hnone : ∀ t ∈ flying, t ∉ s.remaining.rows) :
    Booked tasks [] s where
  planned := h.planned
  done_iff := h.done_iff
  nodup := h.nodup
  mem_started := by
    intro t
    rw [h.mem_started t]
    refine and_congr_right fun _ => ⟨fun himp hrem => ?_, fun himp hrem => ?_⟩
    · exact absurd hrem (hnone t (himp hrem))
    · exact absurd (himp hrem) List.not_mem_nil

theorem Booked.launch (h : Booked tasks [] s) (hbatch : batch.Sublist s.remaining.rows) :
    Booked tasks batch
      { s with
        phase := .running batch
        waves := s.waves ++ [batch] } where
  planned := h.planned
  done_iff := h.done_iff
  nodup := by
    have hrows : s.remaining.rows.Nodup := List.Nodup.of_map _ s.remaining.keys_nodup
    show (s.waves ++ [batch]).flatten.Nodup
    rw [List.flatten_append, List.flatten_singleton, List.nodup_append]
    refine ⟨h.nodup, hrows.sublist hbatch, fun t ht u hu htu => ?_⟩
    subst htu
    exact List.not_mem_nil (((h.mem_started t).mp ht).2 (hbatch.subset hu))
  mem_started := by
    intro t
    show t ∈ (s.waves ++ [batch]).flatten ↔ _
    rw [List.flatten_append, List.flatten_singleton, List.mem_append,
      show t ∈ s.waves.flatten ↔ _ from h.mem_started t]
    constructor
    · rintro (⟨ht, himp⟩ | ht)
      · exact ⟨ht, fun hrem => absurd (himp hrem) List.not_mem_nil⟩
      · exact ⟨h.planned t (hbatch.subset ht), fun _ => ht⟩
    · rintro ⟨ht, himp⟩
      by_cases hrem : t ∈ s.remaining.rows
      · exact Or.inr (himp hrem)
      · exact Or.inl ⟨ht, fun h => absurd h hrem⟩

def inFlight (s : Scheduler) : List DevTask :=
  match s.phase with
  | .running batch => batch
  | _ => []

/-- What is integrated at each await: between waves, everything that is done. -/
def Merged (s : Scheduler) : Prop :=
  match s.phase with
  | .choosing => ∀ r ∈ s.done.rows, r.taskId ∈ s.integrated
  | .running batch => batch.Nodup ∧ (∃ t ∈ batch, t ∈ s.remaining.rows) ∧
      ∀ r ∈ s.done.rows, r.taskId ∈ s.integrated ∨ r.taskId ∈ batch.map (·.id)
  | .merging queue => queue ≠ [] ∧
      ∀ r ∈ s.done.rows, r.status = .done → r.taskId ∈ s.integrated ∨ r.taskId ∈ queue
  | .checking => ∀ r ∈ s.done.rows, r.taskId ∈ s.integrated
  | .returned failure => failure ≠ some .dependencyCycle ∧
      (failure = none → s.remaining.rows = [])
  | .raised => True

/-- **The invariant of the scheduler.** -/
structure Inv (tasks : List DevTask) (s : Scheduler) : Prop where
  booked : s.phase ≠ .raised → Booked tasks s.inFlight s
  merged : s.Merged

theorem inv_mergeNext {queue : List String} (hbooked : Booked tasks [] s)
    (hmerged : ∀ r ∈ s.done.rows, r.status = .done → r.taskId ∈ s.integrated ∨ r.taskId ∈ queue) :
    Inv tasks (s.mergeNext queue) := by
  have hkept : ∀ phase, Booked tasks [] { s with phase := phase } := fun phase =>
    ⟨hbooked.planned, hbooked.done_iff, hbooked.nodup, hbooked.mem_started⟩
  cases queue with
  | cons tid queue => exact ⟨fun _ => hkept _, List.cons_ne_nil _ _, hmerged⟩
  | nil =>
    rw [mergeNext, afterMerges]
    split
    · exact ⟨fun _ => hkept _, nofun, nofun⟩
    · rename_i hnone
      refine ⟨fun _ => hkept _, fun r hr => ?_⟩
      have hdone : r.status = .done := by
        cases hstatus : r.status with
        | done => rfl
        | quarantined =>
          exact absurd (List.any_eq_true.mpr ⟨r, hr, by simp [hstatus]⟩) hnone
      exact (hmerged r hr hdone).resolve_right List.not_mem_nil

theorem mem_done_record {tid : String} {status : ResultStatus} {r : TaskResult}
    (h : r ∈ (s.record tid status).done.rows) : r = ⟨tid, status⟩ ∨ r ∈ s.done.rows := by
  have hfind := Table.find?_key h
  rw [show (s.record tid status).done = s.done.put ⟨tid, status⟩ from rfl, Table.find?_put] at hfind
  split at hfind
  · exact Or.inl (Option.some.inj hfind).symm
  · exact Or.inr (Table.find?_eq_some_iff.mp hfind).1

/-! ## 4. No cycle is met -/

/-- **Some remaining task is ready**: of an accepted plan, a remaining task is ready or depends on a
remaining one, and there is no infinite chain of these. -/
theorem exists_ready (hplan : SoundPlan tasks) (h : Booked tasks flying s)
    (hne : s.remaining.rows ≠ []) : s.ready ≠ [] := by
  suffices hacc : ∀ tid, Acc (fun d tid => d ∈ dependenciesOf tasks tid) tid →
      ∀ t ∈ s.remaining.rows, t.id = tid → s.ready ≠ [] by
    obtain ⟨t, ts, hrows⟩ := List.exists_cons_of_ne_nil hne
    have ht : t ∈ s.remaining.rows := hrows ▸ List.mem_cons_self
    exact hacc t.id (hplan.acc t (mem_of_mem_tasksById (h.planned t ht))) t ht rfl
  intro tid hacc
  induction hacc with
  | intro tid _ ih =>
    intro t ht htid
    have hmem : t ∈ tasks := mem_of_mem_tasksById (h.planned t ht)
    by_cases hready : t.dependsOn.all fun d => (s.done.find? d).isSome
    · exact List.ne_nil_of_mem (List.mem_filter.mpr ⟨ht, hready⟩)
    · rw [List.all_eq_true] at hready
      push Not at hready
      obtain ⟨d, hd, hdone⟩ := hready
      obtain ⟨u, hu, hud⟩ := List.mem_map.mp (hplan.known t hmem d hd)
      obtain ⟨row, hrow, hid⟩ := exists_mem_tasksById hu
      have hrowd : row.id = d := hid.trans hud
      have hrem : row ∈ s.remaining.rows := by
        by_contra hrem
        exact hdone (hrowd ▸ (h.done_iff row hrow).mpr hrem)
      refine ih d ?_ row hrem hrowd
      rw [← htid, dependenciesOf_of_mem (h.planned t ht)]
      exact hd

theorem ready_sublist (s : Scheduler) : s.ready.Sublist s.remaining.rows := List.filter_sublist

theorem inv_choose (hplan : SoundPlan tasks) (h : Inv tasks s) (hphase : s.phase = .choosing) :
    Inv tasks (s.choose mode) := by
  have hbooked : Booked tasks [] s := by
    have := h.booked (by simp [hphase])
    rwa [inFlight, hphase] at this
  have hmerged : ∀ r ∈ s.done.rows, r.taskId ∈ s.integrated := by
    have := h.merged
    rwa [Merged, hphase] at this
  have hkept : ∀ phase, Booked tasks [] { s with phase := phase } := fun phase =>
    ⟨hbooked.planned, hbooked.done_iff, hbooked.nodup, hbooked.mem_started⟩
  rw [choose]
  split
  · rename_i hnil
    exact ⟨fun _ => hkept _, nofun, fun _ => hnil⟩
  · rename_i hne
    have hready := exists_ready hplan hbooked hne
    have hsub := (batchOf_sublist mode s.ready).trans s.ready_sublist
    rw [if_neg hready]
    have hnodup := (List.Nodup.of_map _ s.remaining.keys_nodup).sublist hsub
    refine ⟨fun _ => hbooked.launch hsub, hnodup, ?_, fun r hr => Or.inl (hmerged r hr)⟩
    obtain ⟨t, ts, hbatch⟩ := List.exists_cons_of_ne_nil (batchOf_ne_nil mode hready)
    have ht : t ∈ batchOf mode s.ready := hbatch ▸ List.mem_cons_self
    exact ⟨t, ht, hsub.subset ht⟩

theorem inv_finish (h : Inv tasks s) (hphase : s.phase = .running batch) (hbatch : t ∈ batch)
    (hrow : t ∈ s.remaining.rows) (status : ResultStatus) :
    Inv tasks (s.finish batch t.id status) := by
  have hbooked : Booked tasks batch (s.record t.id status) := by
    have := h.booked (by simp [hphase])
    rw [inFlight, hphase] at this
    exact this.record hbatch hrow status
  have hbefore := h.merged
  rw [Merged, hphase] at hbefore
  have hmerged : ∀ r ∈ (s.record t.id status).done.rows,
      r.taskId ∈ s.integrated ∨ r.taskId ∈ batch.map (·.id) := by
    intro r hr
    rcases mem_done_record hr with rfl | hr
    · exact Or.inr (List.mem_map_of_mem hbatch)
    · exact hbefore.2.2 r hr
  rw [finish]
  split
  · rename_i hflying
    have hsame : (s.record t.id status).phase = .running batch := hphase
    refine ⟨fun _ => ?_, ?_⟩
    · rwa [inFlight, hsame]
    · rw [Merged, hsame]
      exact ⟨hbefore.1, hflying, hmerged⟩
  · rename_i hlanded
    refine inv_mergeNext (hbooked.landed fun u hu hrem => hlanded ⟨u, hu, hrem⟩)
      fun r hr hstatus => (hmerged r hr).imp_right fun hid => ?_
    refine List.mem_filter.mpr ⟨hid, ?_⟩
    rw [decide_eq_true_eq, Table.find?_key hr, ← hstatus]

/-- **Every event keeps the invariant.** -/
theorem inv_next (hplan : SoundPlan tasks) (h : Inv tasks s) (hstep : next mode s e = some s') :
    Inv tasks s' := by
  have hbooked := h.booked
  have hmerged := h.merged
  cases next_cases hstep with
  | choose hphase => exact inv_choose hplan h hphase
  | finish status hphase hbatch hrow => exact inv_finish h hphase hbatch hrow status
  | @merged tid queue hphase =>
    have hbefore : Booked tasks [] s := by simpa [inFlight, hphase] using hbooked
    rw [Merged, hphase] at hmerged
    refine inv_mergeNext ⟨hbefore.planned, hbefore.done_iff, hbefore.nodup, hbefore.mem_started⟩
      fun r hr hstatus => ?_
    rcases hmerged.2 r hr hstatus with hin | hin
    · exact Or.inl (List.mem_append_left _ hin)
    · rcases List.mem_cons.mp hin with rfl | hin
      · exact Or.inl (List.mem_append_right _ (List.mem_singleton.mpr rfl))
      · exact Or.inr hin
  | conflicts hphase =>
    have hbefore : Booked tasks [] s := by simpa [inFlight, hphase] using hbooked
    exact ⟨fun _ => ⟨hbefore.planned, hbefore.done_iff, hbefore.nodup, hbefore.mem_started⟩,
      nofun, nofun⟩
  | withinBudget hphase =>
    have hbefore : Booked tasks [] s := by simpa [inFlight, hphase] using hbooked
    rw [Merged, hphase] at hmerged
    exact ⟨fun _ => ⟨hbefore.planned, hbefore.done_iff, hbefore.nodup, hbefore.mem_started⟩, hmerged⟩
  | raises hphase hbusy => exact ⟨fun hne => absurd rfl hne, trivial⟩

theorem inv_start (tasks : List DevTask) : Inv tasks (start tasks) :=
  ⟨fun _ => booked_start tasks, nofun⟩

theorem inv_of_reachable (hplan : SoundPlan tasks)
    (h : Reachable (start tasks) (next mode) s) : Inv tasks s :=
  h.induct (inv_start tasks) fun _ _ _ _ hinv hstep => inv_next hplan hinv hstep

/-! ## 5. Every run ends -/

/-- How many events are left at most: for each remaining task its return, its merge, and a wave and
a budget check of its own. -/
def left (s : Scheduler) : ℕ :=
  match s.phase with
  | .choosing => 4 * s.remaining.rows.length + 2
  | .running batch =>
    4 * s.remaining.rows.length + (batch.filter (· ∉ s.remaining.rows)).length + 1
  | .merging queue => 4 * s.remaining.rows.length + queue.length + 3
  | .checking => 4 * s.remaining.rows.length + 3
  | .returned _ => 0
  | .raised => 0

theorem left_mergeNext (s : Scheduler) (queue : List String) :
    (s.mergeNext queue).left ≤ 4 * s.remaining.rows.length + queue.length + 3 := by
  cases queue with
  | cons tid queue => exact le_refl _
  | nil =>
    rw [mergeNext, afterMerges]
    split
    · exact Nat.zero_le _
    · exact le_refl _

theorem length_landed_le (hnodup : batch.Nodup) (hrow : t ∈ s.remaining.rows) :
    (batch.filter (· ∉ (s.remaining.erase t.id).rows)).length ≤
      (batch.filter (· ∉ s.remaining.rows)).length + 1 := by
  have hsub : batch.filter (· ∉ (s.remaining.erase t.id).rows) ⊆
      t :: batch.filter (· ∉ s.remaining.rows) := by
    intro u hu
    obtain ⟨hmem, hgone⟩ := List.mem_filter.mp hu
    rw [decide_eq_true_eq, Table.mem_rows_erase, not_and_not_right] at hgone
    by_cases hrem : u ∈ s.remaining.rows
    · rw [List.inj_on_of_nodup_map s.remaining.keys_nodup hrem hrow (hgone hrem)]
      exact List.mem_cons_self
    · exact List.mem_cons_of_mem _ (List.mem_filter.mpr ⟨hmem, decide_eq_true hrem⟩)
  exact ((hnodup.filter _).subperm hsub).length_le

theorem left_choose (s : Scheduler) (mode : ExecutionMode) :
    (s.choose mode).left < 4 * s.remaining.rows.length + 2 := by
  rw [choose]
  split
  · exact Nat.succ_pos _
  · split
    · exact Nat.succ_pos _
    · have hnone : (batchOf mode s.ready).filter (· ∉ s.remaining.rows) = [] := by
        refine List.filter_eq_nil_iff.mpr fun t ht => ?_
        have hrem := ((batchOf_sublist mode s.ready).trans s.ready_sublist).subset ht
        simp [hrem]
      rw [left]
      dsimp only
      rw [hnone, List.length_nil]
      omega

theorem left_finish (hnodup : batch.Nodup) (hphase : s.phase = .running batch)
    (hrow : t ∈ s.remaining.rows) (status : ResultStatus) :
    (s.finish batch t.id status).left < s.left := by
  have hrows : (s.record t.id status).remaining.rows.length < s.remaining.rows.length :=
    Table.length_rows_erase_lt hrow
  have hlanded := length_landed_le hnodup hrow
  have hbefore : s.left = 4 * s.remaining.rows.length +
      (batch.filter (· ∉ s.remaining.rows)).length + 1 := by rw [left, hphase]
  rw [finish]
  split
  · have hafter : (s.record t.id status).left = 4 * (s.record t.id status).remaining.rows.length +
        (batch.filter (· ∉ (s.remaining.erase t.id).rows)).length + 1 := by
      rw [left, show (s.record t.id status).phase = .running batch from hphase]
      rfl
    omega
  · rename_i hnone
    have hall : batch.filter (· ∉ (s.remaining.erase t.id).rows) = batch := by
      refine List.filter_eq_self.mpr fun u hu => decide_eq_true fun hrem => hnone ⟨u, hu, hrem⟩
    have hqueue : ((s.record t.id status).mergeable batch).length ≤ batch.length :=
      (List.length_filter_le _ _).trans_eq (List.length_map _)
    have hnext := left_mergeNext (s.record t.id status) ((s.record t.id status).mergeable batch)
    rw [hall] at hlanded
    omega

theorem left_next (h : Inv tasks s) (hstep : next mode s e = some s') :
    s'.left < s.left := by
  have hmerged := h.merged
  cases next_cases hstep with
  | choose hphase =>
    have hlt := left_choose s mode
    rwa [show s.left = 4 * s.remaining.rows.length + 2 by rw [left, hphase]]
  | finish status hphase hbatch hrow =>
    rw [Merged, hphase] at hmerged
    exact left_finish hmerged.1 hphase hrow status
  | @merged tid queue hphase =>
    have hle := left_mergeNext { s with integrated := s.integrated ++ [tid] } queue
    have hbefore : s.left = 4 * s.remaining.rows.length + (tid :: queue).length + 3 := by
      rw [left, hphase]
    rw [List.length_cons] at hbefore
    dsimp only at hle ⊢
    omega
  | conflicts hphase =>
    rw [show s.left = _ by rw [left, hphase]]
    exact Nat.succ_pos _
  | withinBudget hphase =>
    rw [show s.left = 4 * s.remaining.rows.length + 3 by rw [left, hphase]]
    exact Nat.lt_succ_self _
  | raises hphase hbusy =>
    rw [left, left]
    cases hs : s.phase <;> simp_all [Ended]

/-! ## 6. A run that nothing disturbs -/

@[simp] theorem waves_mergeNext {queue : List String} : (s.mergeNext queue).waves = s.waves := by
  cases queue with
  | cons tid queue => rfl
  | nil =>
    rw [mergeNext, afterMerges]
    split <;> rfl

@[simp] theorem waves_finish {tid : String} {status : ResultStatus} :
    (s.finish batch tid status).waves = s.waves := by
  rw [finish]
  split
  · rfl
  · exact waves_mergeNext

theorem waves_next (hstep : next mode s e = some s') :
    s'.waves = s.waves ∨ (s.phase = .choosing ∧ s'.waves = s.waves ++ [batchOf mode s.ready]) := by
  cases next_cases hstep with
  | choose hphase =>
    rw [choose]
    split
    · exact Or.inl rfl
    · split
      · exact Or.inl rfl
      · exact Or.inr ⟨hphase, rfl⟩
  | finish status hphase hbatch hrow => exact Or.inl waves_finish
  | merged hphase => exact Or.inl waves_mergeNext
  | conflicts hphase => exact Or.inl rfl
  | withinBudget hphase => exact Or.inl rfl
  | raises hphase hbusy => exact Or.inl rfl

/-- The run in which no task is quarantined, no merge conflicts, and nothing raises. -/
def Undisturbed (log : List (Transition Scheduler BuildEvent)) : Prop :=
  ∀ x ∈ log, x.event.benign

/-- What holds while nothing has disturbed the run. -/
def Calm (s : Scheduler) : Prop :=
  (∀ r ∈ s.done.rows, r.status = .done) ∧
    (s.Ended → s.phase = .returned none ∨ s.phase = .returned (some .dependencyCycle))

theorem calm_mergeNext {queue : List String} (h : ∀ r ∈ s.done.rows, r.status = .done) :
    Calm (s.mergeNext queue) := by
  cases queue with
  | cons tid queue => exact ⟨h, False.elim⟩
  | nil =>
    rw [mergeNext, afterMerges]
    split
    · rename_i hany
      obtain ⟨r, hr, hstatus⟩ := List.any_eq_true.mp hany
      exact nomatch (h r hr).symm.trans (of_decide_eq_true hstatus)
    · exact ⟨h, False.elim⟩

theorem calm_next (h : Calm s) (hbenign : e.benign) (hstep : next mode s e = some s') :
    Calm s' := by
  cases next_cases hstep with
  | choose hphase =>
    rw [choose]
    split
    · exact ⟨h.1, fun _ => Or.inl rfl⟩
    · split
      · exact ⟨h.1, fun _ => Or.inr rfl⟩
      · exact ⟨h.1, False.elim⟩
  | @finish batch t status hphase hbatch hrow =>
    have hdone : ∀ r ∈ (s.record t.id status).done.rows, r.status = .done := by
      intro r hr
      rcases mem_done_record hr with rfl | hr
      · exact of_decide_eq_true hbenign
      · exact h.1 r hr
    rw [finish]
    split
    · refine ⟨hdone, fun hended => ?_⟩
      rw [Ended, show (s.record t.id status).phase = .running batch from hphase] at hended
      exact hended.elim
    · exact calm_mergeNext hdone
  | merged hphase => exact calm_mergeNext h.1
  | conflicts hphase => exact nomatch hbenign
  | withinBudget hphase => exact ⟨h.1, False.elim⟩
  | raises hphase hbusy => exact nomatch hbenign

/-- **Until it ends, the scheduler goes on.** -/
theorem exists_next (mode : ExecutionMode) (h : Inv tasks s) (hended : ¬ s.Ended) :
    ∃ e s', e.benign ∧ next mode s e = some s' := by
  have hmerged := h.merged
  rw [Merged] at hmerged
  cases hphase : s.phase with
  | choosing => exact ⟨.choose, s.choose mode, rfl, by simp only [next, hphase]⟩
  | running batch =>
    rw [hphase] at hmerged
    obtain ⟨-, ⟨t, hbatch, hrow⟩, -⟩ := hmerged
    refine ⟨.finish t.id .done, s.finish batch t.id .done, rfl, ?_⟩
    simp only [next, hphase]
    exact if_pos ⟨t, hbatch, hrow, rfl⟩
  | merging queue =>
    rw [hphase] at hmerged
    obtain ⟨tid, queue, rfl⟩ := List.exists_cons_of_ne_nil hmerged.1
    exact ⟨.merged, { s with integrated := s.integrated ++ [tid] }.mergeNext queue, rfl,
      by simp only [next, hphase]⟩
  | checking =>
    exact ⟨.withinBudget, { s with phase := .choosing }, rfl, by simp only [next, hphase]⟩
  | returned failure => exact absurd trivial (by rwa [Ended, hphase] at hended)
  | raised => exact absurd trivial (by rwa [Ended, hphase] at hended)

theorem calm_of_run {log : List (Transition Scheduler BuildEvent)}
    (run : Run (start tasks) (next mode) log s) (h : Undisturbed log) : Calm s := by
  induction run with
  | start => exact ⟨nofun, False.elim⟩
  | @step log s s' e run accepted ih =>
    exact calm_next (ih fun x hx => h x (List.mem_cons_of_mem _ hx)) (h _ List.mem_cons_self) accepted

/-- **A plan is scheduled as it should be.** -/
structure Schedules (mode : ExecutionMode) (tasks : List DevTask) : Prop where
  noCycle : ∀ log s, Run (start tasks) (next mode) log s →
    s.phase ≠ .returned (some .dependencyCycle)
  /-- A task is started only after all it depends on is finished and integrated. -/
  ordered : ∀ log s, Run (start tasks) (next mode) log s → ∀ x ∈ log, ∀ wave,
    x.after.waves = x.before.waves ++ [wave] → ∀ t ∈ wave, ∀ d ∈ t.dependsOn,
      (x.before.done.find? d).isSome ∧ d ∈ x.before.integrated
  apart : ∀ log s, Run (start tasks) (next mode) log s → ∀ wave ∈ s.waves, wave.Pairwise Apart
  /-- An undisturbed run that has ended has executed every task once, with success. -/
  once : ∀ log s, Run (start tasks) (next mode) log s → Undisturbed log → s.Ended →
    s.phase = .returned none ∧ s.started.Perm tasks ∧
      ∀ t ∈ tasks, s.done.find? t.id = some ⟨t.id, .done⟩
  /-- A run that has not ended can go on undisturbed, and every run ends. -/
  goesOn : ∀ log s, Run (start tasks) (next mode) log s → ¬ s.Ended →
    ∃ e s', e.benign ∧ next mode s e = some s'
  ends : ∃ n, ∀ log s, Run (start tasks) (next mode) log s → log.length ≤ n

theorem ne_dependencyCycle (h : Inv tasks s) : s.phase ≠ .returned (some .dependencyCycle) := by
  intro hphase
  have hmerged := h.merged
  rw [Merged, hphase] at hmerged
  exact hmerged.1 rfl

theorem ordered_of_next (h : Inv tasks s) (hstep : next mode s e = some s') {wave : List DevTask}
    (hwave : s'.waves = s.waves ++ [wave]) :
    ∀ t ∈ wave, ∀ d ∈ t.dependsOn, (s.done.find? d).isSome ∧ d ∈ s.integrated := by
  rcases waves_next hstep with hsame | ⟨hphase, hstarted⟩
  · have := congrArg List.length (hsame.symm.trans hwave)
    simp at this
  · obtain rfl : batchOf mode s.ready = wave := by
      simpa using hstarted.symm.trans hwave
    have hmerged := h.merged
    rw [Merged, hphase] at hmerged
    intro t ht d hd
    have hready := (List.mem_filter.mp ((batchOf_sublist mode s.ready).subset ht)).2
    have hsome := List.all_eq_true.mp hready d hd
    obtain ⟨r, hr⟩ := Option.isSome_iff_exists.mp hsome
    obtain ⟨hrow, hid⟩ := Table.find?_eq_some_iff.mp hr
    exact ⟨hsome, hid ▸ hmerged r hrow⟩

theorem apart_of_run {log : List (Transition Scheduler BuildEvent)}
    (run : Run (start tasks) (next mode) log s) : ∀ wave ∈ s.waves, wave.Pairwise Apart := by
  refine run.induct (P := fun _ s => ∀ wave ∈ s.waves, wave.Pairwise Apart)
    (nofun) fun log s e s' _ ih hstep wave hwave => ?_
  rcases waves_next hstep with hsame | ⟨-, hstarted⟩
  · exact ih wave (hsame ▸ hwave)
  · rw [hstarted, List.mem_append, List.mem_singleton] at hwave
    rcases hwave with hwave | rfl
    · exact ih wave hwave
    · exact pairwise_batchOf mode s.ready

/-- **What an undisturbed run has executed when it ends**: every task of the dictionary, once. -/
theorem executed_of_ended (h : Inv tasks s) (hcalm : Calm s) (hended : s.Ended) :
    s.phase = .returned none ∧ s.started.Perm (tasksById tasks).rows ∧
      ∀ t ∈ (tasksById tasks).rows, s.done.find? t.id = some ⟨t.id, .done⟩ := by
  have hphase := (hcalm.2 hended).resolve_right (ne_dependencyCycle h)
  have hbooked := h.booked (by simp [hphase])
  have hmerged := h.merged
  rw [Merged, hphase] at hmerged
  have hrows := hmerged.2 rfl
  refine ⟨hphase, ?_, fun t ht => ?_⟩
  · refine (List.perm_ext_iff_of_nodup hbooked.nodup
      (List.Nodup.of_map _ (tasksById tasks).keys_nodup)).mpr fun t => ?_
    rw [hbooked.mem_started t, hrows]
    simp
  · have hsome := (hbooked.done_iff t ht).mpr (by simp [hrows])
    obtain ⟨r, hr⟩ := Option.isSome_iff_exists.mp hsome
    obtain ⟨hrow, hid⟩ := Table.find?_eq_some_iff.mp hr
    rw [hr, ← hid, ← hcalm.1 r hrow]

theorem exists_ended (hplan : SoundPlan tasks) (mode : ExecutionMode) :
    ∃ log s, Run (start tasks) (next mode) log s ∧ Undisturbed log ∧ s.Ended := by
  refine Run.exists_finished (P := fun log _ => Undisturbed log) Ended left
    (fun log s run hlog hended => ?_) Run.start (List.forall_mem_nil _)
  have hinv := inv_of_reachable hplan ⟨log, run⟩
  obtain ⟨e, s', hbenign, hstep⟩ := exists_next mode hinv hended
  refine ⟨e, s', hstep, fun x hx => ?_, left_next hinv hstep⟩
  rcases List.mem_cons.mp hx with rfl | hx
  · exact hbenign
  · exact hlog x hx

/-! ## 7. Which plans are scheduled -/

theorem nodup_of_schedules (hplan : SoundPlan tasks) (h : Schedules mode tasks) :
    (tasks.map (·.id)).Nodup := by
  obtain ⟨log, s, run, hlog, hended⟩ := exists_ended hplan mode
  have hinv := inv_of_reachable hplan ⟨log, run⟩
  obtain ⟨-, hperm, -⟩ := executed_of_ended hinv (calm_of_run run hlog) hended
  obtain ⟨-, hall, -⟩ := h.once log s run hlog hended
  exact ((hall.symm.trans hperm).map (·.id)).nodup_iff.mpr (tasksById tasks).keys_nodup

/-- **An accepted plan is scheduled as it should be exactly when no two of its tasks have one
id.** -/
theorem schedules_iff (mode : ExecutionMode) (depth : ℕ) (tasks : List DevTask)
    (haccepted : validateTaskGraph depth tasks = some none) :
    Schedules mode tasks ↔ (tasks.map (·.id)).Nodup := by
  have hplan := soundPlan_of_validate haccepted
  refine ⟨nodup_of_schedules hplan, fun hnodup => ?_⟩
  have hinv : ∀ {log s}, Run (start tasks) (next mode) log s → Inv tasks s := fun run =>
    inv_of_reachable hplan ⟨_, run⟩
  refine ⟨fun log s run => ne_dependencyCycle (hinv run), fun log s run x hx wave hwave => ?_,
    fun log s run => apart_of_run run, fun log s run hlog hended => ?_,
    fun log s run hended => exists_next mode (hinv run) hended, (start tasks).left, fun log s run => ?_⟩
  · obtain ⟨hbefore, hstep, -⟩ := run.reachable_of_mem x hx
    exact ordered_of_next (inv_of_reachable hplan hbefore) hstep hwave
  · have hexecuted := executed_of_ended (hinv run) (calm_of_run run hlog) hended
    rwa [rows_tasksById hnodup] at hexecuted
  · have := run.length_add_le left fun s e s' hs hstep =>
      left_next (inv_of_reachable hplan hs) hstep
    omega

theorem schedules_sample : Schedules .waves
    [⟨"T1", [], ["api"]⟩, ⟨"T2", ["T1"], []⟩, ⟨"T3", [], ["api"]⟩] :=
  (schedules_iff .waves 3 _ (by decide +kernel)).mpr (by decide)

/-- Two tasks that the planner gave one id. -/
def twins : List DevTask := [⟨"T1", [], ["api"]⟩, ⟨"T1", [], ["db"]⟩]

/-- The validator accepts them, and the first is never run. -/
theorem not_schedules_sample : ¬ ∀ mode depth tasks, validateTaskGraph depth tasks = some none →
    Schedules mode tasks := by
  intro hall
  have hscript : ∃ q, runScript (next .serial) ([], start twins)
      [.choose, .finish "T1" .done, .merged, .withinBudget, .choose] = some q :=
    Option.isSome_iff_exists.mp (by decide +kernel)
  obtain ⟨⟨log, s⟩, hq⟩ := hscript
  have heval : (runScript (next .serial) ([], start twins)
      [.choose, .finish "T1" .done, .merged, .withinBudget, .choose]).map
        (fun q => (q.1.all (·.event.benign), q.2.phase, q.2.started)) =
      some (true, .returned none, [⟨"T1", [], ["db"]⟩]) := by decide +kernel
  rw [hq, Option.map_some, Option.some.injEq, Prod.mk.injEq, Prod.mk.injEq] at heval
  obtain ⟨hlog, hphase, hstarted⟩ := heval
  have hschedules := hall .serial 1 twins (by decide +kernel)
  have hended : s.Ended := by
    rw [Ended, show s.phase = _ from hphase]
    trivial
  have hperm := (hschedules.once log s (Run.of_runScript Run.start hq)
    (List.all_eq_true.mp hlog) hended).2.1
  rw [show s.started = _ from hstarted] at hperm
  exact absurd hperm.length_eq (by decide)

end Scheduler

end Kroker.Build
