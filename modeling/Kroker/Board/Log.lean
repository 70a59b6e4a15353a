import Kroker.Board.Writes

/-!
# A task's row is a fold of its events

The board keeps a row for each task and an append-only log of what happened to it.  `Folded` says
that the row is what the log adds up to: the live status is where the last event went, the
authoritative status where the last authoritative event went, and the row version counts the events;
and that the log itself is linked, each event starting where its writer had last seen the task.

`folded_of_run` proves it of every task of every board that calls of the store lead to.  One write
appends at most one event to the log of one task (`taskEvents_append`), so the step lemma is about
one event at the end of a list (`linked_append`).
-/

namespace Kroker

namespace Board

/-! ## 1. The log of a task -/

def taskEvents (b : Board) (k : TaskKey) : List BoardEvent :=
  b.events.filter fun e => e.project = k.project && e.subject = k.subject

def lastStatus (log : List BoardEvent) : Option String := log.getLast?.bind (·.toStatus)

def authoritativeEvents (log : List BoardEvent) : List BoardEvent :=
  log.filter (·.authority = .authoritative)

/-- An event starts where its writer had last seen the task: an agent at the last event, of which
there is one, the workflow at the last of its own. -/
def LinksTo (log : List BoardEvent) (e : BoardEvent) : Prop :=
  match e.authority with
  | .observational => log ≠ [] ∧ e.fromStatus = lastStatus log
  | .authoritative => e.fromStatus = lastStatus (authoritativeEvents log)

/-- Every event of a log starts where its writer had last seen the task. -/
def Linked (log : List BoardEvent) : Prop :=
  ∀ past e rest, log = past ++ e :: rest → LinksTo past e

/-- A row is what its log adds up to. -/
structure Folded (t : BoardTask) (log : List BoardEvent) : Prop where
  status : lastStatus log = some t.status.value
  authoritative : lastStatus (authoritativeEvents log) = some t.authoritativeStatus.value
  rowVersion : t.rowVersion = log.length
  linked : Linked log

theorem lastStatus_append (log : List BoardEvent) (e : BoardEvent) :
    lastStatus (log ++ [e]) = e.toStatus := by
  rw [lastStatus, List.getLast?_append, List.getLast?_singleton]
  rfl

variable {log : List BoardEvent}

theorem authoritativeEvents_append {e : BoardEvent} (h : e.authority = .authoritative) :
    authoritativeEvents (log ++ [e]) = authoritativeEvents log ++ [e] := by
  rw [authoritativeEvents, List.filter_append, List.filter_singleton, decide_eq_true h]
  rfl

theorem authoritativeEvents_append_observational {e : BoardEvent} (h : e.authority = .observational)
    :
    authoritativeEvents (log ++ [e]) = authoritativeEvents log := by
  rw [authoritativeEvents, List.filter_append, List.filter_singleton, h]
  exact List.append_nil _

theorem linked_append {e : BoardEvent} (hlog : Linked log) (he : LinksTo log e) :
    Linked (log ++ [e]) := by
  intro past x rest h
  rcases List.eq_nil_or_concat rest with rfl | ⟨rest, y, rfl⟩
  · obtain ⟨rfl, hx⟩ := List.append_inj' h rfl
    rw [← (List.cons.inj hx).1]
    exact he
  · rw [List.concat_eq_append, ← List.cons_append, ← List.append_assoc] at h
    exact hlog past x rest (List.append_inj_left' h rfl)

theorem taskEvents_eq_of_subject {b b' : Board} {new : List BoardEvent}
    (h : b'.events = b.events ++ new) (hnew : ∀ e ∈ new, ∃ key, e.subject = artifactSubject key)
    (k : TaskKey) : b'.taskEvents k = b.taskEvents k := by
  have hnone : new.filter (fun e => e.project = k.project && e.subject = k.subject) = [] := by
    rw [List.filter_eq_nil_iff]
    intro e he hmatch
    obtain ⟨key, hkey⟩ := hnew e he
    rw [Bool.and_eq_true, decide_eq_true_eq, decide_eq_true_eq, hkey] at hmatch
    exact k.subject_ne_artifact key hmatch.2
  rw [taskEvents, h, List.filter_append, hnone, List.append_nil]
  rfl

theorem taskEvents_append {b b' : Board} {k : TaskKey} {actor detail : String}
    {authority : Authority} {frm : Option TaskStatus} {dest : TaskStatus} {now : ℤ}
    (h : b'.events = b.events ++ [taskEvent k actor authority frm dest now detail]) (j : TaskKey) :
    b'.taskEvents j = if k = j then b.taskEvents j ++ [taskEvent k actor authority frm dest now detail]
      else b.taskEvents j := by
  rw [taskEvents, h, List.filter_append, List.filter_singleton]
  by_cases hkj : k = j
  · subst hkj
    rw [if_pos rfl]
    simp [taskEvent, taskEvents]
  · have hmatch : (k.project = j.project && k.subject = j.subject) = false := by
      rw [Bool.and_eq_false_iff, decide_eq_false_iff_not, decide_eq_false_iff_not]
      by_contra hboth
      rw [not_or, not_not, not_not] at hboth
      exact hkj (TaskKey.subject_injective hboth.1 hboth.2)
    rw [if_neg hkj]
    show _ ++ (bif (k.project = j.project && k.subject = j.subject) then _ else _) = _
    rw [hmatch]
    exact List.append_nil _

/-! ## 2. One write -/

def LogInv (b : Board) : Prop :=
  (∀ k t, b.tasks.find? k = some t → Folded t (b.taskEvents k)) ∧
    ∀ k, b.tasks.find? k = none → b.taskEvents k = []

theorem folded_new (k : TaskKey) (runId actor title : String) (now : ℤ) :
    Folded (newTask k runId now) [taskEvent k actor .authoritative none .pending now title] := by
  have hnil : Linked [] := by
    intro past e rest h
    exact absurd h.symm (by simp)
  exact ⟨rfl, rfl, rfl, linked_append hnil rfl⟩

theorem folded_authoritative {t : BoardTask} (h : Folded t log) (k : TaskKey) (status : TaskStatus)
    (actor : String) (u : TaskUpdate) (now : ℤ) :
    Folded (authoritativeRow t status u now)
      (log ++ [taskEvent k actor .authoritative (some t.authoritativeStatus) status now]) := by
  refine ⟨lastStatus_append _ _, ?_, ?_, linked_append h.linked h.authoritative.symm⟩
  · rw [authoritativeEvents_append rfl]
    exact lastStatus_append _ _
  · rw [List.length_append, ← h.rowVersion]
    rfl

theorem folded_observational {t : BoardTask} (h : Folded t log) (k : TaskKey) (status : TaskStatus)
    (actor detail : String) (now : ℤ) :
    Folded (observationalRow t status now)
      (log ++ [taskEvent k actor .observational (some t.status) status now detail]) := by
  refine ⟨lastStatus_append _ _, ?_, ?_, linked_append h.linked ⟨?_, h.status.symm⟩⟩
  · rw [authoritativeEvents_append_observational rfl]
    exact h.authoritative
  · rw [List.length_append, ← h.rowVersion]
    rfl
  · rintro rfl
    exact absurd h.status (by simp [lastStatus])

theorem logInv_of_moved {b b' : Board} (hb : LogInv b) {k : TaskKey} {t t' : BoardTask}
    {e : BoardEvent} (ht : b.tasks.find? k = some t)
    (htasks : ∀ j, b'.tasks.find? j = if k = j then some t' else b.tasks.find? j)
    (hevents : ∀ j, b'.taskEvents j =
      if k = j then b.taskEvents j ++ [e] else b.taskEvents j)
    (hfold : Folded t (b.taskEvents k) → Folded t' (b.taskEvents k ++ [e])) : LogInv b' := by
  refine ⟨fun j s hs => ?_, fun j hj => ?_⟩
  · rw [htasks] at hs
    rw [hevents]
    by_cases hkj : k = j
    · subst hkj
      rw [if_pos rfl, Option.some.injEq] at hs
      subst hs
      rw [if_pos rfl]
      exact hfold (hb.1 k t ht)
    · rw [if_neg hkj] at hs ⊢
      exact hb.1 j s hs
  · rw [htasks] at hj
    rw [hevents]
    by_cases hkj : k = j
    · rw [if_pos hkj] at hj
      exact absurd hj (by simp)
    · rw [if_neg hkj] at hj ⊢
      exact hb.2 j hj

/-- **One write keeps the invariant.** -/
theorem logInv_write {b b' : Board} (hb : LogInv b) (hw : TaskWrite b b') : LogInv b' := by
  cases hw with
  | other tasks events =>
    obtain ⟨new, hevents, hnew⟩ := events
    refine ⟨fun k t ht => ?_, fun k hk => ?_⟩
    · rw [taskEvents_eq_of_subject hevents hnew]
      exact hb.1 k t (tasks ▸ ht)
    · rw [taskEvents_eq_of_subject hevents hnew]
      exact hb.2 k (tasks ▸ hk)
  | create k runId actor title now absent tasks events =>
    have hkey : (newTask k runId now).primaryKey = k := rfl
    refine ⟨fun j t ht => ?_, fun j hj => ?_⟩
    · rw [tasks, Table.find?_insertNew, hkey] at ht
      rw [taskEvents_append events]
      by_cases hkj : k = j
      · subst hkj
        rw [absent, if_pos rfl, Option.none_or, Option.some.injEq] at ht
        subst ht
        rw [if_pos rfl, hb.2 k absent]
        exact folded_new k runId actor title now
      · rw [if_neg hkj, Option.or_none] at ht
        rw [if_neg hkj]
        exact hb.1 j t ht
    · rw [tasks, Table.find?_insertNew, hkey, Option.or_eq_none_iff] at hj
      rw [taskEvents_append events]
      by_cases hkj : k = j
      · rw [if_pos hkj] at hj
        exact absurd hj.2 (by simp)
      · rw [if_neg hkj]
        exact hb.2 j hj.1
  | authoritative k t status actor u now found legal =>
    exact logInv_of_moved hb found (find?_modify_of_some found (authoritativeRow · status u now)
      fun _ h => h) (taskEvents_append rfl) fun h => folded_authoritative h k status actor u now
  | observational k t status actor detail now found legal =>
    exact logInv_of_moved hb found (find?_modify_of_some found (observationalRow · status now)
      fun _ h => h) (taskEvents_append rfl) fun h => folded_observational h k status actor detail now

/-! ## 3. The run -/

/-- **The board's rows are folds of its event log.**  After any sequence of calls, rejected ones
included, the row of every task is what the events of that task add up to. -/
theorem folded_of_run {S : BlobStore} {log : List (Transition Board BoardOp)} {b : Board}
    (run : BoardRun S log b) : ∀ t ∈ b.tasks.rows, Folded t (b.taskEvents t.primaryKey) := by
  have hinv : LogInv b :=
    induct_writes ⟨fun k t ht => absurd ht (by simp), fun k _ => rfl⟩
      (fun _ _ hb hw => logInv_write hb hw) run
  exact fun t ht => hinv.1 _ t (Table.find?_key ht)

theorem folded_of_run_sample :
    (∀ t ∈ (scripted plainBlobs claimScript).2.tasks.rows,
      Folded t ((scripted plainBlobs claimScript).2.taskEvents t.primaryKey)) ∧
    (scripted plainBlobs claimScript).2.tasks.rows.map (·.rowVersion) = [3, 1] :=
  ⟨folded_of_run (run_scripted plainBlobs claimScript), by decide +kernel⟩

end Board

end Kroker
