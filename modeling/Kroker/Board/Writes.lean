import Kroker.Board.Store
import Kroker.Library.Except
import Kroker.Library.Run

/-!
# What a call can write

Everything later proved about tasks splits on `TaskWrite`: a call of the store is a chain of writes
(`writes_run`), each of which leaves the tasks and their events alone, creates a task, or moves one
by a workflow's or an agent's authority.  A rejected call, a repeated plan and a repeated workflow
write are empty chains.
-/

namespace Kroker

namespace Board

variable {b : Board} {k : TaskKey}

theorem getTask_eq_ok {t : BoardTask} :
    b.getTask k = .ok t ↔ b.tasks.find? k = some t := by
  unfold getTask
  cases b.tasks.find? k with
  | none =>
    constructor <;> intro h <;> cases h
  | some t' =>
    constructor
    · exact fun h => congrArg some (Except.ok.inj h)
    · exact fun h => congrArg Except.ok (Option.some.inj h)

/-! ## The two task transactions -/

/-- The board after a workflow write. -/
def withAuthoritative (b : Board) (k : TaskKey) (t : BoardTask) (status : TaskStatus)
    (actor : String) (u : TaskUpdate) (now : ℤ) : Board :=
  { b with
    tasks := b.tasks.modify k (authoritativeRow · status u now) fun _ h => h
    events := b.events ++
      [taskEvent k actor .authoritative (some t.authoritativeStatus) status now] }

/-- The board after an agent write. -/
def withObservational (b : Board) (k : TaskKey) (t : BoardTask) (status : TaskStatus)
    (actor detail : String) (now : ℤ) : Board :=
  { b with
    tasks := b.tasks.modify k (observationalRow · status now) fun _ h => h
    events := b.events ++ [taskEvent k actor .observational (some t.status) status now detail] }

theorem find?_modify_of_some {t : BoardTask} (ht : b.tasks.find? k = some t)
    (f : BoardTask → BoardTask) (hf : ∀ a : BoardTask, a.primaryKey = k → (f a).primaryKey = k)
    (j : TaskKey) :
    (b.tasks.modify k f hf).find? j = if k = j then some (f t) else b.tasks.find? j := by
  rw [Table.find?_modify]
  by_cases hkj : k = j
  · subst hkj
    rw [if_pos rfl, if_pos rfl, ht]
    rfl
  · rw [if_neg hkj, if_neg hkj]

variable {b' : Board} {status : TaskStatus}

theorem authoritativeTx_eq_ok {actor : String} {u : TaskUpdate} {now : ℤ} {early : Option BoardTask}
    :
    b.authoritativeTx k status actor u now = .ok (b', early) ↔
      ∃ t, b.tasks.find? k = some t ∧
        (t.authoritativeStatus = status ∧ b' = b ∧ early = some t ∨
          t.authoritativeStatus ≠ status ∧ status ∈ t.authoritativeStatus.transitions ∧
            b' = b.withAuthoritative k t status actor u now ∧ early = none) := by
  unfold authoritativeTx
  rw [bind_eq_ok]
  simp only [getTask_eq_ok]
  refine exists_congr fun t => and_congr_right fun _ => ?_
  by_cases hsame : t.authoritativeStatus = status
  · rw [if_pos hsame]
    simp only [pure, Except.pure, Except.ok.injEq, Prod.mk.injEq, hsame, true_and, ne_eq,
      not_true_eq_false, false_and, or_false]
    exact and_congr eq_comm eq_comm
  · rw [if_neg hsame]
    simp only [hsame, false_and, ne_eq, not_false_eq_true, true_and, false_or]
    show (checkTaskTransition t.authoritativeStatus status >>= fun _ => _) = _ ↔ _
    rw [bind_eq_ok]
    constructor
    · rintro ⟨_, hcheck, h⟩
      obtain ⟨rfl, rfl⟩ := Prod.mk.inj (Except.ok.inj h)
      exact ⟨checkTaskTransition_eq_ok.mp hcheck, rfl, rfl⟩
    · rintro ⟨hlegal, rfl, rfl⟩
      exact ⟨(), checkTaskTransition_eq_ok.mpr hlegal, rfl⟩

theorem observationalTx_eq_ok {actor : String} {expectRowVersion : ℤ} {detail : String} {now : ℤ} :
    b.observationalTx k status actor expectRowVersion detail now = .ok b' ↔
      ∃ t, b.tasks.find? k = some t ∧ (t.rowVersion : ℤ) = expectRowVersion ∧
        status ∈ t.status.transitions ∧ b' = b.withObservational k t status actor detail now := by
  unfold observationalTx
  rw [bind_eq_ok]
  simp only [getTask_eq_ok]
  refine exists_congr fun t => and_congr_right fun _ => ?_
  by_cases hversion : (t.rowVersion : ℤ) = expectRowVersion
  · rw [if_neg (not_not.mpr hversion)]
    simp only [hversion, true_and]
    show (checkTaskTransition t.status status >>= fun _ => _) = _ ↔ _
    rw [bind_eq_ok]
    constructor
    · rintro ⟨_, hcheck, h⟩
      exact ⟨checkTaskTransition_eq_ok.mp hcheck, (Except.ok.inj h).symm⟩
    · rintro ⟨hlegal, rfl⟩
      exact ⟨(), checkTaskTransition_eq_ok.mpr hlegal, rfl⟩
  · rw [if_pos hversion]
    simp only [hversion, false_and, iff_false]
    intro h
    cases h

theorem setTaskAuthoritative_eq_ok {actor : String} {u : TaskUpdate} {now : ℤ} {t : BoardTask} :
    b.setTaskAuthoritative k status actor u now = .ok (b', t) ↔
      ∃ early, b.authoritativeTx k status actor u now = .ok (b', early) ∧
        (early = some t ∨ early = none ∧ b'.tasks.find? k = some t) := by
  unfold setTaskAuthoritative
  rw [bind_eq_ok]
  constructor
  · rintro ⟨⟨c, early⟩, htx, h⟩
    cases early with
    | some t' =>
      obtain ⟨rfl, rfl⟩ := Prod.mk.inj (Except.ok.inj h)
      exact ⟨_, htx, Or.inl rfl⟩
    | none =>
      obtain ⟨t', ht', h⟩ := bind_eq_ok.mp h
      obtain ⟨rfl, rfl⟩ := Prod.mk.inj (Except.ok.inj h)
      exact ⟨_, htx, Or.inr ⟨rfl, getTask_eq_ok.mp ht'⟩⟩
  · rintro ⟨early, htx, rfl | ⟨rfl, ht⟩⟩
    · exact ⟨_, htx, rfl⟩
    · exact ⟨_, htx, bind_eq_ok.mpr ⟨t, getTask_eq_ok.mpr ht, rfl⟩⟩

theorem setTaskObservational_eq_ok {actor : String} {expectRowVersion : ℤ} {detail : String}
    {now : ℤ} {t : BoardTask} :
    b.setTaskObservational k status actor expectRowVersion detail now = .ok (b', t) ↔
      b.observationalTx k status actor expectRowVersion detail now = .ok b' ∧
        b'.tasks.find? k = some t := by
  unfold setTaskObservational
  rw [bind_eq_ok]
  constructor
  · rintro ⟨c, htx, h⟩
    obtain ⟨t', ht', h⟩ := bind_eq_ok.mp h
    obtain ⟨rfl, rfl⟩ := Prod.mk.inj (Except.ok.inj h)
    exact ⟨htx, getTask_eq_ok.mp ht'⟩
  · rintro ⟨htx, ht⟩
    exact ⟨b', htx, bind_eq_ok.mpr ⟨t, getTask_eq_ok.mpr ht, rfl⟩⟩

theorem attachTaskEvidence_eq_ok {S : BlobStore} {runId kind : String} {content : Bytes} {now : ℤ}
    {ref : ArtifactRef} (h : b.attachTaskEvidence S k runId kind content now = .ok (b', ref)) :
    (∃ prior, b.priorEvidence k runId kind (S.sha256 content) = some prior ∧ b' = b) ∨
      b.priorEvidence k runId kind (S.sha256 content) = none ∧
        b' = { b with
          blobs := b.blobs.insert (S.locate runId "evidence" (k.taskId ++ "-" ++ kind ++ ".json"))
            content
          evidence := b.evidence ++
            [{ id := b.evidence.length + 1, project := k.project, planVersion := k.planVersion,
               taskId := k.taskId, runId, kind, sha256 := S.sha256 content,
               uri := S.locate runId "evidence" (k.taskId ++ "-" ++ kind ++ ".json"),
               createdAt := now }] } := by
  unfold attachTaskEvidence at h
  split at h
  · cases h
  · obtain ⟨_, _, h⟩ := bind_eq_ok.mp h
    cases hprior : b.priorEvidence k runId kind (S.sha256 content) with
    | some prior =>
      rw [hprior] at h
      obtain ⟨rfl, -⟩ := Prod.mk.inj (Except.ok.inj h)
      exact Or.inl ⟨prior, rfl, rfl⟩
    | none =>
      rw [hprior] at h
      obtain ⟨rfl, -⟩ := Prod.mk.inj (Except.ok.inj h)
      exact Or.inr ⟨rfl, rfl⟩

/-! ## The writes of a call -/

/-- One write, as far as tasks and their events go. -/
inductive TaskWrite : Board → Board → Prop
  /-- Artifacts, evidence, projects and blobs. -/
  | other {b b' : Board} (tasks : b'.tasks = b.tasks)
      (events : ∃ new, b'.events = b.events ++ new ∧ ∀ e ∈ new, ∃ key, e.subject = artifactSubject key) :
      TaskWrite b b'
  | create {b b' : Board} (k : TaskKey) (runId actor title : String) (now : ℤ)
      (absent : b.tasks.find? k = none) (tasks : b'.tasks = b.tasks.insertNew (newTask k runId now))
      (events : b'.events =
        b.events ++ [taskEvent k actor .authoritative none .pending now title]) :
      TaskWrite b b'
  | authoritative {b : Board} (k : TaskKey) (t : BoardTask) (status : TaskStatus) (actor : String)
      (u : TaskUpdate) (now : ℤ) (found : b.tasks.find? k = some t)
      (legal : status ∈ t.authoritativeStatus.transitions) :
      TaskWrite b (b.withAuthoritative k t status actor u now)
  | observational {b : Board} (k : TaskKey) (t : BoardTask) (status : TaskStatus)
      (actor detail : String) (now : ℤ) (found : b.tasks.find? k = some t)
      (legal : status ∈ t.status.transitions) :
      TaskWrite b (b.withObservational k t status actor detail now)

theorem TaskWrite.quiet (tasks : b'.tasks = b.tasks) (events : b'.events = b.events) :
    TaskWrite b b' :=
  .other tasks ⟨[], by rw [events, List.append_nil], nofun⟩

theorem tasks_publish (S : BlobStore) (b : Board) (project key runId : String) (content : Bytes)
    (status : ArtifactStatus) (actor : String) (now : ℤ) :
    TaskWrite b (b.publishArtifactVersion S project key runId content status actor now).1 := by
  unfold publishArtifactVersion
  cases b.priorVersion project key runId (S.sha256 content) with
  | some prior => exact .quiet rfl rfl
  | none => exact .other rfl ⟨_, rfl, fun e he => ⟨key, by rw [List.mem_singleton.mp he]⟩⟩

theorem writes_syncPlanTasks (b : Board) (project : String) (planVersion : ℤ) (runId : String)
    (tasks : List DevTask) (actor : String) (now : ℤ) :
    Relation.ReflTransGen TaskWrite b
      (b.syncPlanTasks project planVersion runId tasks actor now).1 := by
  suffices h : ∀ acc : Board × ℕ, Relation.ReflTransGen TaskWrite acc.1
      (tasks.foldl (syncTask project planVersion runId actor now) acc).1 from h (b, 0)
  induction tasks with
  | nil => exact fun acc => .refl
  | cons t tasks ih =>
    intro acc
    rw [List.foldl_cons]
    refine .trans ?_ (ih _)
    cases habsent : acc.1.tasks.find? ⟨project, planVersion, t.id⟩ with
    | some row =>
      simp only [syncTask, habsent]
      exact .refl
    | none =>
      simp only [syncTask, habsent]
      exact .single (.create _ runId actor t.title now habsent rfl rfl)

/-- **A call of the store is a chain of writes.** -/
theorem writes_run (S : BlobStore) (b : Board) (op : BoardOp) :
    Relation.ReflTransGen TaskWrite b (b.run S op) := by
  unfold run
  cases hop : b.perform S op with
  | error e => exact .refl
  | ok b' =>
    show Relation.ReflTransGen TaskWrite b b'
    cases op with
    | ensureProject key repo =>
      obtain rfl := Except.ok.inj hop
      refine .single (.quiet ?_ ?_) <;> · unfold ensureProject; split <;> rfl
    | publish project key runId content status actor now =>
      obtain rfl := Except.ok.inj hop
      exact .single (tasks_publish S b project key runId content status actor now)
    | syncPlanTasks project planVersion runId tasks actor now =>
      obtain rfl := Except.ok.inj hop
      exact writes_syncPlanTasks b project planVersion runId tasks actor now
    | authoritative k status actor u now =>
      obtain ⟨⟨c, t⟩, hset, rfl⟩ := map_eq_ok.mp hop
      obtain ⟨early, htx, -⟩ := setTaskAuthoritative_eq_ok.mp hset
      obtain ⟨t', ht', ⟨-, rfl, -⟩ | ⟨-, hlegal, rfl, -⟩⟩ := authoritativeTx_eq_ok.mp htx
      · exact .refl
      · exact .single (.authoritative k t' status actor u now ht' hlegal)
    | observational k status actor expectRowVersion detail now =>
      obtain ⟨⟨c, t⟩, hset, rfl⟩ := map_eq_ok.mp hop
      obtain ⟨htx, -⟩ := setTaskObservational_eq_ok.mp hset
      obtain ⟨t', ht', -, hlegal, rfl⟩ := observationalTx_eq_ok.mp htx
      exact .single (.observational k t' status actor detail now ht' hlegal)
    | evidence k runId kind content now =>
      obtain ⟨⟨c, ref⟩, hattach, rfl⟩ := map_eq_ok.mp hop
      obtain ⟨prior, -, rfl⟩ | ⟨-, rfl⟩ := attachTaskEvidence_eq_ok hattach
      · exact .refl
      · exact .single (.quiet rfl rfl)

abbrev BoardRun (S : BlobStore) :=
  Run ({} : Board) fun (b : Board) (op : BoardOp) => some (b.run S op)

theorem after_eq_run {S : BlobStore} {log : List (Transition Board BoardOp)}
    (run : BoardRun S log b) : ∀ x ∈ log, x.after = x.before.run S x.event :=
  fun x hx => (Option.some.inj (run.reachable_of_mem x hx).2.1).symm

/-- A script of calls leads along a run; no call blocks. -/
def scripted (S : BlobStore) (script : List BoardOp) : List (Transition Board BoardOp) × Board :=
  (runScript (fun (b : Board) (op : BoardOp) => some (b.run S op)) ([], {}) script).getD ([], {})

theorem run_scripted (S : BlobStore) (script : List BoardOp) :
    BoardRun S (scripted S script).1 (scripted S script).2 := by
  unfold scripted
  cases h : runScript (fun (b : Board) (op : BoardOp) => some (b.run S op)) ([], {}) script with
  | none => exact .start
  | some q => exact Run.of_runScript (p := ([], {})) Run.start h

/-- A store of plain paths, whose digest of a blob is its text. -/
def plainBlobs : BlobStore where
  sha256 data := String.ofList (data.map fun x => Char.ofNat x.toNat)
  locate runId subdir name := runId ++ "/" ++ subdir ++ "/" ++ name

def sampleTask : TaskKey := ⟨"demo", 1, "t1"⟩

def claimScript : List BoardOp :=
  [.syncPlanTasks "demo" 1 "run" [⟨"t1", "first"⟩, ⟨"t2", "second"⟩] "workflow:run" 0,
    .observational sampleTask .inProgress "agent:a" 1 "claim" 1,
    .authoritative sampleTask .inProgress "workflow:run" {} 2,
    .observational sampleTask .done "agent:b" 1 "" 3]

theorem induct_writes {S : BlobStore} {P : Board → Prop} (hinit : P {})
    (hwrite : ∀ b b', P b → TaskWrite b b' → P b') {log : List (Transition Board BoardOp)}
    (run : BoardRun S log b) : P b := by
  refine run.induct (P := fun _ b => P b) hinit fun log b op b' _ hb hop => ?_
  obtain rfl := Option.some.inj hop
  refine Relation.ReflTransGen.rec (motive := fun c _ => P c) hb ?_ (writes_run S b op)
  exact fun _ hw hc => hwrite _ _ hc hw

end Board

end Kroker
