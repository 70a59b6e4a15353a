import Kroker.Board.Writes

/-!
# Agents do not interfere with authority

What the workflow and the statistics read of a task is its `authoritativeView`: everything but the
live status, the row version and the time of the last write, which are all an agent can move.  Two
boards that agree on that view, and on everything that is not a task, answer every workflow call
alike and stay in agreement (`agree_run`); an agent's write leaves a board in agreement with itself
(`agree_observational`).

`agents_noninterfering` puts the two together for histories: it removes the agents' writes from a
history one by one, on one side only, so two histories with the same workflow calls are both
compared with those calls alone.
-/

namespace Kroker

def BoardOp.isAgent : BoardOp → Bool
  | .observational .. => true
  | _ => false

namespace Board

/-- What the workflow reads of a task. -/
def authoritativeView (t : BoardTask) : BoardTask :=
  { t with status := .pending, rowVersion := 0, updatedAt := 0 }

def authoritativeStatus (b : Board) (k : TaskKey) : Option TaskStatus :=
  (b.tasks.find? k).map (·.authoritativeStatus)

/-- Two boards that differ only in what agents have written. -/
structure Agree (b c : Board) : Prop where
  projects : b.projects = c.projects
  artifacts : b.artifacts = c.artifacts
  versions : b.versions = c.versions
  evidence : b.evidence = c.evidence
  tasks : b.tasks.rows.map authoritativeView = c.tasks.rows.map authoritativeView

theorem Agree.refl (b : Board) : Agree b b := ⟨rfl, rfl, rfl, rfl, rfl⟩

variable {b c : Board}

theorem Agree.trans {d : Board} (h : Agree b c) (h' : Agree c d) : Agree b d :=
  ⟨h.projects.trans h'.projects, h.artifacts.trans h'.artifacts, h.versions.trans h'.versions,
    h.evidence.trans h'.evidence, h.tasks.trans h'.tasks⟩

theorem Agree.symm (h : Agree b c) : Agree c b :=
  ⟨h.projects.symm, h.artifacts.symm, h.versions.symm, h.evidence.symm, h.tasks.symm⟩

theorem find?_map_view (rows : List BoardTask) (k : TaskKey) :
    (rows.find? (·.primaryKey = k)).map authoritativeView =
      (rows.map authoritativeView).find? (·.primaryKey = k) := by
  rw [List.find?_map]
  rfl

theorem Agree.find? (h : Agree b c) (k : TaskKey) :
    (b.tasks.find? k).map authoritativeView = (c.tasks.find? k).map authoritativeView := by
  rw [Table.find?, find?_map_view, h.tasks, ← find?_map_view]
  rfl

theorem Agree.find?_eq_none (h : Agree b c) (k : TaskKey) :
    b.tasks.find? k = none ↔ c.tasks.find? k = none := by
  rw [← Option.map_eq_none_iff (f := authoritativeView), h.find? k, Option.map_eq_none_iff]

theorem Agree.authoritativeStatus_eq (h : Agree b c) (k : TaskKey) :
    b.authoritativeStatus k = c.authoritativeStatus k := by
  have := congrArg (Option.map BoardTask.authoritativeStatus) (h.find? k)
  rwa [Option.map_map, Option.map_map] at this

/-! ## 1. An agent's write -/

theorem view_modify {rows : List BoardTask} {k : TaskKey} {f : BoardTask → BoardTask}
    (hf : ∀ t, authoritativeView (f t) = authoritativeView t) :
    (rows.map fun t => if t.primaryKey = k then f t else t).map authoritativeView =
      rows.map authoritativeView := by
  rw [List.map_map]
  refine List.map_congr_left fun t _ => ?_
  show authoritativeView (if t.primaryKey = k then f t else t) = _
  split
  · exact hf t
  · rfl

variable (S : BlobStore)

theorem agree_observational (b : Board) {op : BoardOp} (hop : op.isAgent = true) :
    Agree (b.run S op) b := by
  cases op with
  | observational k status actor expectRowVersion detail now =>
    unfold run
    cases h : b.perform S (.observational k status actor expectRowVersion detail now) with
    | error e => exact .refl b
    | ok b' =>
      obtain ⟨⟨c, t⟩, hset, rfl⟩ := map_eq_ok.mp h
      obtain ⟨htx, -⟩ := setTaskObservational_eq_ok.mp hset
      obtain ⟨t', -, -, -, rfl⟩ := observationalTx_eq_ok.mp htx
      exact ⟨rfl, rfl, rfl, rfl, view_modify fun _ => rfl⟩
  | _ => cases hop

/-! ## 2. A workflow's call -/

/-- What a call answers: whether it raises, and what. -/
def outcome (S : BlobStore) (b : Board) (op : BoardOp) : Except BoardError Unit :=
  (b.perform S op).map fun _ => ()

theorem agree_syncTask {acc acc' : Board × ℕ} (h : Agree acc.1 acc'.1) (project : String)
    (planVersion : ℤ) (runId actor : String) (now : ℤ) (t : DevTask) :
    Agree (syncTask project planVersion runId actor now acc t).1
      (syncTask project planVersion runId actor now acc' t).1 := by
  have hnone := h.find?_eq_none ⟨project, planVersion, t.id⟩
  cases hb : acc.1.tasks.find? ⟨project, planVersion, t.id⟩ with
  | some row =>
    cases hc : acc'.1.tasks.find? ⟨project, planVersion, t.id⟩ with
    | some row' =>
      simp only [syncTask, hb, hc]
      exact h
    | none => exact absurd (hnone.mpr hc) (by rw [hb]; simp)
  | none =>
    have hc := hnone.mp hb
    simp only [syncTask, hb, hc]
    refine ⟨h.projects, h.artifacts, h.versions, h.evidence, ?_⟩
    show (acc.1.tasks.insertNew _).rows.map _ = (acc'.1.tasks.insertNew _).rows.map _
    rw [Table.insertNew_of_none hb, Table.insertNew_of_none hc, List.map_append, List.map_append,
      h.tasks]

theorem agree_foldl_syncTask (tasks : List DevTask) {acc acc' : Board × ℕ}
    (h : Agree acc.1 acc'.1) (project : String) (planVersion : ℤ) (runId actor : String) (now : ℤ) :
    Agree (tasks.foldl (syncTask project planVersion runId actor now) acc).1
      (tasks.foldl (syncTask project planVersion runId actor now) acc').1 := by
  induction tasks generalizing acc acc' with
  | nil => exact h
  | cons t tasks ih => exact ih (agree_syncTask h project planVersion runId actor now t)

theorem perform_authoritative (b : Board) (k : TaskKey) (status : TaskStatus) (actor : String)
    (u : TaskUpdate) (now : ℤ) :
    b.perform S (.authoritative k status actor u now) =
      match b.tasks.find? k with
      | none => (b.getTask k).map fun _ => b
      | some t =>
        if t.authoritativeStatus = status then .ok b
        else (checkTaskTransition t.authoritativeStatus status).map fun _ =>
          b.withAuthoritative k t status actor u now := by
  cases ht : b.tasks.find? k with
  | none =>
    have hget : b.getTask k = (b.getTask k).map fun t => t := by cases b.getTask k <;> rfl
    simp only [perform, setTaskAuthoritative, authoritativeTx]
    cases hb : b.getTask k with
    | error e => rfl
    | ok t =>
      rw [getTask_eq_ok, ht] at hb
      exact absurd hb (by simp)
  | some t =>
    have hb := getTask_eq_ok.mpr ht
    simp only [perform, setTaskAuthoritative, authoritativeTx, hb]
    by_cases hsame : t.authoritativeStatus = status
    · rw [if_pos hsame]
      show Except.map _ ((if t.authoritativeStatus = status then _ else _) >>= _) = _
      rw [if_pos hsame]
      rfl
    · rw [if_neg hsame]
      show Except.map _ ((if t.authoritativeStatus = status then _ else _) >>= _) = _
      rw [if_neg hsame]
      cases checkTaskTransition t.authoritativeStatus status with
      | error e => rfl
      | ok _ =>
        have hrow := find?_modify_of_some ht (authoritativeRow · status u now) (fun _ h => h) k
        rw [if_pos rfl] at hrow
        have hfound : (b.withAuthoritative k t status actor u now).getTask k =
          .ok (authoritativeRow t status u now) := getTask_eq_ok.mpr hrow
        show Except.map _ (((b.withAuthoritative k t status actor u now).getTask k) >>= _) = _
        rw [hfound]
        rfl

/-- The answers of two boards to one call. -/
def AgreeOn : Except BoardError Board → Except BoardError Board → Prop
  | .ok b, .ok c => Agree b c
  | .error e, .error e' => e = e'
  | _, _ => False

theorem agree_withAuthoritative (h : Agree b c) (k : TaskKey) (t t' : BoardTask)
    (status : TaskStatus) (actor : String) (u : TaskUpdate) (now : ℤ) :
    Agree (b.withAuthoritative k t status actor u now)
      (c.withAuthoritative k t' status actor u now) := by
  refine ⟨h.projects, h.artifacts, h.versions, h.evidence, ?_⟩
  have hrows : ∀ rows : List BoardTask,
      (rows.map fun t => if t.primaryKey = k then authoritativeRow t status u now else t).map
        authoritativeView =
      (rows.map authoritativeView).map fun t =>
        if t.primaryKey = k then authoritativeView (authoritativeRow t status u now) else t := by
    intro rows
    rw [List.map_map, List.map_map]
    refine List.map_congr_left fun t _ => ?_
    show authoritativeView (if t.primaryKey = k then _ else t) =
      if t.primaryKey = k then _ else authoritativeView t
    split <;> rfl
  show (b.tasks.rows.map _).map _ = (c.tasks.rows.map _).map _
  rw [hrows, hrows, h.tasks]

theorem agreeOn_authoritative (h : Agree b c) (k : TaskKey) (status : TaskStatus) (actor : String)
    (u : TaskUpdate) (now : ℤ) :
    AgreeOn (b.perform S (.authoritative k status actor u now))
      (c.perform S (.authoritative k status actor u now)) := by
  rw [perform_authoritative, perform_authoritative]
  cases hb : b.tasks.find? k with
  | none =>
    rw [(h.find?_eq_none k).mp hb]
    simp only [getTask, hb, (h.find?_eq_none k).mp hb]
    rfl
  | some t =>
    have hview := h.find? k
    rw [hb, Option.map_some] at hview
    obtain ⟨t', ht', hview⟩ := Option.map_eq_some_iff.mp hview.symm
    rw [ht']
    have hstatus : (authoritativeView t').authoritativeStatus =
        (authoritativeView t).authoritativeStatus := congrArg BoardTask.authoritativeStatus hview
    change t'.authoritativeStatus = t.authoritativeStatus at hstatus
    simp only [hstatus]
    split
    · exact h
    · cases checkTaskTransition t.authoritativeStatus status with
      | error e => rfl
      | ok _ => exact agree_withAuthoritative h k t t' status actor u now

theorem agreeOn_evidence (h : Agree b c) (k : TaskKey) (runId kind : String) (content : Bytes)
    (now : ℤ) :
    AgreeOn (b.perform S (.evidence k runId kind content now))
      (c.perform S (.evidence k runId kind content now)) := by
  have hprior : b.priorEvidence k runId kind (S.sha256 content) =
      c.priorEvidence k runId kind (S.sha256 content) := by
    rw [priorEvidence, priorEvidence, h.evidence]
  simp only [perform, attachTaskEvidence]
  split
  · rfl
  · cases hb : b.tasks.find? k with
    | none =>
      simp only [getTask, hb, (h.find?_eq_none k).mp hb]
      rfl
    | some t =>
      have hc : c.tasks.find? k ≠ none := fun hc => by
        rw [(h.find?_eq_none k).mpr hc] at hb
        exact absurd hb (by simp)
      obtain ⟨t', ht'⟩ := Option.ne_none_iff_exists'.mp hc
      simp only [getTask, hb, ht', hprior]
      cases c.priorEvidence k runId kind (S.sha256 content) with
      | some prior => exact h
      | none => exact ⟨h.projects, h.artifacts, h.versions, by
          show b.evidence ++ _ = c.evidence ++ _
          rw [h.evidence]
          rfl, h.tasks⟩

theorem agree_publish (h : Agree b c) (project key runId : String) (content : Bytes)
    (status : ArtifactStatus) (actor : String) (now : ℤ) :
    Agree (b.publishArtifactVersion S project key runId content status actor now).1
      (c.publishArtifactVersion S project key runId content status actor now).1 := by
  have hprior : b.priorVersion project key runId (S.sha256 content) =
      c.priorVersion project key runId (S.sha256 content) := by
    rw [priorVersion, priorVersion, h.versions]
  simp only [publishArtifactVersion, hprior]
  cases c.priorVersion project key runId (S.sha256 content) with
  | some prior => exact h
  | none =>
    refine ⟨h.projects, ?_, ?_, h.evidence, h.tasks⟩
    · simp only [h.artifacts, h.versions]
    · simp only [put, maxVersion, versionsOf, currentVersion, h.artifacts, h.versions]

/-- **Boards in agreement answer a workflow's call alike**, and stay in agreement. -/
theorem agreeOn_perform (h : Agree b c) {op : BoardOp} (hop : op.isAgent = false) :
    AgreeOn (b.perform S op) (c.perform S op) := by
  cases op with
  | ensureProject key repo =>
    show Agree (b.ensureProject key repo) (c.ensureProject key repo)
    simp only [ensureProject, h.projects]
    split
    · exact h
    · exact ⟨by rfl, h.artifacts, h.versions, h.evidence, h.tasks⟩
  | publish project key runId content status actor now =>
    exact agree_publish S h project key runId content status actor now
  | syncPlanTasks project planVersion runId tasks actor now =>
    exact agree_foldl_syncTask tasks h project planVersion runId actor now
  | authoritative k status actor u now => exact agreeOn_authoritative S h k status actor u now
  | observational k status actor expectRowVersion detail now => cases hop
  | evidence k runId kind content now => exact agreeOn_evidence S h k runId kind content now

theorem agree_run (h : Agree b c) {op : BoardOp} (hop : op.isAgent = false) :
    b.outcome S op = c.outcome S op ∧ Agree (b.run S op) (c.run S op) := by
  have hon := agreeOn_perform S h hop
  unfold outcome run
  cases hb : b.perform S op with
  | error e =>
    cases hc : c.perform S op with
    | error e' =>
      rw [hb, hc] at hon
      exact ⟨congrArg Except.error hon, h⟩
    | ok c' =>
      rw [hb, hc] at hon
      exact hon.elim
  | ok b' =>
    cases hc : c.perform S op with
    | error e' =>
      rw [hb, hc] at hon
      exact hon.elim
    | ok c' =>
      rw [hb, hc] at hon
      exact ⟨rfl, hon⟩

/-! ## 3. Histories -/

/-- What a history shows of authority: for each call that is not an agent's, in order, what it
answers and the authoritative status of every task after it. -/
def authoritativeHistory (S : BlobStore) :
    Board → List BoardOp → List (Except BoardError Unit × (TaskKey → Option TaskStatus))
  | _, [] => []
  | b, op :: ops =>
    if op.isAgent then authoritativeHistory S (b.run S op) ops
    else (b.outcome S op, (b.run S op).authoritativeStatus) ::
      authoritativeHistory S (b.run S op) ops

/-- The board after a history. -/
def runAll (S : BlobStore) (b : Board) (ops : List BoardOp) : Board := ops.foldl (run S) b

def workflowCalls (ops : List BoardOp) : List BoardOp := ops.filter fun op => !op.isAgent

theorem agree_workflowCalls (ops : List BoardOp) (h : Agree b c) :
    authoritativeHistory S b ops = authoritativeHistory S c (workflowCalls ops) ∧
      Agree (runAll S b ops) (runAll S c (workflowCalls ops)) := by
  induction ops generalizing b c with
  | nil => exact ⟨rfl, h⟩
  | cons op ops ih =>
    cases hop : op.isAgent with
    | true =>
      have hskip : workflowCalls (op :: ops) = workflowCalls ops :=
        List.filter_cons_of_neg (by rw [hop]; decide)
      rw [hskip, authoritativeHistory, if_pos hop]
      exact ih ((agree_observational S b hop).trans h)
    | false =>
      have hkeep : workflowCalls (op :: ops) = op :: workflowCalls ops :=
        List.filter_cons_of_pos (by rw [hop]; decide)
      obtain ⟨hout, hagree⟩ := agree_run S h hop
      obtain ⟨hhistory, hend⟩ := ih hagree
      have hview : (b.run S op).authoritativeStatus = (c.run S op).authoritativeStatus :=
        funext hagree.authoritativeStatus_eq
      rw [hkeep, authoritativeHistory, authoritativeHistory, if_neg (by rw [hop]; decide),
        if_neg (by rw [hop]; decide), hout, hview, hhistory]
      exact ⟨rfl, hend⟩

theorem Agree.stats (h : Agree b c) (project : String) :
    (b.stats project).tasksByStatus = (c.stats project).tasksByStatus ∧
      (b.stats project).totalFixAttempts = (c.stats project).totalFixAttempts ∧
      (b.stats project).tasksWithError = (c.stats project).tasksWithError := by
  have hview : ∀ d : Board, (d.tasks.rows.filter (·.project = project)).map authoritativeView =
      (d.tasks.rows.map authoritativeView).filter (·.project = project) := by
    intro d
    rw [List.filter_map]
    rfl
  have hrows : (b.tasks.rows.filter (·.project = project)).map authoritativeView =
      (c.tasks.rows.filter (·.project = project)).map authoritativeView := by
    rw [hview, hview, h.tasks]
  have hcount : ∀ p : BoardTask → Bool, (∀ t, p (authoritativeView t) = p t) →
      (b.tasks.rows.filter (·.project = project)).countP p =
        (c.tasks.rows.filter (·.project = project)).countP p := by
    intro p hp
    have := congrArg (List.countP p) hrows
    rw [List.countP_map, List.countP_map] at this
    rwa [show p ∘ authoritativeView = p from funext hp] at this
  refine ⟨?_, ?_, hcount _ fun _ => rfl⟩
  · simp only [Board.stats, hcount (fun t => t.authoritativeStatus = _) fun _ => rfl]
  · have := congrArg (fun rows => (rows.map BoardTask.fixAttempts).sum) hrows
    simp only [List.map_map] at this
    exact this

/-- **Agents do not interfere.**  Two histories from one board with the same calls but for agents'
writes show the same: every workflow call answers alike and leaves every task with the same
authoritative status, and the statistics count the same tasks, fixes and errors.  An agent's write
moves no authoritative status. -/
theorem agents_noninterfering (S : BlobStore) (b : Board) (ops ops' : List BoardOp)
    (h : workflowCalls ops = workflowCalls ops') :
    authoritativeHistory S b ops = authoritativeHistory S b ops' ∧
    (∀ project, let s := (runAll S b ops).stats project
      let s' := (runAll S b ops').stats project
      s.tasksByStatus = s'.tasksByStatus ∧ s.totalFixAttempts = s'.totalFixAttempts ∧
        s.tasksWithError = s'.tasksWithError) ∧
    ∀ c op, op.isAgent = true → (run S c op).authoritativeStatus = c.authoritativeStatus := by
  obtain ⟨hhistory, hend⟩ := agree_workflowCalls S ops (.refl b)
  obtain ⟨hhistory', hend'⟩ := agree_workflowCalls S ops' (.refl b)
  rw [h] at hhistory hend
  refine ⟨hhistory.trans hhistory'.symm, (hend.trans hend'.symm).stats, fun c op hop => ?_⟩
  exact funext (agree_observational S c hop).authoritativeStatus_eq

theorem agents_noninterfering_sample :
    authoritativeHistory plainBlobs {} claimScript =
      authoritativeHistory plainBlobs {} (workflowCalls claimScript) ∧
    (workflowCalls claimScript).length < claimScript.length :=
  ⟨(agents_noninterfering plainBlobs {} claimScript (workflowCalls claimScript) rfl).1,
    by decide +kernel⟩

end Board

end Kroker
