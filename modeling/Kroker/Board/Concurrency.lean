import Kroker.Board.Writes

/-!
# Concurrent task writes

Any number of clients, each with a connection of its own, call the two task writes at once.  A
write's transaction takes the database's write lock, so transactions run one after another; but a
write reads the row it returns in a statement of its own, after its transaction has committed.  A
call here is in one of the phases that this leaves: begun, committed but not yet read, and answered.
-/

namespace Kroker

inductive TaskCall where
  | authoritative (k : TaskKey) (status : TaskStatus) (actor : String) (u : Board.TaskUpdate) (now : ℤ)
  | observational (k : TaskKey) (status : TaskStatus) (actor : String) (expectRowVersion : ℤ)
      (detail : String) (now : ℤ)

namespace TaskCall

def task : TaskCall → TaskKey
  | authoritative k .. => k
  | observational k .. => k

def status : TaskCall → TaskStatus
  | authoritative _ status .. => status
  | observational _ status .. => status

def expects : TaskCall → Option ℤ
  | authoritative .. => none
  | observational _ _ _ expectRowVersion _ _ => some expectRowVersion

end TaskCall

inductive CallPhase where
  | begun
  /-- The transaction has committed, and the row to return is not read yet. -/
  | committed
  | returned (t : BoardTask)
  | raised (e : BoardError)
  /-- The write lock could not be had in time. -/
  | locked
  deriving DecidableEq

structure ClientCall where
  call : TaskCall
  phase : CallPhase := .begun
  /-- The row as its own transaction left it, if that moved it.  No step reads this. -/
  wrote : Option BoardTask := none

/-- The transaction of a call: the board after it, the phase it leaves the call in, and the row it
wrote. -/
def TaskCall.transact (b : Board) : TaskCall → Board × CallPhase × Option BoardTask
  | .authoritative k status actor u now =>
    match b.authoritativeTx k status actor u now with
    | .ok (b', some t) => (b', .returned t, none)
    | .ok (b', none) => (b', .committed, b'.tasks.find? k)
    | .error e => (b, .raised e, none)
  | .observational k status actor expectRowVersion detail now =>
    match b.observationalTx k status actor expectRowVersion detail now with
    | .ok b' => (b', .committed, b'.tasks.find? k)
    | .error e => (b, .raised e, none)

/-- The database and every call ever made. -/
structure Clients where
  board : Board := {}
  calls : List ClientCall := []

/-- A call of another method. -/
def BoardOp.isTaskWrite : BoardOp → Bool
  | .authoritative .. => true
  | .observational .. => true
  | _ => false

inductive ClientEvent where
  | other (op : BoardOp)
  | read (k : TaskKey)
  | enter (c : TaskCall)
  | busy (i : ℕ)
  | transact (i : ℕ)
  /-- The read of the row to return. -/
  | finish (i : ℕ)

namespace Clients

/-- What the read after the transaction answers. -/
def answer (b : Board) (k : TaskKey) : CallPhase :=
  match b.getTask k with
  | .ok t => .returned t
  | .error e => .raised e

def next (S : BlobStore) (s : Clients) : ClientEvent → Option Clients
  | .other op => if op.isTaskWrite then none else some { s with board := s.board.run S op }
  | .read _ => some s
  | .enter c => some { s with calls := s.calls ++ [{ call := c }] }
  | .busy i =>
    match s.calls[i]? with
    | some ⟨call, .begun, wrote⟩ => some { s with calls := s.calls.set i ⟨call, .locked, wrote⟩ }
    | _ => none
  | .transact i =>
    match s.calls[i]? with
    | some ⟨call, .begun, _⟩ =>
      let (b, phase, wrote) := call.transact s.board
      some { board := b, calls := s.calls.set i ⟨call, phase, wrote⟩ }
    | _ => none
  | .finish i =>
    match s.calls[i]? with
    | some ⟨call, .committed, wrote⟩ =>
      some { s with calls := s.calls.set i ⟨call, answer s.board call.task, wrote⟩ }
    | _ => none

end Clients

abbrev ClientRun (S : BlobStore) := Run ({} : Clients) (Clients.next S)

/-! ## 1. What a transaction does -/

/-- The store lets a call move its task from a row. -/
def TaskCall.Permitted (t : BoardTask) : TaskCall → Prop
  | .authoritative _ status .. =>
    t.authoritativeStatus ≠ status ∧ status ∈ t.authoritativeStatus.transitions
  | .observational _ status _ expectRowVersion .. =>
    (t.rowVersion : ℤ) = expectRowVersion ∧ status ∈ t.status.transitions

structure TaskCall.Moved (c : TaskCall) (b b' : Board) (row : BoardTask) : Prop where
  status : row.status = c.status
  found : ∃ t, b.tasks.find? c.task = some t ∧ c.Permitted t ∧ row.rowVersion = t.rowVersion + 1
  expected : ∀ v, c.expects = some v → (row.rowVersion : ℤ) = v + 1
  tasks : ∀ j, b'.tasks.find? j = if c.task = j then some row else b.tasks.find? j

theorem TaskCall.transact_spec (c : TaskCall) (b : Board) :
    (c.transact b).2.2 = none ∧ (c.transact b).1 = b ∧
        ((∃ t, (c.transact b).2.1 = .returned t) ∨ ∃ e, (c.transact b).2.1 = .raised e) ∨
      ∃ row, (c.transact b).2.2 = some row ∧ (c.transact b).2.1 = .committed ∧
        c.Moved b (c.transact b).1 row := by
  cases c with
  | authoritative k status actor u now =>
    cases htx : b.authoritativeTx k status actor u now with
    | error e =>
      have htransact : (authoritative k status actor u now).transact b = (b, .raised e, none) := by
        simp only [transact, htx]
      rw [htransact]
      exact Or.inl ⟨rfl, rfl, Or.inr ⟨e, rfl⟩⟩
    | ok r =>
      obtain ⟨b', early⟩ := r
      obtain ⟨t, ht, ⟨-, rfl, rfl⟩ | ⟨hne, hlegal, rfl, rfl⟩⟩ := Board.authoritativeTx_eq_ok.mp htx
      · have htransact : (authoritative k status actor u now).transact b' =
            (b', .returned t, none) := by
          simp only [transact, htx]
        rw [htransact]
        exact Or.inl ⟨rfl, rfl, Or.inl ⟨t, rfl⟩⟩
      · have hfind := Board.find?_modify_of_some ht (Board.authoritativeRow · status u now)
          (fun _ h => h)
        have htransact : (authoritative k status actor u now).transact b =
            (b.withAuthoritative k t status actor u now, .committed,
              some (Board.authoritativeRow t status u now)) := by
          simp only [transact, htx]
          exact congrArg (fun row => (_, _, row)) ((hfind k).trans (if_pos rfl))
        rw [htransact]
        exact Or.inr ⟨_, rfl, rfl, rfl, ⟨t, ht, ⟨hne, hlegal⟩, rfl⟩,
          fun v h => absurd h (by simp [expects]), hfind⟩
  | observational k status actor expectRowVersion detail now =>
    cases htx : b.observationalTx k status actor expectRowVersion detail now with
    | error e =>
      have htransact : (observational k status actor expectRowVersion detail now).transact b =
          (b, .raised e, none) := by
        simp only [transact, htx]
      rw [htransact]
      exact Or.inl ⟨rfl, rfl, Or.inr ⟨e, rfl⟩⟩
    | ok b' =>
      obtain ⟨t, ht, hversion, hlegal, rfl⟩ := Board.observationalTx_eq_ok.mp htx
      have hfind := Board.find?_modify_of_some ht (Board.observationalRow · status now)
        (fun _ h => h)
      have htransact : (observational k status actor expectRowVersion detail now).transact b =
          (b.withObservational k t status actor detail now, .committed,
            some (Board.observationalRow t status now)) := by
        simp only [transact, htx]
        exact congrArg (fun row => (_, _, row)) ((hfind k).trans (if_pos rfl))
      rw [htransact]
      refine Or.inr ⟨_, rfl, rfl, rfl, ⟨t, ht, ⟨hversion, hlegal⟩, rfl⟩, ?_, hfind⟩
      rintro v ⟨⟩
      show ((t.rowVersion + 1 : ℕ) : ℤ) = expectRowVersion + 1
      rw [← hversion]
      rfl

theorem find?_foldl_syncTask (tasks : List DevTask) (acc : Board × ℕ) (project : String)
    (planVersion : ℤ) (runId actor : String) (now : ℤ) {k : TaskKey} {t : BoardTask}
    (ht : acc.1.tasks.find? k = some t) :
    (tasks.foldl (Board.syncTask project planVersion runId actor now) acc).1.tasks.find? k =
      some t := by
  induction tasks generalizing acc with
  | nil => exact ht
  | cons task tasks ih =>
    refine ih _ ?_
    cases h : acc.1.tasks.find? ⟨project, planVersion, task.id⟩ with
    | some row =>
      simp only [Board.syncTask, h]
      exact ht
    | none =>
      simp only [Board.syncTask, h]
      rw [Table.find?_insertNew, ht, Option.some_or]

theorem find?_run_of_other (S : BlobStore) (b : Board) {op : BoardOp} (hop : op.isTaskWrite = false)
    {k : TaskKey} {t : BoardTask} (ht : b.tasks.find? k = some t) :
    (b.run S op).tasks.find? k = some t := by
  cases op with
  | ensureProject key repo =>
    show (b.ensureProject key repo).tasks.find? k = some t
    unfold Board.ensureProject
    split <;> exact ht
  | publish project key runId content status actor now =>
    show (b.publishArtifactVersion S project key runId content status actor now).1.tasks.find? k = _
    unfold Board.publishArtifactVersion
    cases b.priorVersion project key runId (S.sha256 content) <;> exact ht
  | syncPlanTasks project planVersion runId tasks actor now =>
    exact find?_foldl_syncTask tasks (b, 0) project planVersion runId actor now ht
  | authoritative k status actor u now => cases hop
  | observational k status actor expectRowVersion detail now => cases hop
  | evidence k' runId kind content now =>
    unfold Board.run
    cases h : b.perform S (.evidence k' runId kind content now) with
    | error e => exact ht
    | ok b' =>
      obtain ⟨⟨c, ref⟩, hattach, rfl⟩ := map_eq_ok.mp h
      obtain ⟨prior, -, rfl⟩ | ⟨-, rfl⟩ := Board.attachTaskEvidence_eq_ok hattach <;> exact ht

/-! ## 2. What one event does -/

namespace Clients

/-- One event: another method's call, a new call, an answer without a write, a write, and the read
after a write. -/
inductive Step (s s' : Clients) : ClientEvent → Prop
  | quiet {e : ClientEvent} (event : ∀ i, e ≠ .transact i) (calls : s'.calls = s.calls)
      (tasks : ∀ k t, s.board.tasks.find? k = some t → s'.board.tasks.find? k = some t) : Step s s' e
  | enter (c : TaskCall) (calls : s'.calls = s.calls ++ [{ call := c }])
      (board : s'.board = s.board) : Step s s' (.enter c)
  | rest {e : ClientEvent} (i : ℕ) (call : TaskCall) (wrote : Option BoardTask) (phase : CallPhase)
      (found : s.calls[i]? = some ⟨call, .begun, wrote⟩)
      (calls : s'.calls = s.calls.set i ⟨call, phase, none⟩) (board : s'.board = s.board)
      (begun : phase ≠ .begun) (committed : phase ≠ .committed) : Step s s' e
  | move (i : ℕ) (call : TaskCall) (wrote : Option BoardTask) (row : BoardTask)
      (found : s.calls[i]? = some ⟨call, .begun, wrote⟩)
      (calls : s'.calls = s.calls.set i ⟨call, .committed, some row⟩)
      (moved : call.Moved s.board s'.board row) : Step s s' (.transact i)
  | answer (i : ℕ) (call : TaskCall) (wrote : Option BoardTask)
      (found : s.calls[i]? = some ⟨call, .committed, wrote⟩)
      (calls : s'.calls = s.calls.set i ⟨call, Clients.answer s.board call.task, wrote⟩)
      (board : s'.board = s.board) : Step s s' (.finish i)

/-- No call in phase `begun` has written. -/
def BegunUnwritten (s : Clients) : Prop :=
  ∀ (i : ℕ) (call : TaskCall) (row : BoardTask), s.calls[i]? ≠ some ⟨call, .begun, some row⟩

variable {s s' : Clients}

variable {e : ClientEvent}

theorem step_of_next {S : BlobStore} (hs : BegunUnwritten s) (h : next S s e = some s') :
    Step s s' e := by
  cases e with
  | other op =>
    simp only [next] at h
    split at h
    · exact absurd h (by simp)
    · rename_i hop
      obtain rfl := Option.some.inj h
      exact .quiet nofun rfl fun k t ht => find?_run_of_other S s.board (Bool.eq_false_iff.mpr hop) ht
  | read k =>
    obtain rfl := Option.some.inj h
    exact .quiet nofun rfl fun _ _ ht => ht
  | enter c =>
    obtain rfl := Option.some.inj h
    exact .enter c rfl rfl
  | busy i =>
    simp only [next] at h
    split at h
    · rename_i call wrote hfound
      obtain rfl := Option.some.inj h
      cases wrote with
      | none => exact .rest i call none .locked hfound rfl rfl (by simp) (by simp)
      | some row => exact absurd hfound (hs i call row)
    · exact absurd h (by simp)
  | transact i =>
    simp only [next] at h
    split at h
    · rename_i call wrote hfound
      obtain rfl := Option.some.inj h
      rcases call.transact_spec s.board with ⟨hwrote, hboard, hphase⟩ | ⟨row, hwrote, hphase, hmoved⟩
      · rw [hwrote]
        refine .rest i call wrote _ hfound rfl hboard ?_ ?_
        · rcases hphase with ⟨t, ht⟩ | ⟨e, he⟩ <;> simp [*]
        · rcases hphase with ⟨t, ht⟩ | ⟨e, he⟩ <;> simp [*]
      · rw [hwrote, hphase]
        exact .move i call wrote row hfound rfl hmoved
    · exact absurd h (by simp)
  | finish i =>
    simp only [next] at h
    split at h
    · rename_i call wrote hfound
      obtain rfl := Option.some.inj h
      exact .answer i call wrote hfound rfl rfl
    · exact absurd h (by simp)

theorem getElem?_set_of_some {α : Type} {l : List α} {i : ℕ} {a : α} (h : l[i]? = some a) (b : α)
    (j : ℕ) : (l.set i b)[j]? = if i = j then some b else l[j]? := by
  obtain ⟨hlt, -⟩ := List.getElem?_eq_some_iff.mp h
  rw [List.getElem?_set, if_pos hlt]

def Wrote (s : Clients) (i : ℕ) (call : TaskCall) (phase : CallPhase) (row : BoardTask) : Prop :=
  s.calls[i]? = some ⟨call, phase, some row⟩

theorem Step.wrote (h : Step s s' e) {i : ℕ} {call : TaskCall} {phase : CallPhase} {row : BoardTask}
    (hwrote : Wrote s' i call phase row) :
    Wrote s i call phase row ∨
      (e = .transact i ∧ phase = .committed ∧ (∃ wrote, s.calls[i]? = some ⟨call, .begun, wrote⟩) ∧
        call.Moved s.board s'.board row) ∨
      e = .finish i ∧ Wrote s i call .committed row ∧ phase = Clients.answer s.board call.task := by
  unfold Wrote at hwrote
  cases h with
  | quiet event calls tasks =>
    rw [calls] at hwrote
    exact Or.inl hwrote
  | enter c calls board =>
    rw [calls, List.getElem?_append] at hwrote
    split at hwrote
    · exact Or.inl hwrote
    · rw [List.getElem?_singleton] at hwrote
      split at hwrote
      · simp at hwrote
      · exact absurd hwrote (by simp)
  | rest j call' wrote phase' found calls board begun committed =>
    rw [calls, getElem?_set_of_some found] at hwrote
    split at hwrote
    · simp at hwrote
    · exact Or.inl hwrote
  | move j call' wrote row' found calls moved =>
    rw [calls, getElem?_set_of_some found] at hwrote
    split at hwrote
    · rename_i hij
      subst hij
      cases hwrote
      exact Or.inr (Or.inl ⟨rfl, rfl, ⟨wrote, found⟩, moved⟩)
    · exact Or.inl hwrote
  | answer j call' wrote found calls board =>
    rw [calls, getElem?_set_of_some found] at hwrote
    split at hwrote
    · rename_i hij
      subst hij
      cases hwrote
      exact Or.inr (Or.inr ⟨rfl, found, rfl⟩)
    · exact Or.inl hwrote

theorem Step.rowVersion_le (h : Step s s' e) {k : TaskKey} {t : BoardTask}
    (ht : s.board.tasks.find? k = some t) :
    ∃ t', s'.board.tasks.find? k = some t' ∧ t.rowVersion ≤ t'.rowVersion := by
  cases h with
  | quiet event calls tasks => exact ⟨t, tasks k t ht, Nat.le_refl _⟩
  | enter c calls board => exact ⟨t, board ▸ ht, Nat.le_refl _⟩
  | rest j call wrote phase found calls board => exact ⟨t, board ▸ ht, Nat.le_refl _⟩
  | answer j call wrote found calls board => exact ⟨t, board ▸ ht, Nat.le_refl _⟩
  | move j call wrote row found calls moved =>
    obtain ⟨u, hu, -, hversion⟩ := moved.found
    by_cases hk : call.task = k
    · subst hk
      rw [ht] at hu
      obtain rfl := Option.some.inj hu
      exact ⟨row, (moved.tasks _).trans (if_pos rfl), by omega⟩
    · exact ⟨t, ((moved.tasks k).trans (if_neg hk)).trans ht, Nat.le_refl _⟩

/-! ## 3. Every interleaving -/

theorem answer_ne_begun (b : Board) (k : TaskKey) : answer b k ≠ .begun := by
  unfold answer
  cases b.getTask k <;> simp

theorem answer_of_find? {b : Board} {k : TaskKey} {t : BoardTask} (h : b.tasks.find? k = some t) :
    answer b k = .returned t := by
  unfold answer
  rw [Board.getTask_eq_ok.mpr h]

/-- What holds of every interleaving: a written row is what its call asked for, its version is not
above the task's, and no two calls wrote the same version of one task. -/
structure Serialized (s : Clients) : Prop where
  begun : BegunUnwritten s
  row : ∀ {i call phase row}, Wrote s i call phase row → row.status = call.status ∧
    (∀ v, call.expects = some v → (row.rowVersion : ℤ) = v + 1) ∧
    ∃ t, s.board.tasks.find? call.task = some t ∧ row.rowVersion ≤ t.rowVersion
  distinct : ∀ {i j call call' phase phase' row row'}, Wrote s i call phase row →
    Wrote s j call' phase' row' → call.task = call'.task → row.rowVersion = row'.rowVersion → i = j

theorem Step.wrote_or_moved (h : Step s s' e) {i : ℕ} {call : TaskCall} {phase : CallPhase}
    {row : BoardTask} (hwrote : Wrote s' i call phase row) :
    (∃ phase', Wrote s i call phase' row) ∨
      e = .transact i ∧ call.Moved s.board s'.board row := by
  rcases h.wrote hwrote with hold | ⟨he, -, -, hmoved⟩ | ⟨-, hold, -⟩
  · exact Or.inl ⟨_, hold⟩
  · exact Or.inr ⟨he, hmoved⟩
  · exact Or.inl ⟨_, hold⟩

theorem Serialized.lt_of_moved (hs : Serialized s) {call call' : TaskCall} {row row' : BoardTask}
    {i : ℕ} {phase : CallPhase} (hold : Wrote s i call phase row)
    (hmoved : call'.Moved s.board s'.board row') (htask : call.task = call'.task) :
    row.rowVersion < row'.rowVersion := by
  obtain ⟨-, -, t, ht, hle⟩ := hs.row hold
  obtain ⟨u, hu, -, hversion⟩ := hmoved.found
  rw [← htask, ht] at hu
  obtain rfl := Option.some.inj hu
  omega

theorem Serialized.step (hs : Serialized s) (h : Step s s' e) :
    Serialized s' where
  begun i call row hbegun := by
    rcases h.wrote hbegun with hold | ⟨-, hphase, -⟩ | ⟨-, -, hphase⟩
    · exact hs.begun i call row hold
    · exact absurd hphase (by simp)
    · exact answer_ne_begun _ _ hphase.symm
  row {i call phase row} hwrote := by
    rcases h.wrote_or_moved hwrote with ⟨phase', hold⟩ | ⟨-, hmoved⟩
    · obtain ⟨hstatus, hexpected, t, ht, hle⟩ := hs.row hold
      obtain ⟨t', ht', hle'⟩ := h.rowVersion_le ht
      exact ⟨hstatus, hexpected, t', ht', hle.trans hle'⟩
    · exact ⟨hmoved.status, hmoved.expected, row, (hmoved.tasks _).trans (if_pos rfl), Nat.le_refl _⟩
  distinct {i j call call' phase phase' row row'} hi hj htask hversion := by
    rcases h.wrote_or_moved hi with ⟨_, hi⟩ | ⟨hei, himoved⟩
    · rcases h.wrote_or_moved hj with ⟨_, hj⟩ | ⟨-, hjmoved⟩
      · exact hs.distinct hi hj htask hversion
      · have := hs.lt_of_moved hi hjmoved htask
        omega
    · rcases h.wrote_or_moved hj with ⟨_, hj⟩ | ⟨hej, -⟩
      · have := hs.lt_of_moved hj himoved htask.symm
        omega
      · cases hei.symm.trans hej
        rfl

theorem serialized_of_run {S : BlobStore} {log : List (Transition Clients ClientEvent)}
    (run : ClientRun S log s) : Serialized s := by
  refine run.induct (P := fun _ s => Serialized s) ⟨?_, ?_, ?_⟩
    fun _ s e s' _ hs h => hs.step (step_of_next hs.begun h)
  · intro i call row h
    simp at h
  · intro i call phase row h
    simp [Wrote] at h
  · intro i j call call' phase phase' row row' h
    simp [Wrote] at h

/-- No transaction that the store permits runs on a task that another call has committed and not yet
read. -/
def Undisturbed (x : Transition Clients ClientEvent) : Prop :=
  ∀ i call wrote, x.event = .transact i → x.before.calls[i]? = some ⟨call, .begun, wrote⟩ →
    ∀ t, x.before.board.tasks.find? call.task = some t → call.Permitted t →
      ∀ j call' row, Wrote x.before j call' .committed row → call'.task ≠ call.task

def ReturnsOwn (s : Clients) : Prop :=
  ∀ i call phase row, Wrote s i call phase row →
    phase = .committed ∧ s.board.tasks.find? call.task = some row ∨ phase = .returned row

theorem ReturnsOwn.step (hs : ReturnsOwn s) (h : Step s s' e)
    (hundisturbed : Undisturbed ⟨s, e, s'⟩) : ReturnsOwn s' := by
  intro i call phase row hwrote
  rcases h.wrote hwrote with hold | ⟨-, rfl, -, hmoved⟩ | ⟨-, hold, rfl⟩
  · rcases hs i call phase row hold with ⟨rfl, hrow⟩ | hreturned
    · refine Or.inl ⟨rfl, ?_⟩
      cases h with
      | quiet event calls tasks => exact tasks _ _ hrow
      | enter c calls board => exact board ▸ hrow
      | rest j call' wrote phase found calls board => exact board ▸ hrow
      | answer j call' wrote found calls board => exact board ▸ hrow
      | move j call' wrote row' found calls moved =>
        obtain ⟨t, ht, hpermitted, -⟩ := moved.found
        have hne := hundisturbed j call' wrote rfl found t ht hpermitted i call row hold
        exact ((moved.tasks _).trans (if_neg hne.symm)).trans hrow
    · exact Or.inr hreturned
  · exact Or.inl ⟨rfl, (hmoved.tasks _).trans (if_pos rfl)⟩
  · rcases hs i call .committed row hold with ⟨-, hrow⟩ | hreturned
    · exact Or.inr (answer_of_find? hrow)
    · exact absurd hreturned (by simp)

theorem returnsOwn_of_run {S : BlobStore} {log : List (Transition Clients ClientEvent)}
    (run : ClientRun S log s) (hundisturbed : ∀ x ∈ log, Undisturbed x) :
    ReturnsOwn s := by
  induction run with
  | start =>
    intro i call phase row h
    simp [Wrote] at h
  | step run accepted ih =>
    have hs := serialized_of_run run
    rw [List.forall_mem_cons] at hundisturbed
    exact (ih hundisturbed.2).step (step_of_next hs.begun accepted) hundisturbed.1

/-- **Task writes are serialized**, in every interleaving: of the calls that expect one row version
of one task at most one writes; a transaction that does not write leaves the board as it was; and
if no transaction moves a task that another call has committed and not yet read, every call that
wrote returns the row that it wrote, or has yet to. -/
theorem writes_serialized {S : BlobStore} {log : List (Transition Clients ClientEvent)}
    {s : Clients} (run : ClientRun S log s) :
    (∀ i j call call' phase phase' row row', Wrote s i call phase row → Wrote s j call' phase' row' →
      call.task = call'.task → ∀ v, call.expects = some v → call'.expects = some v → i = j) ∧
    (∀ i call phase row, Wrote s i call phase row → row.status = call.status ∧
      ∀ v, call.expects = some v → (row.rowVersion : ℤ) = v + 1) ∧
    (∀ x ∈ log, ∀ i, x.event = .transact i ∧ (∀ call phase row, ¬Wrote x.after i call phase row) ∨
      x.event = .busy i → x.after.board = x.before.board) ∧
    ((∀ x ∈ log, Undisturbed x) → ∀ i call phase row, Wrote s i call phase row →
      phase = .committed ∨ phase = .returned row) := by
  have hs := serialized_of_run run
  refine ⟨fun i j call call' phase phase' row row' hi hj htask v hv hv' => ?_,
    fun i call phase row hwrote => ⟨(hs.row hwrote).1, (hs.row hwrote).2.1⟩,
    fun x hx i hrejected => ?_, fun hundisturbed i call phase row hwrote => ?_⟩
  · have hversion := (hs.row hi).2.1 v hv
    have hversion' := (hs.row hj).2.1 v hv'
    exact hs.distinct hi hj htask (by omega)
  · obtain ⟨⟨_, before⟩, haccepted, -⟩ := run.reachable_of_mem x hx
    rcases hrejected with ⟨hevent, hunwritten⟩ | hevent
    · rw [hevent] at haccepted
      cases step_of_next (serialized_of_run before).begun haccepted with
      | quiet event => exact absurd rfl (event i)
      | rest j call wrote phase found calls board => exact board
      | move j call wrote row found calls moved =>
        have hset := getElem?_set_of_some found ⟨call, .committed, some row⟩ i
        rw [if_pos rfl, ← calls] at hset
        exact absurd hset (hunwritten call .committed row)
    · rw [hevent] at haccepted
      simp only [next] at haccepted
      split at haccepted
      · exact (congrArg Clients.board (Option.some.inj haccepted)).symm
      · exact absurd haccepted (by simp)
  · rcases returnsOwn_of_run run hundisturbed i call phase row hwrote with ⟨hphase, -⟩ | hphase
    · exact Or.inl hphase
    · exact Or.inr hphase

def scripted (S : BlobStore) (script : List ClientEvent) :
    List (Transition Clients ClientEvent) × Clients :=
  (runScript (next S) ([], {}) script).getD ([], {})

theorem run_scripted (S : BlobStore) (script : List ClientEvent) :
    ClientRun S (scripted S script).1 (scripted S script).2 := by
  unfold scripted
  cases h : runScript (next S) ([], {}) script with
  | none => exact .start
  | some q => exact Run.of_runScript (p := ([], {})) Run.start h

/-- Two agents claim a task with the same row version, and a third finishes it.  The first reads its
answer before the others' transactions run. -/
def claimsInTurn : List ClientEvent :=
  [.other (.syncPlanTasks "demo" 1 "run" [⟨"t1", "first"⟩] "workflow:run" 0),
    .enter (.observational Board.sampleTask .inProgress "agent:a" 1 "claim" 1),
    .enter (.observational Board.sampleTask .inProgress "agent:b" 1 "claim" 1),
    .enter (.observational Board.sampleTask .done "agent:c" 2 "" 2),
    .transact 0, .finish 0, .transact 1, .transact 2, .finish 2]

/-- The third finishes the task before the first has read its answer. -/
def claimOvertaken : List ClientEvent :=
  claimsInTurn.take 4 ++ [.transact 0, .transact 2, .finish 0]

/-- Every call has been answered. -/
def AtRest (s : Clients) : Prop := ∀ c ∈ s.calls, c.phase ≠ .committed

instance (s : Clients) : Decidable (AtRest s) :=
  inferInstanceAs (Decidable (∀ c ∈ s.calls, c.phase ≠ .committed))

theorem undisturbed_of_atRest {x : Transition Clients ClientEvent}
    (h : AtRest x.before ∨ ∃ i, x.event = .finish i) : Undisturbed x := by
  rintro i call wrote hevent - t - - j call' row hwrote
  rcases h with h | ⟨k, hk⟩
  · exact absurd rfl (h _ (List.mem_of_getElem? hwrote))
  · exact absurd (hevent.symm.trans hk) (by simp)

theorem writes_serialized_sample :
    ((scripted Board.plainBlobs claimsInTurn).2.calls.map fun c => c.wrote.isSome) =
      [true, false, true] ∧
    ∀ i call phase row, Wrote (scripted Board.plainBlobs claimsInTurn).2 i call phase row →
      phase = .committed ∨ phase = .returned row := by
  refine ⟨by decide +kernel, (writes_serialized (run_scripted Board.plainBlobs
    claimsInTurn)).2.2.2 fun x hx => undisturbed_of_atRest ?_⟩
  have hrest : ∀ x ∈ (scripted Board.plainBlobs claimsInTurn).1, AtRest x.before ∨
      (match x.event with | .finish _ => true | _ => false) = true := by decide +kernel
  rcases hrest x hx with hrest | hfinish
  · exact Or.inl hrest
  · refine Or.inr ?_
    cases hevent : x.event with
    | finish i => exact ⟨i, rfl⟩
    | _ => rw [hevent] at hfinish; cases hfinish

def claimedRow : BoardTask :=
  { project := "demo", planVersion := 1, taskId := "t1", runId := "run", status := .inProgress,
    authoritativeStatus := .pending, rowVersion := 2, updatedAt := 1 }

/-- The first claim, of row version 1, is answered with the third agent's row: version 3, and
done. -/
theorem answer_overtaken : ¬∀ log s, ClientRun Board.plainBlobs log s →
    ∀ i call row t, Wrote s i call (.returned t) row →
      t = row ∧ t.status = call.status ∧
        ∀ v, call.expects = some v → (t.rowVersion : ℤ) = v + 1 := by
  intro hall
  have hwrote : Wrote (scripted Board.plainBlobs claimOvertaken).2 0
      (.observational Board.sampleTask .inProgress "agent:a" 1 "claim" 1)
      (.returned { claimedRow with status := .done, rowVersion := 3, updatedAt := 2 }) claimedRow :=
    rfl
  have hrow := (hall _ _ (run_scripted Board.plainBlobs claimOvertaken) _ _ _ _ hwrote).1
  exact absurd (congrArg BoardTask.rowVersion hrow) (by decide)

end Clients

end Kroker
