import Kroker.Board.Authority

/-!
# What an agent can do to a finished task

Agents write through the two routes of `board/api.py`, which share one body (`agentWrite`): it
checks the project, the `If-Match` header and the plan, and calls `set_task_observational`.  Nothing
on that path looks at whether the task is done, and the transition table, which agents and the
workflow share, leads from `done` back to `in_progress`.

* `run_agentWrite` --- a request is one agent's call of the store, or changes nothing.
-/

namespace Kroker

/-- `int` of a header: blanks around it, one sign, and digits that single underscores may group. -/
def pyInt (s : String) : Option ℤ :=
  let text := ((s.toList.dropWhile isSpace).reverse.dropWhile isSpace).reverse
  let digits (ds : List Char) : Option ℕ :=
    let groups := ds.splitOn '_'
    if groups.all fun g => g ≠ [] && g.all Char.isDigit then
      some (Nat.ofDigitChars 10 groups.flatten 0)
    else none
  match text with
  | '-' :: ds => (digits ds).map fun n => -(n : ℤ)
  | '+' :: ds => (digits ds).map fun n => (n : ℤ)
  | ds => (digits ds).map fun n => (n : ℤ)

structure AgentRequest where
  project : String
  taskId : String
  status : TaskStatus
  plan : Option ℤ := none
  ifMatch : Option String := none
  actor : String := "agent:unknown"
  detail : String := ""

/-- `claim_task`: a claim asks for `in_progress`. -/
def claimTask (project taskId : String) (plan : Option ℤ) (ifMatch : Option String)
    (actor : String) : AgentRequest :=
  { project, taskId, status := .inProgress, plan, ifMatch, actor, detail := "claim" }

structure HttpError where
  code : ℕ
  detail : String

namespace Board

/-- The status code of a rejection. -/
def httpError : BoardError → HttpError
  | .notFound detail => ⟨404, detail⟩
  | .conflict detail => ⟨409, detail⟩
  | .invalidTransition detail => ⟨422, detail⟩
  | .value detail => ⟨500, detail⟩

def currentPlanVersion (b : Board) (project : String) : Except HttpError ℤ := do
  let art ← (b.getArtifact project "plan").mapError httpError
  match art.currentVersion with
  | some v => return v
  | none => throw ⟨404, "project " ++ quoted project ++ " has no current plan"⟩

/-- What the shared body of the agent routes asks the store for. -/
def agentCall (b : Board) (r : AgentRequest) : Except HttpError (TaskKey × ℤ) := do
  let _ ← (b.getProject r.project).mapError httpError
  match r.ifMatch with
  | none => throw ⟨428, "If-Match: <row_version> is required for agent writes"⟩
  | some ifMatch =>
    match pyInt ifMatch with
    | none => throw ⟨400, "If-Match must be an integer"⟩
    | some expect =>
      let pv ← match r.plan with
        | some plan => pure plan
        | none => b.currentPlanVersion r.project
      return (⟨r.project, pv, r.taskId⟩, expect)

def agentWrite (b : Board) (r : AgentRequest) (now : ℤ) : Except HttpError (Board × BoardTask) := do
  let (k, expect) ← b.agentCall r
  (b.setTaskObservational k r.status r.actor expect r.detail now).mapError httpError

theorem run_agentWrite (S : BlobStore) {b b' : Board} {r : AgentRequest} {now : ℤ} {t : BoardTask}
    (h : b.agentWrite r now = .ok (b', t)) :
    ∃ k expect, b.agentCall r = .ok (k, expect) ∧
      b' = b.run S (.observational k r.status r.actor expect r.detail now) := by
  obtain ⟨⟨k, expect⟩, hcall, h⟩ := bind_eq_ok.mp h
  refine ⟨k, expect, hcall, ?_⟩
  change (b.setTaskObservational k r.status r.actor expect r.detail now).mapError httpError =
    .ok (b', t) at h
  cases hset : b.setTaskObservational k r.status r.actor expect r.detail now with
  | error e =>
    rw [hset] at h
    cases h
  | ok p =>
    rw [hset] at h
    obtain rfl := Except.ok.inj h
    simp only [run, perform, hset]
    rfl

/-- The board after some requests; one that is refused writes nothing. -/
def afterRequests (b : Board) (requests : List (AgentRequest × ℤ)) : Board :=
  requests.foldl (fun b r => ((b.agentWrite r.1 r.2).toOption.map Prod.fst).getD b) b

/-- **Requests of agents write nothing that the workflow reads**, in any order. -/
theorem agree_afterRequests (b : Board) (requests : List (AgentRequest × ℤ)) :
    Agree (b.afterRequests requests) b := by
  induction requests generalizing b with
  | nil => exact .refl b
  | cons r requests ih =>
    refine (ih _).trans ?_
    dsimp only
    cases h : b.agentWrite r.1 r.2 with
    | error e => exact .refl b
    | ok p =>
      obtain ⟨k, expect, -, hrun⟩ := run_agentWrite plainBlobs h
      show Agree p.1 b
      rw [hrun]
      exact agree_observational plainBlobs b rfl

/-! ## Finished tasks -/

/-- A transition leaves every finished task as it was. -/
def DoneKept (x : Transition Board BoardOp) : Prop :=
  ∀ t ∈ x.before.tasks.rows, t.status = .done → x.after.tasks.find? t.primaryKey = some t

/-- An agent's call does not ask for a finished task, at its current row version, to be in
progress. -/
def Sanctioned (x : Transition Board BoardOp) : Prop :=
  match x.event with
  | .observational k status _ expectRowVersion _ _ =>
    ∀ t ∈ x.before.tasks.find? k, t.status = .done →
      (t.rowVersion : ℤ) ≠ expectRowVersion ∨ status ≠ .inProgress
  | _ => True

theorem run_observational {S : BlobStore} {b : Board} {k : TaskKey} {t : BoardTask}
    {status : TaskStatus} (ht : b.tasks.find? k = some t) (hlegal : status ∈ t.status.transitions)
    (actor detail : String) (now : ℤ) :
    b.run S (.observational k status actor t.rowVersion detail now) =
      b.withObservational k t status actor detail now := by
  have hrow := find?_modify_of_some ht (observationalRow · status now) (fun _ h => h) k
  rw [if_pos rfl] at hrow
  have hset : b.setTaskObservational k status actor t.rowVersion detail now =
      .ok (b.withObservational k t status actor detail now, observationalRow t status now) :=
    setTaskObservational_eq_ok.mpr ⟨observationalTx_eq_ok.mpr ⟨t, ht, rfl, hlegal, rfl⟩, hrow⟩
  simp only [run, perform, hset]
  rfl

theorem run_observational_cases (S : BlobStore) (b : Board) (k : TaskKey) (status : TaskStatus)
    (actor : String) (expectRowVersion : ℤ) (detail : String) (now : ℤ) :
    b.run S (.observational k status actor expectRowVersion detail now) = b ∨
      ∃ t, b.tasks.find? k = some t ∧ (t.rowVersion : ℤ) = expectRowVersion ∧
        status ∈ t.status.transitions ∧
        b.run S (.observational k status actor expectRowVersion detail now) =
          b.withObservational k t status actor detail now := by
  cases h : b.perform S (.observational k status actor expectRowVersion detail now) with
  | error e =>
    refine Or.inl ?_
    simp only [run, h]
  | ok b' =>
    refine Or.inr ?_
    obtain ⟨⟨c, t⟩, hset, rfl⟩ := map_eq_ok.mp h
    obtain ⟨htx, -⟩ := setTaskObservational_eq_ok.mp hset
    obtain ⟨t', ht', hversion, hlegal, rfl⟩ := observationalTx_eq_ok.mp htx
    exact ⟨t', ht', hversion, hlegal, by simp only [run, h]⟩

/-- One agent's call leaves the finished tasks alone exactly when it is sanctioned. -/
theorem doneKept_iff (S : BlobStore) (b : Board) (k : TaskKey) (status : TaskStatus)
    (actor : String) (expectRowVersion : ℤ) (detail : String) (now : ℤ) :
    DoneKept ⟨b, .observational k status actor expectRowVersion detail now,
        b.run S (.observational k status actor expectRowVersion detail now)⟩ ↔
      ∀ t ∈ b.tasks.find? k, t.status = .done →
        (t.rowVersion : ℤ) ≠ expectRowVersion ∨ status ≠ .inProgress := by
  constructor
  · intro hkept t ht hdone
    by_contra hboth
    rw [not_or, not_not, not_not] at hboth
    obtain ⟨rfl, rfl⟩ := hboth
    obtain ⟨hmem, hkey⟩ := Table.find?_eq_some_iff.mp ht
    have hrow := hkept t hmem hdone
    have hlegal : TaskStatus.inProgress ∈ t.status.transitions := by
      rw [hdone]
      decide
    have hmoved : (b.withObservational k t .inProgress actor detail now).tasks.find? k =
        some (observationalRow t .inProgress now) := by
      have := find?_modify_of_some ht (observationalRow · .inProgress now) (fun _ h => h) k
      rwa [if_pos rfl] at this
    rw [hkey] at hrow
    change (b.run S (.observational k .inProgress actor t.rowVersion detail now)).tasks.find? k =
      some t at hrow
    rw [run_observational ht hlegal, hmoved, Option.some.injEq] at hrow
    have hversion : t.rowVersion + 1 = t.rowVersion := congrArg BoardTask.rowVersion hrow
    omega
  · intro hsanctioned t hmem hdone
    have ht := Table.find?_key hmem
    show (b.run S _).tasks.find? t.primaryKey = some t
    rcases run_observational_cases S b k status actor expectRowVersion detail now with
      hrun | ⟨t', ht', hversion, hlegal, hrun⟩
    · rw [hrun]
      exact ht
    · have hother : k ≠ t.primaryKey := by
        rintro rfl
        rw [ht, Option.some.injEq] at ht'
        subst ht'
        rw [hdone] at hlegal
        obtain rfl := List.mem_singleton.mp hlegal
        rcases hsanctioned t ht hdone with h | h
        · exact h hversion
        · exact h rfl
      have hsame := find?_modify_of_some ht' (observationalRow · status now) (fun _ h => h)
        t.primaryKey
      rw [hrun]
      rw [if_neg hother, ht] at hsame
      exact hsame

/-- **In a run, agents leave the finished tasks alone exactly when every agent's call is
sanctioned.** -/
theorem done_kept_iff {S : BlobStore} {log : List (Transition Board BoardOp)} {b : Board}
    (run : BoardRun S log b) :
    (∀ x ∈ log, x.event.isAgent = true → DoneKept x) ↔ ∀ x ∈ log, Sanctioned x := by
  refine forall₂_congr fun x hx => ?_
  have hafter := after_eq_run run x hx
  obtain ⟨before, op, after⟩ := x
  change after = before.run S op at hafter
  subst hafter
  cases op with
  | observational k status actor expectRowVersion detail now =>
    refine Iff.trans ?_ (doneKept_iff S before k status actor expectRowVersion detail now)
    exact ⟨fun h => h rfl, fun h _ => h⟩
  | _ => exact ⟨fun _ => trivial, fun _ h => Bool.noConfusion h⟩

theorem done_kept_iff_sample :
    (∀ x ∈ (scripted plainBlobs claimScript).1, x.event.isAgent = true → DoneKept x) ↔
      ∀ x ∈ (scripted plainBlobs claimScript).1, Sanctioned x :=
  done_kept_iff (run_scripted plainBlobs claimScript)

def reopenScript : List BoardOp :=
  [.syncPlanTasks "demo" 1 "run" [⟨"t1", "first"⟩] "workflow:run" 0,
    .authoritative sampleTask .inProgress "workflow:run" {} 1,
    .authoritative sampleTask .done "workflow:run" {} 2]

/-- **A finished task can be reopened by an agent**, through the claim route. -/
theorem done_reopened : ¬∀ log b, BoardRun plainBlobs log b →
    ∀ x ∈ log, x.event.isAgent = true → DoneKept x := by
  intro hall
  have hkept := hall _ _ (Run.step (run_scripted plainBlobs reopenScript)
    (e := .observational sampleTask .inProgress "agent:a" 3 "claim" 3) rfl) _ List.mem_cons_self rfl
  have hsanctioned := (doneKept_iff _ _ _ _ _ _ _ _).mp hkept
  have ht : (scripted plainBlobs reopenScript).2.tasks.find? sampleTask =
      some (((scripted plainBlobs reopenScript).2.tasks.find? sampleTask).get (by decide +kernel)) :=
    (Option.some_get _).symm
  rcases hsanctioned _ ht (by decide +kernel) with h | h
  · exact h (by decide +kernel)
  · exact h rfl

end Board

end Kroker
