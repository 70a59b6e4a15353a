import Kroker.Board.Artifacts

/-!
# The blobs behind the rows

A row of `artifact_version` or `task_evidence` names a file and the digest of its bytes.  Rows are
only ever appended, but files are written to computed paths: a version's path carries its number,
and a report's only its task and kind.

A call writes at most one file, `written`, and appends the one row that names it (`stores_run`).  So
every row keeps its bytes exactly as long as no call writes other bytes to a path that some row
names (`content_true_iff`).  Two different reports of one kind on one task, in one run, go to one
path, and the first of them is lost (`report_overwritten`).
-/

namespace Kroker

namespace Board

def blobRows (b : Board) : List (String × String) :=
  b.versions.map (fun v => (v.uri, v.sha256)) ++ b.evidence.map fun e => (e.uri, e.sha256)

/-- Every row names a blob whose bytes have the row's digest. -/
def ContentTrue (S : BlobStore) (b : Board) : Prop :=
  ∀ r ∈ b.blobRows, ∃ data, b.blobs[r.1]? = some data ∧ S.sha256 data = r.2

/-- The file a call writes. -/
def written (S : BlobStore) (b : Board) : BoardOp → Option (String × Bytes)
  | .publish project key runId content _ _ _ =>
    if b.priorVersion project key runId (S.sha256 content) = none then
      some (S.locate runId "artifacts"
        (key ++ "-v" ++ toString (b.maxVersion project key + 1) ++ ".json"), content)
    else none
  | .evidence k runId kind content _ =>
    if kind ∈ evidenceKinds ∧ (b.tasks.find? k).isSome ∧
        b.priorEvidence k runId kind (S.sha256 content) = none then
      some (S.locate runId "evidence" (k.taskId ++ "-" ++ kind ++ ".json"), content)
    else none
  | _ => none

/-- No row names the path a call writes to, but with the digest of what it writes. -/
def KeepsPaths (S : BlobStore) (x : Transition Board BoardOp) : Prop :=
  ∀ uri content, x.before.written S x.event = some (uri, content) →
    ∀ r ∈ x.before.blobRows, r.1 = uri → r.2 = S.sha256 content

/-! ## 1. What a call writes -/

/-- A file is written and the row that names it appended, or neither. -/
structure Stores (S : BlobStore) (b b' : Board) (file : Option (String × Bytes)) : Prop where
  blobs : ∀ uri, b'.blobs[uri]? =
    if file.map (·.1) = some uri then file.map (·.2) else b.blobs[uri]?
  rows : ∀ r, r ∈ b'.blobRows ↔
    r ∈ b.blobRows ∨ file.map (fun f => (f.1, S.sha256 f.2)) = some r

theorem Stores.get?_written {S : BlobStore} {b b' : Board} {file : String × Bytes}
    (h : Stores S b b' (some file)) : b'.blobs[file.1]? = some file.2 := by
  rw [h.blobs, Option.map_some, if_pos rfl, Option.map_some]

theorem Stores.get?_of_ne {S : BlobStore} {b b' : Board} {file : Option (String × Bytes)}
    (h : Stores S b b' file) {uri : String} (hne : ∀ f, file = some f → f.1 ≠ uri) :
    b'.blobs[uri]? = b.blobs[uri]? := by
  rw [h.blobs, if_neg]
  intro huri
  obtain ⟨f, hf, hfuri⟩ := Option.map_eq_some_iff.mp huri
  exact hne f hf hfuri

theorem Stores.nothing {S : BlobStore} {b b' : Board} (hblobs : b'.blobs = b.blobs)
    (hversions : b'.versions = b.versions) (hevidence : b'.evidence = b.evidence) :
    Stores S b b' none where
  blobs uri := by
    rw [hblobs]
    rfl
  rows r := by
    have hrows : b'.blobRows = b.blobRows := by rw [blobRows, blobRows, hversions, hevidence]
    rw [hrows]
    simp

theorem get?_insert_file (d : Dict Bytes) (uri : String) (content : Bytes) (a : String) :
    (d.insert uri content)[a]? =
      if (some (uri, content)).map (·.1) = some a then (some (uri, content)).map (·.2) else d[a]? := by
  rw [Dict.get?_insert]
  simp only [Option.map_some, Option.some.injEq]

theorem Stores.published {S : BlobStore} {b b' : Board} {project key runId : String}
    {content : Bytes} {status : ArtifactStatus} {now : ℤ}
    (h : Published S b b' project key runId content status now) :
    Stores S b b' (some ((b.newVersion S project key runId content status now).uri, content)) where
  blobs uri := by
    rw [h.blobs]
    exact get?_insert_file ..
  rows r := by
    rw [blobRows, h.versions, h.evidence, blobRows, List.map_append, List.mem_append,
      List.mem_append, List.mem_append, List.map_singleton, List.mem_singleton, or_right_comm]
    exact or_congr_right ⟨fun hr => hr ▸ rfl, fun hr => (Option.some.inj hr).symm⟩

theorem stores_evidence (S : BlobStore) (b : Board) (k : TaskKey) (runId kind : String)
    (content : Bytes) (now : ℤ) :
    Stores S b (b.run S (.evidence k runId kind content now))
      (b.written S (.evidence k runId kind content now)) := by
  by_cases hkind : kind ∈ evidenceKinds
  · cases htask : b.tasks.find? k with
    | none =>
      -- the task is looked up before anything is written
      have hget : ∃ e, b.getTask k = .error e := by
        unfold getTask
        rw [htask]
        exact ⟨_, rfl⟩
      obtain ⟨e, he⟩ := hget
      simp only [run, perform, attachTaskEvidence, written, hkind, htask, he, not_true_eq_false,
        if_false, Option.isSome_none, Bool.false_eq_true, false_and, and_false]
      exact .nothing rfl rfl rfl
    | some t =>
      have hget := getTask_eq_ok.mpr htask
      cases hprior : b.priorEvidence k runId kind (S.sha256 content) with
      | some prior =>
        simp only [run, perform, attachTaskEvidence, written, hkind, htask, hget, hprior,
          not_true_eq_false, if_false, reduceCtorEq, and_false]
        exact .nothing rfl rfl rfl
      | none =>
        simp only [run, perform, attachTaskEvidence, written, hkind, htask, hget, hprior,
          not_true_eq_false, if_false, Option.isSome_some, and_self, if_true]
        refine ⟨fun uri => get?_insert_file .., fun r => ?_⟩
        show r ∈ List.map _ b.versions ++ List.map _ (b.evidence ++ [_]) ↔ _
        rw [List.map_append, blobRows, List.mem_append, List.mem_append, List.mem_append,
          List.map_singleton, List.mem_singleton, ← or_assoc]
        exact or_congr_right ⟨fun hr => hr ▸ rfl, fun hr => (Option.some.inj hr).symm⟩
  · simp only [run, perform, attachTaskEvidence, written, hkind, not_false_eq_true, if_true,
      false_and, if_false]
    exact .nothing rfl rfl rfl

/-- **A call writes one file and its row, or neither.** -/
theorem stores_run (S : BlobStore) (b : Board) (op : BoardOp) :
    Stores S b (b.run S op) (b.written S op) := by
  cases op with
  | publish project key runId content status actor now =>
    cases hprior : b.priorVersion project key runId (S.sha256 content) with
    | some prior =>
      have hsame : b.run S (.publish project key runId content status actor now) = b := by
        simp only [run, perform, publish_of_prior hprior]
      simp only [hsame, written, hprior, reduceCtorEq, if_false]
      exact .nothing rfl rfl rfl
    | none =>
      simp only [written, hprior, if_true]
      exact .published (publish_of_new hprior status actor now).1
  | evidence k runId kind content now => exact stores_evidence S b k runId kind content now
  | ensureProject key repo =>
    show Stores S b (b.ensureProject key repo) none
    unfold ensureProject
    split <;> exact .nothing rfl rfl rfl
  | syncPlanTasks project planVersion runId tasks actor now =>
    obtain ⟨hv, -, hb, he⟩ := foldl_syncTask_artifacts tasks (b, 0) project planVersion runId actor now
    exact .nothing hb hv he
  | authoritative k status actor u now =>
    unfold run
    cases h : b.perform S (.authoritative k status actor u now) with
    | error e => exact .nothing rfl rfl rfl
    | ok b' =>
      obtain ⟨⟨c, t⟩, hset, rfl⟩ := map_eq_ok.mp h
      obtain ⟨early, htx, -⟩ := setTaskAuthoritative_eq_ok.mp hset
      obtain ⟨t', -, ⟨-, rfl, -⟩ | ⟨-, -, rfl, -⟩⟩ := authoritativeTx_eq_ok.mp htx
      · exact .nothing rfl rfl rfl
      · exact .nothing rfl rfl rfl
  | observational k status actor expectRowVersion detail now =>
    unfold run
    cases h : b.perform S (.observational k status actor expectRowVersion detail now) with
    | error e => exact .nothing rfl rfl rfl
    | ok b' =>
      obtain ⟨⟨c, t⟩, hset, rfl⟩ := map_eq_ok.mp h
      obtain ⟨t', -, -, -, rfl⟩ := observationalTx_eq_ok.mp (setTaskObservational_eq_ok.mp hset).1
      exact .nothing rfl rfl rfl

/-! ## 2. Which runs keep their blobs -/

theorem blobRows_subset (S : BlobStore) (b : Board) (op : BoardOp) :
    b.blobRows ⊆ (b.run S op).blobRows :=
  fun r hr => ((stores_run S b op).rows r).mpr (Or.inl hr)

theorem contentTrue_run_iff {S : BlobStore} {b : Board} (hb : ContentTrue S b) (op : BoardOp) :
    ContentTrue S (b.run S op) ↔ KeepsPaths S ⟨b, op, b.run S op⟩ := by
  have hstores := stores_run S b op
  constructor
  · intro hafter uri content hwritten r hr huri
    obtain ⟨data, hdata, hsha⟩ := hafter r (blobRows_subset S b op hr)
    replace hwritten : b.written S op = some (uri, content) := hwritten
    rw [hwritten] at hstores
    rw [huri, hstores.get?_written] at hdata
    obtain rfl := Option.some.inj hdata
    exact hsha.symm
  · intro hkeeps r hr
    rcases (hstores.rows r).mp hr with hold | hnew
    · by_cases hover : ∃ file, b.written S op = some file ∧ file.1 = r.1
      · obtain ⟨file, hwritten, huri⟩ := hover
        rw [hwritten] at hstores
        rw [← huri, hstores.get?_written]
        exact ⟨file.2, rfl, (hkeeps file.1 file.2 hwritten r hold huri.symm).symm⟩
      · rw [hstores.get?_of_ne fun file hwritten huri => hover ⟨file, hwritten, huri⟩]
        exact hb r hold
    · obtain ⟨file, hfile, rfl⟩ := Option.map_eq_some_iff.mp hnew
      rw [hfile] at hstores
      exact ⟨file.2, hstores.get?_written, rfl⟩

/-- **Rows keep their bytes exactly as long as paths are kept.**  In every run, no call takes a row
back, and every row ever appended names a blob with its digest after every call if and only if no
call writes, to a path that some row names, bytes with another digest than that row's. -/
theorem content_true_iff {S : BlobStore} {log : List (Transition Board BoardOp)} {b : Board}
    (run : BoardRun S log b) :
    (∀ x ∈ log, x.before.blobRows ⊆ x.after.blobRows) ∧
      ((∀ x ∈ log, ContentTrue S x.after) ↔ ∀ x ∈ log, KeepsPaths S x) := by
  refine ⟨fun x hx => after_eq_run run x hx ▸ blobRows_subset S x.before x.event, ?_⟩
  suffices h : ((∀ x ∈ log, ContentTrue S x.after) ↔ ∀ x ∈ log, KeepsPaths S x) ∧
      ((∀ x ∈ log, ContentTrue S x.after) → ContentTrue S b) from h.1
  refine run.induct (P := fun log b => ((∀ x ∈ log, ContentTrue S x.after) ↔
    ∀ x ∈ log, KeepsPaths S x) ∧ ((∀ x ∈ log, ContentTrue S x.after) → ContentTrue S b))
    ⟨by simp, fun _ r hr => absurd hr List.not_mem_nil⟩ ?_
  intro log b op b' _ ⟨hiff, hlast⟩ hop
  obtain rfl := Option.some.inj hop
  refine ⟨?_, fun h => h _ List.mem_cons_self⟩
  rw [List.forall_mem_cons, List.forall_mem_cons, ← hiff]
  exact and_congr_left fun hlog => contentTrue_run_iff (hlast hlog) op

/-- Two versions of an artifact, and one report of each kind. -/
def reportScript : List BoardOp :=
  [.publish "demo" "spec" "run" [65] .current "workflow:run" 0,
    .syncPlanTasks "demo" 1 "run" [⟨"t1", "first"⟩] "workflow:run" 0,
    .evidence sampleTask "run" "qa" [81] 1,
    .evidence sampleTask "run" "review" [82] 2,
    .publish "demo" "spec" "run" [66] .current "workflow:run" 3]

theorem content_true_iff_sample :
    (∀ x ∈ (scripted plainBlobs reportScript).1, ContentTrue plainBlobs x.after) ↔
      ∀ x ∈ (scripted plainBlobs reportScript).1, KeepsPaths plainBlobs x :=
  (content_true_iff (run_scripted plainBlobs reportScript)).2

/-- A second report of the same kind on the same task, in the same run, overwrites the first. -/
theorem report_overwritten :
    ¬∀ log b, BoardRun plainBlobs log b → ∀ x ∈ log, ContentTrue plainBlobs x.after := by
  intro hall
  have htrue := hall _ _ (Run.step (run_scripted plainBlobs reportScript)
    (e := .evidence sampleTask "run" "qa" [67] 4) rfl) _ List.mem_cons_self
  obtain ⟨data, hdata, hsha⟩ := htrue ("run/evidence/t1-qa.json", "Q") (by decide +kernel)
  have hlost : ((scripted plainBlobs reportScript).2.run plainBlobs
      (.evidence sampleTask "run" "qa" [67] 4)).blobs["run/evidence/t1-qa.json"]? = some [67] := by
    decide +kernel
  obtain rfl := Option.some.inj (hlost.symm.trans hdata)
  revert hsha
  decide +kernel

end Board

end Kroker
