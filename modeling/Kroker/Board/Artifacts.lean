import Kroker.Board.Writes

/-!
# The version history of an artifact

A publication appends a version and, with status `CURRENT`, moves the artifact's pointer to it; the
new version records the one the pointer left.  A run that publishes a content again gets the version
it published first, and nothing moves.
-/

namespace Kroker

/-- A publication. -/
def BoardOp.isPublish : BoardOp → Bool
  | .publish .. => true
  | _ => false

namespace Board

/-! ## 1. What a call does to artifacts -/

/-- The version a publication appends. -/
def newVersion (S : BlobStore) (b : Board) (project key runId : String) (content : Bytes)
    (status : ArtifactStatus) (now : ℤ) : ArtifactVersion :=
  { id := b.versions.length + 1, project, key, n := b.maxVersion project key + 1, runId,
    sha256 := S.sha256 content,
    uri := S.locate runId "artifacts"
      (key ++ "-v" ++ toString (b.maxVersion project key + 1) ++ ".json"),
    supersedes := if status = .current then b.currentVersion project key else none,
    createdAt := now }

structure Published (S : BlobStore) (b b' : Board) (project key runId : String) (content : Bytes)
    (status : ArtifactStatus) (now : ℤ) : Prop where
  versions : b'.versions =
    b.versions ++ [b.newVersion S project key runId content status now]
  artifacts : b'.artifacts =
    publishPointer b.artifacts project key status (b.versions.length + 1)
  blobs : b'.blobs =
    b.blobs.insert (b.newVersion S project key runId content status now).uri content
  evidence : b'.evidence = b.evidence

variable {b : Board} {project runId : String}

variable {S : BlobStore} {key : String} {content : Bytes}

theorem publish_of_prior {prior : ArtifactVersion}
    (h : b.priorVersion project key runId (S.sha256 content) = some prior) (status : ArtifactStatus)
    (actor : String) (now : ℤ) :
    b.publishArtifactVersion S project key runId content status actor now =
      (b, { kind := "board_artifact", uri := prior.uri, sha256 := prior.sha256 }, prior.id) := by
  simp only [publishArtifactVersion, h]

theorem publish_of_new (h : b.priorVersion project key runId (S.sha256 content) = none)
    (status : ArtifactStatus) (actor : String) (now : ℤ) :
    Published S b (b.publishArtifactVersion S project key runId content status actor now).1
        project key runId content status now ∧
      (b.publishArtifactVersion S project key runId content status actor now).2.2 =
        b.versions.length + 1 := by
  unfold publishArtifactVersion
  rw [h]
  exact ⟨⟨rfl, rfl, rfl, rfl⟩, rfl⟩

theorem foldl_syncTask_artifacts (tasks : List DevTask) (acc : Board × ℕ) (project : String)
    (planVersion : ℤ) (runId actor : String) (now : ℤ) :
    let b := (tasks.foldl (syncTask project planVersion runId actor now) acc).1
    b.versions = acc.1.versions ∧ b.artifacts = acc.1.artifacts ∧ b.blobs = acc.1.blobs ∧
      b.evidence = acc.1.evidence := by
  induction tasks generalizing acc with
  | nil => exact ⟨rfl, rfl, rfl, rfl⟩
  | cons t tasks ih =>
    have hone : (syncTask project planVersion runId actor now acc t).1.versions = acc.1.versions ∧
        (syncTask project planVersion runId actor now acc t).1.artifacts = acc.1.artifacts ∧
        (syncTask project planVersion runId actor now acc t).1.blobs = acc.1.blobs ∧
        (syncTask project planVersion runId actor now acc t).1.evidence = acc.1.evidence := by
      cases h : acc.1.tasks.find? ⟨project, planVersion, t.id⟩ <;> simp [syncTask, h]
    obtain ⟨hv, ha, hb, he⟩ := ih (syncTask project planVersion runId actor now acc t)
    exact ⟨hv.trans hone.1, ha.trans hone.2.1, hb.trans hone.2.2.1, he.trans hone.2.2.2⟩

theorem artifacts_run (S : BlobStore) (b : Board) {op : BoardOp} (hop : op.isPublish = false) :
    (b.run S op).versions = b.versions ∧ (b.run S op).artifacts = b.artifacts := by
  unfold run
  cases h : b.perform S op with
  | error e => exact ⟨rfl, rfl⟩
  | ok b' =>
    show b'.versions = b.versions ∧ b'.artifacts = b.artifacts
    cases op with
    | ensureProject key repo =>
      obtain rfl := Except.ok.inj h
      unfold ensureProject
      split <;> exact ⟨rfl, rfl⟩
    | publish project key runId content status actor now => cases hop
    | syncPlanTasks project planVersion runId tasks actor now =>
      obtain rfl := Except.ok.inj h
      obtain ⟨hv, ha, -⟩ := foldl_syncTask_artifacts tasks (b, 0) project planVersion runId actor now
      exact ⟨hv, ha⟩
    | authoritative k status actor u now =>
      obtain ⟨⟨c, t⟩, hset, rfl⟩ := map_eq_ok.mp h
      obtain ⟨early, htx, -⟩ := setTaskAuthoritative_eq_ok.mp hset
      obtain ⟨t', -, ⟨-, rfl, -⟩ | ⟨-, -, rfl, -⟩⟩ := authoritativeTx_eq_ok.mp htx
      · exact ⟨rfl, rfl⟩
      · exact ⟨rfl, rfl⟩
    | observational k status actor expectRowVersion detail now =>
      obtain ⟨⟨c, t⟩, hset, rfl⟩ := map_eq_ok.mp h
      obtain ⟨t', -, -, -, rfl⟩ := observationalTx_eq_ok.mp (setTaskObservational_eq_ok.mp hset).1
      exact ⟨rfl, rfl⟩
    | evidence k runId kind content now =>
      obtain ⟨⟨c, ref⟩, hattach, rfl⟩ := map_eq_ok.mp h
      obtain ⟨prior, -, rfl⟩ | ⟨-, rfl⟩ := attachTaskEvidence_eq_ok hattach
      · exact ⟨rfl, rfl⟩
      · exact ⟨rfl, rfl⟩

theorem find?_publishPointer (t : Table BoardArtifact.primaryKey) (project key : String)
    (status : ArtifactStatus) (versionId : ℕ) (j : String × String) :
    ((publishPointer t project key status versionId).find? j).bind (·.currentVersion) =
      if status = .current ∧ (project, key) = j then some versionId
      else (t.find? j).bind (·.currentVersion) := by
  unfold publishPointer
  by_cases hstatus : status = .current
  · rw [if_pos hstatus, Table.find?_insertNew]
    have hmodify := Table.find?_modify t (project, key)
      (fun a => { a with currentVersion := some versionId, status := .current })
      (fun _ h => h) j
    rw [hmodify]
    show (Option.or _ (if (project, key) = j then _ else none)).bind _ = _
    by_cases hj : (project, key) = j
    · rw [if_pos hj, if_pos hj, if_pos ⟨hstatus, hj⟩]
      cases t.find? j <;> rfl
    · rw [if_neg hj, if_neg hj, if_neg fun hboth => hj hboth.2, Option.or_none]
  · rw [if_neg hstatus, Table.find?_insertNew]
    show (Option.or _ (if (project, key) = j then _ else none)).bind _ = _
    rw [if_neg (c := status = .current ∧ (project, key) = j) fun hboth => hstatus hboth.1]
    by_cases hj : (project, key) = j
    · rw [if_pos hj]
      cases t.find? j <;> rfl
    · rw [if_neg hj, Option.or_none]

variable {status : ArtifactStatus}

theorem currentVersion_published {b' : Board} {now : ℤ}
    (h : Published S b b' project key runId content status now) (p k : String) :
    b'.currentVersion p k =
      if status = .current ∧ (project, key) = (p, k) then some (b.versions.length + 1)
      else b.currentVersion p k := by
  rw [currentVersion, h.artifacts, find?_publishPointer]
  rfl

/-! ## 2. The history -/

/-- One version records that it took the pointer from another. -/
def Supersedes (b : Board) (v w : ArtifactVersion) : Prop :=
  w ∈ b.versions ∧ v.supersedes = some w.id

/-- In a run's log, a version was appended by a publication with status `CURRENT`. -/
def PublishedCurrent (log : List (Transition Board BoardOp)) (v : ArtifactVersion) : Prop :=
  ∃ x ∈ log, (∃ content actor now,
    x.event = .publish v.project v.key v.runId content .current actor now) ∧
      v ∉ x.before.versions ∧ v ∈ x.after.versions

variable {log : List (Transition Board BoardOp)} {v : ArtifactVersion}

theorem PublishedCurrent.mono (h : PublishedCurrent log v) (x : Transition Board BoardOp) :
    PublishedCurrent (x :: log) v := by
  obtain ⟨y, hy, hpublish⟩ := h
  exact ⟨y, List.mem_cons_of_mem _ hy, hpublish⟩

/-- What calls keep of versions and pointers. -/
structure History (log : List (Transition Board BoardOp)) (b : Board) : Prop where
  ids : b.versions.map (·.id) = List.range' 1 b.versions.length
  numbers : ∀ p k, (b.versionsOf p k).map (·.n) = List.range' 1 (b.versionsOf p k).length
  current : ∀ p k i, b.currentVersion p k = some i →
    ∃ v ∈ b.versions, v.id = i ∧ v.project = p ∧ v.key = k ∧ PublishedCurrent log v
  supersedes : ∀ v ∈ b.versions, ∀ i, v.supersedes = some i →
    ∃ w ∈ b.versions, w.id = i ∧ w.project = v.project ∧ w.key = v.key ∧ w.n < v.n ∧
      PublishedCurrent log w

theorem foldl_max_range' (k : ℕ) : (List.range' 1 k).foldl max 0 = k := by
  induction k with
  | zero => rfl
  | succ k ih =>
    rw [List.range'_concat, List.foldl_append, ih]
    show max k (1 + 1 * k) = k + 1
    omega

theorem History.maxVersion_eq (h : History log b) (p k : String) :
    b.maxVersion p k = (b.versionsOf p k).length := by
  rw [maxVersion, h.numbers, foldl_max_range']

theorem History.eq_of_id (h : History log b) {w : ArtifactVersion} (hv : v ∈ b.versions)
    (hw : w ∈ b.versions) (hid : v.id = w.id) :
    v = w := by
  refine List.inj_on_of_nodup_map ?_ hv hw hid
  rw [h.ids]
  exact List.nodup_range'

theorem mem_versionsOf {p k : String} :
    v ∈ b.versionsOf p k ↔ v ∈ b.versions ∧ v.project = p ∧ v.key = k := by
  rw [versionsOf, List.mem_filter, Bool.and_eq_true, decide_eq_true_eq, decide_eq_true_eq]

theorem History.n_le (h : History log b) (hv : v ∈ b.versions) :
    v.n ≤ (b.versionsOf v.project v.key).length := by
  have hmem : v.n ∈ (b.versionsOf v.project v.key).map (·.n) :=
    List.mem_map_of_mem (mem_versionsOf.mpr ⟨hv, rfl, rfl⟩)
  rw [h.numbers, List.mem_range'_1] at hmem
  omega

theorem versionsOf_published {b' : Board} {now : ℤ}
    (h : Published S b b' project key runId content status now) (p k : String) :
    b'.versionsOf p k = if project = p ∧ key = k then
        b.versionsOf p k ++ [b.newVersion S project key runId content status now]
      else b.versionsOf p k := by
  rw [versionsOf, h.versions, List.filter_append, List.filter_singleton]
  show _ ++ (bif (project = p && key = k) then _ else _) = _
  by_cases hpk : project = p ∧ key = k
  · rw [if_pos hpk, decide_eq_true hpk.1, decide_eq_true hpk.2]
    rfl
  · have hfalse : (project = p && key = k) = false := by
      rw [Bool.and_eq_false_iff, decide_eq_false_iff_not, decide_eq_false_iff_not]
      exact not_and_or.mp hpk
    rw [if_neg hpk, hfalse]
    exact List.append_nil _

/-- A publication that is not a repetition keeps the history. -/
theorem history_published {b' : Board} {actor : String} {now : ℤ} (hb : History log b)
    (h : Published S b b' project key runId content status now) :
    History (⟨b, .publish project key runId content status actor now, b'⟩ :: log) b' := by
  set v := b.newVersion S project key runId content status now with hv
  have hlast : v ∉ b.versions := by
    intro hmem
    have hid : v.id ∈ b.versions.map (·.id) := List.mem_map_of_mem hmem
    rw [hb.ids, List.mem_range'_1] at hid
    have : v.id = b.versions.length + 1 := rfl
    omega
  have hmem : v ∈ b'.versions := by
    rw [h.versions]
    exact List.mem_append_right _ List.mem_cons_self
  have hold : ∀ w ∈ b.versions, w ∈ b'.versions := by
    intro w hw
    rw [h.versions]
    exact List.mem_append_left _ hw
  have hnew : status = .current →
      PublishedCurrent (⟨b, .publish project key runId content status actor now, b'⟩ :: log) v := by
    rintro rfl
    exact ⟨_, List.mem_cons_self, ⟨content, actor, now, rfl⟩, hlast, hmem⟩
  refine ⟨?_, fun p k => ?_, fun p k i hi => ?_, fun w hw i hi => ?_⟩
  · rw [h.versions, List.map_append, hb.ids, List.length_append, List.length_singleton,
      List.range'_concat, Nat.one_mul, Nat.add_comm 1]
    rfl
  · rw [versionsOf_published h]
    by_cases hpk : project = p ∧ key = k
    · obtain ⟨rfl, rfl⟩ := hpk
      rw [if_pos ⟨rfl, rfl⟩, List.map_append, hb.numbers, List.length_append,
        List.length_singleton, List.range'_concat, Nat.one_mul, Nat.add_comm 1,
        ← hb.maxVersion_eq]
      rfl
    · rw [if_neg hpk]
      exact hb.numbers p k
  · rw [currentVersion_published h] at hi
    by_cases hmove : status = .current ∧ (project, key) = (p, k)
    · rw [if_pos hmove, Option.some.injEq] at hi
      obtain ⟨rfl, rfl⟩ := Prod.mk.inj hmove.2
      exact ⟨v, hmem, hi, rfl, rfl, hnew hmove.1⟩
    · rw [if_neg hmove] at hi
      obtain ⟨w, hw, hid, hp, hk, hcurrent⟩ := hb.current p k i hi
      exact ⟨w, hold w hw, hid, hp, hk, hcurrent.mono _⟩
  · rw [h.versions, List.mem_append, List.mem_singleton] at hw
    rcases hw with hw | rfl
    · obtain ⟨u, hu, hid, hp, hk, hn, hcurrent⟩ := hb.supersedes w hw i hi
      exact ⟨u, hold u hu, hid, hp, hk, hn, hcurrent.mono _⟩
    · -- the new version supersedes the current one, which has a smaller number
      have hcurrent : b.currentVersion project key = some i := by
        have : v.supersedes = if status = .current then b.currentVersion project key else none :=
          rfl
        rw [this] at hi
        split at hi
        · exact hi
        · exact absurd hi (by simp)
      obtain ⟨u, hu, hid, hp, hk, hpublished⟩ := hb.current project key i hcurrent
      refine ⟨u, hold u hu, hid, hp, hk, ?_, hpublished.mono _⟩
      have hle := hb.n_le hu
      rw [hp, hk, ← hb.maxVersion_eq] at hle
      exact Nat.lt_succ_of_le hle

theorem History.cons {b' : Board} (hb : History log b) (x : Transition Board BoardOp)
    (hversions : b'.versions = b.versions) (hartifacts : b'.artifacts = b.artifacts) :
    History (x :: log) b' := by
  have hof : ∀ p k, b'.versionsOf p k = b.versionsOf p k := fun p k => by
    rw [versionsOf, hversions]
    rfl
  refine ⟨by rw [hversions]; exact hb.ids, fun p k => by rw [hof]; exact hb.numbers p k,
    fun p k i hi => ?_, fun v hv i hi => ?_⟩
  · rw [currentVersion, hartifacts] at hi
    obtain ⟨v, hv, hid, hp, hk, hcurrent⟩ := hb.current p k i hi
    exact ⟨v, hversions ▸ hv, hid, hp, hk, hcurrent.mono x⟩
  · rw [hversions] at hv ⊢
    obtain ⟨w, hw, hid, hp, hk, hn, hcurrent⟩ := hb.supersedes v hv i hi
    exact ⟨w, hw, hid, hp, hk, hn, hcurrent.mono x⟩

/-- **One call keeps the history.** -/
theorem history_of_run (run : BoardRun S log b) : History log b := by
  refine run.induct ?_ fun log b op b' _ hb hop => ?_
  · refine ⟨rfl, fun p k => rfl, fun p k i hi => ?_, fun v hv => absurd hv (by simp)⟩
    exact absurd hi (by simp [currentVersion])
  · obtain rfl := Option.some.inj hop
    cases hpublish : op.isPublish with
    | false =>
      obtain ⟨hv, ha⟩ := artifacts_run S b hpublish
      exact hb.cons _ hv ha
    | true =>
      cases op with
      | publish project key runId content status actor now =>
        cases hprior : b.priorVersion project key runId (S.sha256 content) with
        | some prior =>
          have hsame : b.run S (.publish project key runId content status actor now) = b := by
            simp only [Board.run, perform, publish_of_prior hprior]
          rw [hsame]
          exact hb.cons _ rfl rfl
        | none => exact history_published hb (publish_of_new hprior status actor now).1
      | _ => cases hpublish

theorem History.supersedes_lt (hb : History log b) {w : ArtifactVersion} (hv : v ∈ b.versions)
    (h : Supersedes b v w) :
    w.n < v.n ∧ w.project = v.project ∧ w.key = v.key ∧ PublishedCurrent log w := by
  obtain ⟨u, hu, hid, hp, hk, hn, hcurrent⟩ := hb.supersedes v hv w.id h.2
  obtain rfl := hb.eq_of_id hu h.1 hid
  exact ⟨hn, hp, hk, hcurrent⟩

theorem History.chain_lt (hb : History log b) {w : ArtifactVersion} (hv : v ∈ b.versions)
    (h : Relation.TransGen (Supersedes b) v w) :
    w.n < v.n := by
  induction h with
  | single h => exact (hb.supersedes_lt hv h).1
  | tail h hstep ih =>
    -- the last but one version was reached by a step, so it is a version
    have hmem : ∀ {u}, Relation.TransGen (Supersedes b) v u → u ∈ b.versions := by
      intro u hu
      cases hu with
      | single hu => exact hu.1
      | tail _ hu => exact hu.1
    exact Nat.lt_trans (hb.supersedes_lt (hmem h) hstep).1 ih

theorem History.chain_current (hb : History log b) {w : ArtifactVersion} (hv : v ∈ b.versions)
    (hcurrent : PublishedCurrent log v) (h : Relation.ReflTransGen (Supersedes b) v w) :
    w ∈ b.versions ∧ w.project = v.project ∧ w.key = v.key ∧ PublishedCurrent log w := by
  induction h with
  | refl => exact ⟨hv, rfl, rfl, hcurrent⟩
  | tail _ hstep ih =>
    obtain ⟨hmem, hp, hk, -⟩ := ih
    obtain ⟨-, hp', hk', hcurrent'⟩ := hb.supersedes_lt hmem hstep
    exact ⟨hstep.1, hp'.trans hp, hk'.trans hk, hcurrent'⟩

theorem versions_publish (S : BlobStore) (b : Board) (project key runId : String)
    (content : Bytes) (status : ArtifactStatus) (actor : String) (now : ℤ) :
    ∃ new, (b.run S (.publish project key runId content status actor now)).versions =
      b.versions ++ new := by
  cases hprior : b.priorVersion project key runId (S.sha256 content) with
  | some prior =>
    refine ⟨[], ?_⟩
    simp only [Board.run, perform, publish_of_prior hprior, List.append_nil]
  | none => exact ⟨_, (publish_of_new hprior status actor now).1.versions⟩

theorem currentVersion_publish_of_ne (S : BlobStore) (b : Board) (project key runId : String)
    (content : Bytes) (hstatus : status ≠ .current) (actor : String) (now : ℤ) (p k : String) :
    (b.run S (.publish project key runId content status actor now)).currentVersion p k =
      b.currentVersion p k := by
  cases hprior : b.priorVersion project key runId (S.sha256 content) with
  | some prior => simp only [Board.run, perform, publish_of_prior hprior]
  | none =>
    show (b.publishArtifactVersion S project key runId content status actor now).1.currentVersion
      p k = _
    rw [currentVersion_published (publish_of_new hprior status actor now).1,
      if_neg fun h => hstatus h.1]

theorem supersedes_of_append {log' : List (Transition Board BoardOp)} {b' : Board}
    (hb : History log b) (hb' : History log' b') {new : List ArtifactVersion}
    (hnew : b'.versions = b.versions ++ new) (hv : v ∈ b.versions) (w : ArtifactVersion) :
    Supersedes b' v w ↔ Supersedes b v w := by
  have hold : ∀ u ∈ b.versions, u ∈ b'.versions := by
    intro u hu
    rw [hnew]
    exact List.mem_append_left _ hu
  constructor
  · rintro ⟨hw, hid⟩
    obtain ⟨u, hu, hui, -⟩ := hb.supersedes v hv w.id hid
    obtain rfl := hb'.eq_of_id (hold u hu) hw hui
    exact ⟨hu, hid⟩
  · rintro ⟨hw, hid⟩
    exact ⟨hold w hw, hid⟩

/-- **The version history**, in every run of the store: the versions of an artifact are numbered
from one, without a gap; what a version supersedes is a version with a lower number; every version
on the chain from the current one was published `CURRENT`; and a `REJECTED` publication leaves the
pointers, and the chains below older versions, as they were. -/
theorem version_history {S : BlobStore} {log : List (Transition Board BoardOp)} {b : Board}
    (run : BoardRun S log b) :
    (∀ p k, (b.versionsOf p k).map (·.n) = List.range' 1 (b.versionsOf p k).length) ∧
    (∀ v ∈ b.versions, ∀ i, v.supersedes = some i → ∃ w, Supersedes b v w ∧ w.id = i) ∧
    (∀ v ∈ b.versions, ∀ w, Relation.TransGen (Supersedes b) v w → w.n < v.n) ∧
    (∀ p k i, b.currentVersion p k = some i → ∃ v ∈ b.versions, v.id = i ∧
      ∀ w, Relation.ReflTransGen (Supersedes b) v w →
        w ∈ b.versions ∧ w.project = p ∧ w.key = k ∧ PublishedCurrent log w) ∧
    (∀ x ∈ log, ∀ project key runId content actor now,
      x.event = .publish project key runId content .rejected actor now →
      (∀ p k, x.after.currentVersion p k = x.before.currentVersion p k) ∧
        ∀ v ∈ x.before.versions, ∀ w, Supersedes x.after v w ↔ Supersedes x.before v w) := by
  have hb := history_of_run run
  refine ⟨hb.numbers, fun v hv i hi => ?_, fun v hv w => hb.chain_lt hv, fun p k i hi => ?_,
    fun x hx project key runId content actor now hevent => ?_⟩
  · obtain ⟨w, hw, hid, -⟩ := hb.supersedes v hv i hi
    exact ⟨w, ⟨hw, hid ▸ hi⟩, hid⟩
  · obtain ⟨v, hv, hid, rfl, rfl, hcurrent⟩ := hb.current p k i hi
    exact ⟨v, hv, hid, fun w => hb.chain_current hv hcurrent⟩
  · obtain ⟨⟨_, before⟩, -, _, after⟩ := run.reachable_of_mem x hx
    have hafter := after_eq_run run x hx
    rw [hevent] at hafter
    obtain ⟨new, hnew⟩ := versions_publish S x.before project key runId content .rejected actor now
    rw [← hafter] at hnew
    refine ⟨fun p k => ?_, fun v hv w =>
      supersedes_of_append (history_of_run before) (history_of_run after) hnew hv w⟩
    rw [hafter]
    exact currentVersion_publish_of_ne S x.before project key runId content (by decide) actor now p k

/-- Two contents in turn, the first of them once more, and a rejected third. -/
def republishScript : List BoardOp :=
  [.publish "demo" "spec" "run" [65] .current "workflow:run" 0,
    .publish "demo" "spec" "run" [66] .current "workflow:run" 1,
    .publish "demo" "spec" "run" [65] .current "workflow:run" 2,
    .publish "demo" "spec" "run" [67] .rejected "workflow:run" 3]

theorem version_history_sample :
    ((scripted plainBlobs republishScript).2.versionsOf "demo" "spec").map (·.n) = [1, 2, 3] ∧
      (scripted plainBlobs republishScript).2.currentVersion "demo" "spec" = some 2 := by
  refine ⟨?_, by decide +kernel⟩
  rw [(version_history (run_scripted plainBlobs republishScript)).1 "demo" "spec"]
  decide +kernel

/-! ## 3. Publishing what is to be current -/

/-- A publication with status `CURRENT` makes what it published current: the artifact points to the
version the call returned, and that version's blob is the content. -/
def MakesCurrent (S : BlobStore) (b : Board) (project key runId : String) (content : Bytes)
    (actor : String) (now : ℤ) : Prop :=
  let after := (b.publishArtifactVersion S project key runId content .current actor now).1
  let versionId := (b.publishArtifactVersion S project key runId content .current actor now).2.2
  after.currentVersion project key = some versionId ∧
    ∃ v ∈ after.versions, v.id = versionId ∧ after.blobs[v.uri]? = some content

theorem mem_of_priorVersion {sha : String} (h : b.priorVersion project key runId sha = some v) :
    v ∈ b.versions :=
  List.mem_of_find?_eq_some h

/-- **Publishing current content makes it current exactly when it is new to its run**, or when the
version the run published it as first is still current and holds it. -/
theorem publish_current_iff {S : BlobStore} {log : List (Transition Board BoardOp)} {b : Board}
    (run : BoardRun S log b) {x : Transition Board BoardOp} (hx : x ∈ log)
    {project key runId : String} {content : Bytes} {actor : String} {now : ℤ}
    (hevent : x.event = .publish project key runId content .current actor now) :
    x.after = (x.before.publishArtifactVersion S project key runId content .current actor now).1 ∧
    (MakesCurrent S x.before project key runId content actor now ↔
      ∀ prior, x.before.priorVersion project key runId (S.sha256 content) = some prior →
        x.before.currentVersion project key = some prior.id ∧
          x.before.blobs[prior.uri]? = some content) := by
  obtain ⟨⟨_, before⟩, -⟩ := run.reachable_of_mem x hx
  have hb := history_of_run before
  have hafter := after_eq_run run x hx
  rw [hevent] at hafter
  refine ⟨hafter, ?_⟩
  unfold MakesCurrent
  cases hprior : x.before.priorVersion project key runId (S.sha256 content) with
  | some prior =>
    rw [publish_of_prior hprior]
    constructor
    · rintro ⟨hcurrent, v, hv, hid, hblob⟩ _ ⟨⟩
      obtain rfl := hb.eq_of_id hv (mem_of_priorVersion hprior) hid
      exact ⟨hcurrent, hblob⟩
    · intro h
      obtain ⟨hcurrent, hblob⟩ := h prior rfl
      exact ⟨hcurrent, prior, mem_of_priorVersion hprior, rfl, hblob⟩
  | none =>
    obtain ⟨hpublished, hid⟩ := publish_of_new hprior .current actor now
    refine ⟨fun _ _ h => absurd h (by simp), fun _ => ?_⟩
    rw [hid]
    refine ⟨?_, x.before.newVersion S project key runId content .current now, ?_, rfl, ?_⟩
    · rw [currentVersion_published hpublished, if_pos ⟨rfl, rfl⟩]
    · rw [hpublished.versions]
      exact List.mem_append_right _ List.mem_cons_self
    · rw [hpublished.blobs, Dict.get?_insert_self]

theorem publish_current_iff_sample :
    MakesCurrent plainBlobs (scripted plainBlobs republishScript).2 "demo" "spec" "run" [66]
      "workflow:run" 4 := by
  have hiff := (publish_current_iff (Run.step (run_scripted plainBlobs republishScript)
    (e := .publish "demo" "spec" "run" [66] .current "workflow:run" 4) rfl)
    List.mem_cons_self rfl).2
  refine hiff.mpr fun prior hprior => ?_
  have hid : prior.id = 2 ∧ prior.uri = "run/artifacts/spec-v2.json" := by
    have hview := congrArg (Option.map fun v : ArtifactVersion => (v.id, v.uri)) hprior
    exact Prod.mk.inj (Option.some.inj (hview.symm.trans (by decide +kernel)))
  rw [hid.1, hid.2]
  decide +kernel

/-- A run publishes A, then B, then A again: the last call returns version 1, and B stays
current. -/
theorem publish_not_current : ¬∀ log b, BoardRun plainBlobs log b → ∀ x ∈ log,
    ∀ project key runId content actor now,
      x.event = .publish project key runId content .current actor now →
      MakesCurrent plainBlobs x.before project key runId content actor now := by
  intro hall
  have hmakes := hall _ _ (Run.step (run_scripted plainBlobs (republishScript.take 2))
    (e := .publish "demo" "spec" "run" [65] .current "workflow:run" 2) rfl) _ List.mem_cons_self
    _ _ _ _ _ _ rfl
  have hcurrent := hmakes.1
  revert hcurrent
  decide +kernel

end Board

end Kroker
