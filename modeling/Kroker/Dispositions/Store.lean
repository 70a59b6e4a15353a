import Kroker.Capability.History

/-!
# Finding dispositions

`BoardFindingDispositionStore` of `dispositions/store.py`: a person's decisions over the findings of a
project, one row for each finding, under the same optimistic versions as the capability registry.
`apply` is one `BEGIN IMMEDIATE` transaction that is rolled back where it raises, so calls of any number
of connections are interleaved call by call.

## 1.  The store

`apply`, with what it checks and the statements it executes; `updated_at` and the like, which nothing
reads, are left out.

## 2.  What a run leaves

The tables are a registry for each project (`lawful_registryOf`).

## 3.  Both registries

`registries_serialized` --- of the capability registry and of this one no write is lost, whatever the
order of the calls and whichever of them raise.
-/

namespace Kroker

/-! ## 1.  The store -/

inductive Disposition where
  | falsePositive
  | mitigatedElsewhere
  | acceptedRisk

def Disposition.value : Disposition → String
  | .falsePositive => "false_positive"
  | .mitigatedElsewhere => "mitigated_elsewhere"
  | .acceptedRisk => "accepted_risk"

inductive FindingKind where
  | vulnerability
  | testability
  deriving DecidableEq

/-- One audited human decision over one finding.  The last three fields are `_audited`. -/
structure FindingDisposition where
  kind : FindingKind
  key : String
  disposition : Disposition
  approvedBy : String
  reason : String
  decidedAt : String
  approvedBy_ne : strip approvedBy ≠ "" := by decide
  reason_ne : strip reason ≠ "" := by decide
  key_ne : strip key ≠ "" := by decide

structure DispositionRow where
  project : String
  finding : FindingDisposition

def DispositionRow.primaryKey (r : DispositionRow) : String × FindingKind × String :=
  (r.project, r.finding.kind, r.finding.key)

structure DispositionRegistryRow where
  project : String
  registryVersion : ℤ

structure DispositionEvent where
  project : String
  kind : FindingKind
  key : String
  actor : String
  operation : String
  detail : String

structure DispositionDb where
  registry : Table DispositionRegistryRow.project := ∅
  findings : Table DispositionRow.primaryKey := ∅
  eventLog : List DispositionEvent := []

inductive DispositionError where
  | conflict (message : String)
  | overflow (message : String)

namespace DispositionDb

def registryVersion (db : DispositionDb) (project : String) : ℤ :=
  match db.registry.find? project with
  | some row => row.registryVersion
  | none => 0

theorem registryVersion_of_find? {db : DispositionDb} {project : String}
    {row : Option DispositionRegistryRow} : db.registry.find? project = row →
      db.registryVersion project = match row with
        | some row => row.registryVersion
        | none => 0 := by
  rintro rfl
  rfl

/-- The stored decision over a finding. -/
def findingAt (db : DispositionDb) (project : String) (finding : FindingKind × String) :
    Option FindingDisposition :=
  (db.findings.find? (project, finding)).map (·.finding)

/-- The rows that `events` reads the operations of. -/
def eventsAt (db : DispositionDb) (project : String) (finding : FindingKind × String) :
    List DispositionEvent :=
  db.eventLog.filter fun e => e.project = project ∧ e.kind = finding.1 ∧ e.key = finding.2

def events (db : DispositionDb) (project : String) (kind : FindingKind) (key : String) :
    List String :=
  (db.eventsAt project (kind, key)).map (·.operation)

/-- `INSERT INTO finding_disposition_registry ... ON CONFLICT(project) DO NOTHING`. -/
def ensureRegistry (db : DispositionDb) (project : String) : DispositionDb :=
  { db with registry := db.registry.insertNew ⟨project, 0⟩ }

def upsertFinding (db : DispositionDb) (row : DispositionRow) : DispositionDb :=
  { db with findings := db.findings.put row }

def recordEvent (db : DispositionDb) (project : String) (disposition : FindingDisposition)
    (actor operation : String) (detail : Option String) : DispositionDb :=
  { db with
    eventLog := db.eventLog ++
      [{ project, kind := disposition.kind, key := disposition.key, actor, operation,
         detail := detail.getD disposition.disposition.value }] }

/-- `UPDATE finding_disposition_registry SET registry_version = ?`. -/
def setVersion (db : DispositionDb) (project : String) (version : ℤ) :
    Except DispositionError DispositionDb :=
  if version < int64Bound then
    .ok { db with
      registry := db.registry.modify project (fun r => { r with registryVersion := version })
        fun _ h => h }
  else .error (.overflow "Python int too large to convert to SQLite INTEGER")

/-- `apply`: the next tables and the new version, or the error it is rolled back with. -/
def apply (db : DispositionDb) (project : String) (disposition : FindingDisposition)
    (expectedVersion : ℤ) (actor : String) (operation : String := "dispose")
    (detail : Option String := none) : Except DispositionError (DispositionDb × ℤ) := do
  let current := db.registryVersion project
  if current ≠ expectedVersion then
    throw (.conflict ("registry_version for '" ++ project ++ "' is " ++ toString current ++
      ", caller expected " ++ toString expectedVersion ++ "; reload before disposing again"))
  let written := ((db.ensureRegistry project).upsertFinding ⟨project, disposition⟩).recordEvent
    project disposition actor operation detail
  let advanced ← written.setVersion project (expectedVersion + 1)
  return (advanced, expectedVersion + 1)

end DispositionDb

/-- A call of `apply`. -/
structure DispositionOp where
  project : String
  disposition : FindingDisposition
  expectedVersion : ℤ
  actor : String
  operation : String := "dispose"
  detail : Option String := none

namespace DispositionDb

/-- The call on these tables. -/
def answer (db : DispositionDb) (op : DispositionOp) :
    Except DispositionError (DispositionDb × ℤ) :=
  db.apply op.project op.disposition op.expectedVersion op.actor op.operation op.detail

/-- The tables after a call: one that raises is rolled back. -/
def perform (db : DispositionDb) (op : DispositionOp) : DispositionDb :=
  match db.answer op with
  | .ok (db', _) => db'
  | .error _ => db

end DispositionDb

/-- A run of the store: calls of any connections, in the order the database serves them. -/
abbrev DispositionRun : List (Transition DispositionDb DispositionOp) → DispositionDb → Prop :=
  Run {} fun db op => some (db.perform op)

namespace DispositionDb

open Serial

/-! ## 2.  What a run leaves -/

def committedIn (project : String) (t : Transition DispositionDb DispositionOp) :
    Option DispositionOp :=
  if t.event.project = project ∧ (t.before.answer t.event).isOk then some t.event else none

/-- The decision of the call, if it is over the finding. -/
def findingsOf (op : DispositionOp) (finding : FindingKind × String) : List FindingDisposition :=
  if (op.disposition.kind, op.disposition.key) = finding then [op.disposition] else []

/-- The event a decision is recorded with. -/
def eventOf (project : String) (op : DispositionOp) (disposition : FindingDisposition) :
    DispositionEvent :=
  { project, kind := disposition.kind, key := disposition.key, actor := op.actor,
    operation := op.operation, detail := op.detail.getD disposition.disposition.value }

def registryOf (project : String) :
    Serial.Registry DispositionDb DispositionOp DispositionOp (FindingKind × String) FindingDisposition
      DispositionEvent where
  commit := committedIn project
  version := (registryVersion · project)
  expected := (·.expectedVersion)
  rowAt := (findingAt · project)
  eventsAt := (eventsAt · project)
  rowsOf := findingsOf
  record := eventOf project
  merge := fun _ disposition => disposition

/-- **What a call that commits does**, to its own project and to the others. -/
theorem answer_spec {db db' : DispositionDb} {op : DispositionOp} {version : ℤ}
    (h : db.answer op = .ok (db', version)) :
    db.registryVersion op.project = op.expectedVersion ∧
    (∀ project, db'.registryVersion project =
      if op.project = project then op.expectedVersion + 1 else db.registryVersion project) ∧
    (∀ project finding, db'.findingAt project finding =
      if op.project = project ∧ (op.disposition.kind, op.disposition.key) = finding then
        some op.disposition
      else db.findingAt project finding) ∧
    ∀ project finding, db'.eventsAt project finding = db.eventsAt project finding ++
      if op.project = project ∧ (op.disposition.kind, op.disposition.key) = finding then
        [eventOf project op op.disposition]
      else [] := by
  unfold answer apply at h
  dsimp only at h
  split at h
  · cases h
  · rename_i hversion
    rw [not_not] at hversion
    obtain ⟨advanced, hadvanced, h⟩ := bind_eq_ok.mp h
    obtain ⟨rfl, -⟩ := Prod.mk.inj (Except.ok.inj h)
    rw [setVersion] at hadvanced
    split at hadvanced
    · obtain rfl := Except.ok.inj hadvanced
      refine ⟨hversion, fun project => ?_, fun project finding => ?_, fun project finding => ?_⟩
      · have hafter := Table.find?_modify (db.ensureRegistry op.project).registry op.project
          (fun r => { r with registryVersion := op.expectedVersion + 1 }) (fun _ h => h) project
        have hensured := Table.find?_insertNew db.registry ⟨op.project, 0⟩ project
        refine (registryVersion_of_find? (hafter.trans (by rw [ensureRegistry, hensured]))).trans ?_
        rw [registryVersion]
        by_cases hproject : op.project = project
        · rw [if_pos hproject, if_pos hproject, if_pos hproject]
          cases db.registry.find? project <;> rfl
        · rw [if_neg hproject, if_neg hproject, if_neg hproject, Option.or_none]
      · have hput := Table.find?_put db.findings ⟨op.project, op.disposition⟩ (project, finding)
        refine (congrArg (Option.map (·.finding)) hput).trans ?_
        have hkey : DispositionRow.primaryKey ⟨op.project, op.disposition⟩ = (project, finding) ↔
            op.project = project ∧ (op.disposition.kind, op.disposition.key) = finding :=
          Prod.mk.injEq .. ▸ Iff.rfl
        by_cases h : op.project = project ∧ (op.disposition.kind, op.disposition.key) = finding
        · rw [if_pos (hkey.mpr h), if_pos h]
          rfl
        · rw [if_neg (mt hkey.mp h), if_neg h]
          rfl
      · change (db.eventLog ++ [_]).filter _ = _
        rw [List.filter_append, eventsAt]
        congr 1
        by_cases h : op.project = project ∧ (op.disposition.kind, op.disposition.key) = finding
        · obtain ⟨rfl, rfl⟩ := h
          simp [eventOf]
        · rw [if_neg h, List.filter_eq_nil_iff]
          rintro e he hboth
          obtain rfl := List.mem_singleton.mp he
          obtain ⟨hproject, hkind, hkey⟩ := of_decide_eq_true hboth
          exact h ⟨hproject, Prod.ext hkind hkey⟩
    · cases hadvanced

/-- **The tables are a registry for each project.** -/
theorem lawful_registryOf (project : String) :
    (registryOf project).Lawful {} fun db op => some (db.perform op) where
  merge_self row := rfl
  merge_merge a b c := rfl
  start := ⟨rfl, fun finding => ⟨rfl, rfl⟩⟩
  idle db op db' hnext hnone := by
    obtain rfl := Option.some.inj hnext
    change committedIn project ⟨db, op, db.perform op⟩ = none at hnone
    change (db.perform op).registryVersion project = db.registryVersion project ∧
      ∀ finding, (db.perform op).findingAt project finding = db.findingAt project finding ∧
        (db.perform op).eventsAt project finding = db.eventsAt project finding
    rw [perform]
    split
    · rename_i db' version hanswer
      have hother : op.project ≠ project := by
        rintro rfl
        rw [committedIn, if_pos ⟨rfl, by rw [hanswer]; rfl⟩] at hnone
        cases hnone
      obtain ⟨-, hversion, hfindings, hevents⟩ := answer_spec hanswer
      refine ⟨by rw [hversion, if_neg hother], fun finding => ?_⟩
      rw [hfindings, hevents, if_neg fun h => hother h.1, if_neg fun h => hother h.1,
        List.append_nil]
      exact ⟨rfl, rfl⟩
    · exact ⟨rfl, fun finding => ⟨rfl, rfl⟩⟩
  commits db op db' batch hnext hsome := by
    obtain rfl := Option.some.inj hnext
    change committedIn project ⟨db, op, db.perform op⟩ = some batch at hsome
    change (batch.expectedVersion = db.registryVersion project ∧
        (db.perform op).registryVersion project = db.registryVersion project + 1) ∧
      ∀ finding, (db.perform op).findingAt project finding =
          (findingsOf batch finding).foldl (put fun _ disposition => disposition)
            (db.findingAt project finding) ∧
        (db.perform op).eventsAt project finding = db.eventsAt project finding ++
          (findingsOf batch finding).map (eventOf project batch)
    rw [committedIn] at hsome
    dsimp only at hsome
    split_ifs at hsome with hcommits
    obtain ⟨rfl, hok⟩ := hcommits
    obtain rfl := Option.some.inj hsome
    rw [perform]
    split
    · rename_i db' version hanswer
      obtain ⟨hexpected, hversion, hfindings, hevents⟩ := answer_spec hanswer
      refine ⟨⟨hexpected.symm, by rw [hversion, if_pos rfl, hexpected]⟩, fun finding => ?_⟩
      rw [hfindings, hevents]
      by_cases hfinding : (op.disposition.kind, op.disposition.key) = finding
      · rw [if_pos ⟨rfl, hfinding⟩, if_pos ⟨rfl, hfinding⟩, findingsOf, if_pos hfinding]
        refine ⟨?_, rfl⟩
        cases db.findingAt op.project finding <;> rfl
      · rw [if_neg fun h => hfinding h.2, if_neg fun h => hfinding h.2, findingsOf,
          if_neg hfinding, List.map_nil, List.append_nil]
        exact ⟨rfl, rfl⟩
    · rename_i e hanswer
      rw [hanswer] at hok
      cases hok

end DispositionDb

/-! ## 3.  Both registries -/

/-- **Neither registry loses a write**: in every run of calls, of the capability registry and of the
dispositions, each project has the version, the rows and the events that its committed applies made one
after the other; the ordinal of a project never moves back; and an apply that raises changes nothing. -/
theorem registries_serialized (D : UnicodeDigits) :
    (∀ log db, CapabilityRun D log db → ∀ project,
      (CapabilityDb.registryOf D project).Serialized log db ∧
      ∀ t ∈ log,
        (∀ n, (t.before.nextOrdinal project).Above n → (t.after.nextOrdinal project).Above n) ∧
        ∀ rows expectedVersion actor operation detail e,
          t.event = .apply project rows expectedVersion actor operation detail →
          t.before.apply D project rows expectedVersion actor operation detail = .error e →
          t.after = t.before) ∧
    ∀ log db, DispositionRun log db → ∀ project,
      (DispositionDb.registryOf project).Serialized log db ∧
      ∀ t ∈ log, ∀ e, t.before.answer t.event = .error e → t.after = t.before := by
  constructor
  · intro log db run project
    refine ⟨Serial.Registry.serialized_of_run (CapabilityDb.lawful_registryOf D project) run,
      fun t ht => ?_⟩
    obtain ⟨before, event, after⟩ := t
    have hafter : before.perform D event = after := Option.some.inj (run.reachable_of_mem _ ht).2.1
    subst hafter
    refine ⟨(advances_perform D before event).above project, ?_⟩
    rintro rows expectedVersion actor operation detail e rfl herror
    dsimp only at herror ⊢
    rw [CapabilityDb.perform, herror]
  · intro log db run project
    refine ⟨Serial.Registry.serialized_of_run (DispositionDb.lawful_registryOf project) run,
      fun t ht e herror => ?_⟩
    obtain ⟨before, op, after⟩ := t
    have hafter : before.perform op = after := Option.some.inj (run.reachable_of_mem _ ht).2.1
    subst hafter
    dsimp only at herror ⊢
    rw [DispositionDb.perform, herror]

/-- A decision of the sample run. -/
def sampleDisposition (disposition : Disposition) : FindingDisposition where
  kind := .vulnerability
  key := "CVE-1"
  disposition := disposition
  approvedBy := "ana"
  reason := "not reachable"
  decidedAt := "2026-01-01"

/-- A decision, one that expects the version it replaced, one of another project, and a second one. -/
def dispositionScript : List DispositionOp :=
  [⟨"shop", sampleDisposition .falsePositive, 0, "ana", "dispose", none⟩,
    ⟨"shop", sampleDisposition .acceptedRisk, 0, "bob", "dispose", none⟩,
    ⟨"bank", sampleDisposition .acceptedRisk, 0, "bob", "dispose", none⟩,
    ⟨"shop", sampleDisposition .mitigatedElsewhere, 1, "bob", "revise", none⟩]

def dispositionRun : List (Transition DispositionDb DispositionOp) × DispositionDb :=
  (runScript (fun db op => some (db.perform op)) ([], {}) dispositionScript).get
    (by decide +kernel)

theorem registries_serialized_sample :
    (identityRun.2.registryVersion "shop" = 1 ∧
      identityRun.2.registryVersion "shop" = (Serial.history
        (CapabilityDb.committedIn asciiDigits "shop") identityRun.1).length) ∧
    dispositionRun.2.events "shop" .vulnerability "CVE-1" = ["dispose", "revise"] ∧
    dispositionRun.2.registryVersion "shop" = (Serial.history
      (DispositionDb.committedIn "shop") dispositionRun.1).length := by
  have hidentities : CapabilityRun asciiDigits identityRun.1 identityRun.2 :=
    Run.of_runScript Run.start (Option.some_get (by decide +kernel)).symm
  have hdispositions : DispositionRun dispositionRun.1 dispositionRun.2 :=
    Run.of_runScript Run.start (Option.some_get (by decide +kernel)).symm
  exact ⟨⟨by decide +kernel,
    ((registries_serialized asciiDigits).1 _ _ hidentities "shop").1.version⟩,
    by decide +kernel, ((registries_serialized asciiDigits).2 _ _ hdispositions "shop").1.version⟩

def rewrittenScript : List CapabilityOp :=
  [.apply "shop" [sampleIdentity "BC-001"] 0 "a" "resolve" none,
    .apply "shop" [{ sampleIdentity "BC-001" with firstSeenRun := "later" }] 1 "a" "resolve" none]

def rewrittenRun : List (Transition CapabilityDb CapabilityOp) × CapabilityDb :=
  (runScript (fun db op => some (db.perform asciiDigits op)) ([], {}) rewrittenScript).get
    (by decide +kernel)

/-- A stored row need not be the last that was written: the run it was first seen in is kept. -/
theorem first_seen_run_kept : ¬ ∀ log db, CapabilityRun asciiDigits log db → ∀ project id,
    db.rowAt project id = ((Serial.history (CapabilityDb.committedIn asciiDigits project)
      log).flatMap (·.rowsOf id)).getLast? := by
  intro h
  have hlast := h rewrittenRun.1 rewrittenRun.2
    (Run.of_runScript Run.start (Option.some_get (by decide +kernel)).symm) "shop" "BC-001"
  have hrun := congrArg (Option.map (·.firstSeenRun)) hlast
  revert hrun
  decide +kernel

end Kroker
