import Kroker.Capability.Models
import Kroker.Library.Keyed

/-!
# The triage delta

`compute_delta` of `triage/delta.py` classifies the findings of two triages of a repository, and
`dedupe_by_identity` of `triage/models.py` drops the findings of a signal that repeat an identity.

A finding states a fact, its signal, rule, path and key, and is identified by these four joined with
colons.  The parts are free text, so two facts may share an identity.  A signal result refuses to
hold two findings with one identity; nothing compares the identities of two results, or of two
triages.
-/

namespace Kroker.Triage

/-! ## 1.  Findings -/

inductive FindingSeverity where
  | critical
  | high
  | medium
  | low
  deriving DecidableEq

structure TriageFinding where
  signal : String
  rule : String
  severity : FindingSeverity
  path : String := ""
  key : String := ""
  deriving DecidableEq

def findingIdentity (f : TriageFinding) : String :=
  f.signal ++ ":" ++ f.rule ++ ":" ++ f.path ++ ":" ++ f.key

/-- What a finding states. -/
structure Fact where
  signal : String
  rule : String
  path : String
  key : String
  deriving DecidableEq

def TriageFinding.fact (f : TriageFinding) : Fact := ⟨f.signal, f.rule, f.path, f.key⟩

/-- The identity of the findings that state the fact. -/
def Fact.identity (x : Fact) : String := x.signal ++ ":" ++ x.rule ++ ":" ++ x.path ++ ":" ++ x.key

theorem findingIdentity_eq (f : TriageFinding) : findingIdentity f = f.fact.identity := rfl

def dedupeByIdentity (findings : List TriageFinding) : List TriageFinding :=
  firstBy findingIdentity findings

/-- One signal's output, with what its validators check. -/
structure SignalResult where
  signal : String
  version : ℤ
  collected : Measurement
  findings : List TriageFinding := []
  not_collected_has_no_findings : ∀ reason, collected = .notCollected reason → findings = [] := by
    simp
  identities_unique : (findings.map findingIdentity).Nodup := by simp

structure RepoTriage where
  signals : List SignalResult := []

namespace RepoTriage

def findings (t : RepoTriage) : List TriageFinding := t.signals.flatMap (·.findings)

def facts (t : RepoTriage) : List Fact := t.findings.map (·.fact)

/-- `{finding_identity(f): f for s in t.signals for f in s.findings}`. -/
def byIdentity (t : RepoTriage) : Table findingIdentity := Table.ofRows findingIdentity t.findings

/-- `{s.signal: s for s in t.signals}`. -/
def bySignal (t : RepoTriage) : Table SignalResult.signal :=
  Table.ofRows SignalResult.signal t.signals

end RepoTriage

/-! ## 2.  The delta -/

inductive FindingState where
  | resolved
  | persisted
  | new
  | unverifiable
  deriving DecidableEq

/-- A row of the delta (`_unverifiable_states_a_reason`). -/
structure FindingDelta where
  identity : String
  signal : String
  rule : String
  severity : FindingSeverity
  state : FindingState
  reason : String := ""
  unverifiable_states_a_reason : state = .unverifiable → reason ≠ "" := by simp

/-- One side of `_unusable`. -/
def sideUnusable (signalId side : String) : Option SignalResult → String
  | none => "signal " ++ quoted signalId ++ " did not report on the " ++ side ++
      " side, so its findings were never compared"
  | some result =>
    if result.collected = .measured then ""
    else "signal " ++ quoted signalId ++ " did not collect on the " ++ side ++ " side: " ++
      result.collected.reason

/-- `_unusable`: why the signal's findings cannot be compared, or nothing when they can. -/
def unusable (signalId : String) (before after : Table SignalResult.signal) : String :=
  let b := before.find? signalId
  let a := after.find? signalId
  if sideUnusable signalId "before" b ≠ "" then sideUnusable signalId "before" b
  else if sideUnusable signalId "after" a ≠ "" then sideUnusable signalId "after" a
  else match b, a with
    | some b, some a =>
      if b.version ≠ a.version then
        "signal " ++ quoted signalId ++ " changed version between the two triages (v" ++
          toString b.version ++ " -> v" ++ toString a.version ++
          "), so the two runs did not measure the same thing"
      else ""
    | _, _ => ""

/-- `_delta` with a state that needs no reason. -/
def deltaRow (identity : String) (f : TriageFinding) (state : FindingState)
    (h : state ≠ .unverifiable := by decide) : FindingDelta where
  identity := identity
  signal := f.signal
  rule := f.rule
  severity := f.severity
  state := state
  unverifiable_states_a_reason := fun hstate => absurd hstate h

/-- `_delta` with `UNVERIFIABLE`. -/
def unverifiableRow (identity : String) (f : TriageFinding) (reason : String)
    (h : reason ≠ "" := by decide) : FindingDelta where
  identity := identity
  signal := f.signal
  rule := f.rule
  severity := f.severity
  state := .unverifiable
  reason := reason
  unverifiable_states_a_reason := fun _ => h

section Compute

variable (before after : RepoTriage) (conflicted : List String)

/-- `before_f.get(identity) or after_f[identity]`. -/
def findingOf (identity : String) : Option TriageFinding :=
  (before.byIdentity.find? identity).or (after.byIdentity.find? identity)

def comparedRow (identity : String) (f : TriageFinding) : FindingDelta :=
  if identity ∈ conflicted then
    unverifiableRow identity f
      "the fix branch for this finding hit a merge conflict and is not in the verification tree"
  else if (before.byIdentity.find? identity).isSome then
    if (after.byIdentity.find? identity).isSome then deltaRow identity f .persisted
    else deltaRow identity f .resolved
  else deltaRow identity f .new

def rowOf (identity : String) (f : TriageFinding) : FindingDelta :=
  if h : unusable f.signal before.bySignal after.bySignal ≠ "" then
    unverifiableRow identity f (unusable f.signal before.bySignal after.bySignal) h
  else comparedRow before after conflicted identity f

/-- `sorted(set(before_f) | set(after_f))`. -/
def identities : List String :=
  sortedBy id ((before.byIdentity.rows ++ after.byIdentity.rows).map findingIdentity).dedup

end Compute

def unmeasuredRow (f : TriageFinding) : FindingDelta :=
  unverifiableRow (findingIdentity f) f
    "no verification tree was produced, so the after state was never measured"

def computeDelta (before : RepoTriage) (after : Option RepoTriage) (conflicted : List String) :
    List FindingDelta :=
  match after with
  | none => (sortedBy findingIdentity before.byIdentity.rows).map unmeasuredRow
  | some after => (identities before after).filterMap fun identity =>
      (findingOf before after identity).map (rowOf before after conflicted identity)

/-! ## 3.  What a faithful delta is -/

/-- The facts on either side. -/
def allFacts (before : RepoTriage) (after : Option RepoTriage) : List Fact :=
  before.facts ++ after.elim [] RepoTriage.facts

/-- The signal was measured on both sides, with one version. -/
structure Comparable (before after : RepoTriage) (signal : String) : Prop where
  reported_before : ∃ b ∈ before.signals, b.signal = signal
  reported_after : ∃ a ∈ after.signals, a.signal = signal
  measured_before : ∀ b ∈ before.signals, b.signal = signal → b.collected = .measured
  measured_after : ∀ a ∈ after.signals, a.signal = signal → a.collected = .measured
  same_version : ∀ b ∈ before.signals, b.signal = signal →
    ∀ a ∈ after.signals, a.signal = signal → b.version = a.version

structure States (before : RepoTriage) (after : Option RepoTriage) (conflicted : List String)
    (x : Fact) (row : FindingDelta) : Prop where
  identity : row.identity = x.identity
  signal : row.signal = x.signal
  rule : row.rule = x.rule
  compared : row.state ≠ .unverifiable →
    ∃ a, after = some a ∧ Comparable before a x.signal ∧ x.identity ∉ conflicted
  resolved : row.state = .resolved → ∀ a, after = some a → x ∈ before.facts ∧ x ∉ a.facts
  persisted : row.state = .persisted → ∀ a, after = some a → x ∈ before.facts ∧ x ∈ a.facts
  new : row.state = .new → ∀ a, after = some a → x ∉ before.facts ∧ x ∈ a.facts

/-- **A faithful delta** has exactly one row for each fact on either side, and it states the
fact. -/
def Faithful (before : RepoTriage) (after : Option RepoTriage) (conflicted : List String)
    (rows : List FindingDelta) : Prop :=
  ∃ row : Fact → FindingDelta, rows.Perm ((allFacts before after).dedup.map row) ∧
    ∀ x ∈ allFacts before after, States before after conflicted x (row x)

def Apart (facts : List Fact) : Prop :=
  ∀ x ∈ facts, ∀ y ∈ facts, x.identity = y.identity → x = y

/-- Where a fact's signal is compared, by its last result on either side, no other result of it was
left unmeasured or has another version. -/
def NothingHidden (before : RepoTriage) (after : Option RepoTriage) (conflicted : List String) :
    Prop :=
  ∀ a, after = some a → ∀ x ∈ allFacts before after, x.identity ∉ conflicted →
    unusable x.signal before.bySignal a.bySignal = "" → Comparable before a x.signal

section

variable {before a : RepoTriage} {conflicted : List String} {i signal side : String}
  {f : TriageFinding} {x : Fact} {row : FindingDelta}

instance : Nonempty FindingDelta := ⟨⟨"", "", "", .low, .new, "", by simp⟩⟩

/-! ## 4.  The tables -/

theorem isSome_byIdentity_iff {t : RepoTriage} :
    (t.byIdentity.find? i).isSome ↔ ∃ f ∈ t.findings, findingIdentity f = i := by
  constructor
  · intro h
    obtain ⟨f, hf⟩ := Option.isSome_iff_exists.mp h
    exact ⟨f, Table.mem_of_find?_ofRows hf⟩
  · rintro ⟨f, hf, rfl⟩
    obtain ⟨g, hg⟩ : ∃ g, t.byIdentity.find? (findingIdentity f) = some g :=
      Table.exists_find?_ofRows hf
    exact Option.isSome_iff_exists.mpr ⟨g, hg⟩

theorem mem_facts_iff {t : RepoTriage} : x ∈ t.facts ↔ ∃ f ∈ t.findings, f.fact = x :=
  List.mem_map

theorem present_iff {facts : List Fact} (hapart : Apart facts) {t : RepoTriage}
    (ht : ∀ y ∈ t.facts, y ∈ facts) (hx : x ∈ facts) :
    (t.byIdentity.find? x.identity).isSome ↔ x ∈ t.facts := by
  rw [isSome_byIdentity_iff, mem_facts_iff]
  constructor
  · rintro ⟨f, hf, hidentity⟩
    have hin : f.fact ∈ t.facts := mem_facts_iff.mpr ⟨f, hf, rfl⟩
    exact ⟨f, hf, hapart _ (ht _ hin) _ hx hidentity⟩
  · rintro ⟨f, hf, rfl⟩
    exact ⟨f, hf, rfl⟩

theorem findingOf_mem (h : findingOf before a i = some f) :
    f.fact ∈ allFacts before (some a) ∧ findingIdentity f = i := by
  rw [findingOf, Option.or_eq_some_iff] at h
  rcases h with h | ⟨-, h⟩
  · obtain ⟨hmem, hidentity⟩ := Table.mem_of_find?_ofRows h
    exact ⟨List.mem_append_left _ (mem_facts_iff.mpr ⟨f, hmem, rfl⟩), hidentity⟩
  · obtain ⟨hmem, hidentity⟩ := Table.mem_of_find?_ofRows h
    exact ⟨List.mem_append_right _ (mem_facts_iff.mpr ⟨f, hmem, rfl⟩), hidentity⟩

theorem mem_identities_iff :
    i ∈ identities before a ↔ ∃ x ∈ allFacts before (some a), x.identity = i := by
  have hside : ∀ t : RepoTriage, (∃ f ∈ t.byIdentity.rows, findingIdentity f = i) ↔
      ∃ x ∈ t.facts, x.identity = i := by
    intro t
    constructor
    · rintro ⟨f, hf, hidentity⟩
      exact ⟨f.fact, mem_facts_iff.mpr ⟨f, Table.mem_of_mem_rows_ofRows hf, rfl⟩, hidentity⟩
    · rintro ⟨x, hx, hidentity⟩
      obtain ⟨f, hf, rfl⟩ := mem_facts_iff.mp hx
      obtain ⟨g, hg, hsame⟩ : ∃ g ∈ t.byIdentity.rows, findingIdentity g = findingIdentity f :=
        Table.exists_mem_rows_ofRows hf
      exact ⟨g, hg, hsame.trans hidentity⟩
  rw [identities, mem_sortedBy, List.mem_dedup, List.map_append, List.mem_append, List.mem_map,
    List.mem_map, hside, hside, allFacts]
  simp only [List.mem_append, Option.elim_some, or_and_right, exists_or]

theorem findingOf_isSome (h : i ∈ identities before a) : ∃ f, findingOf before a i = some f := by
  obtain ⟨x, hx, rfl⟩ := mem_identities_iff.mp h
  have hsome : (findingOf before a x.identity).isSome := by
    rw [findingOf, Option.isSome_or, Bool.or_eq_true, isSome_byIdentity_iff, isSome_byIdentity_iff]
    refine (List.mem_append.mp hx).imp ?_ ?_ <;>
    · intro hin
      obtain ⟨f, hf, rfl⟩ := mem_facts_iff.mp hin
      exact ⟨f, hf, rfl⟩
  exact Option.isSome_iff_exists.mp hsome

/-! ## 5.  The rows -/

theorem comparedRow_eq (i : String) (f : TriageFinding) :
    (comparedRow before a conflicted i f).identity = i ∧
      (comparedRow before a conflicted i f).signal = f.signal ∧
      (comparedRow before a conflicted i f).rule = f.rule := by
  unfold comparedRow
  split
  · exact ⟨rfl, rfl, rfl⟩
  · split
    · split <;> exact ⟨rfl, rfl, rfl⟩
    · exact ⟨rfl, rfl, rfl⟩

theorem rowOf_eq (i : String) (f : TriageFinding) :
    (rowOf before a conflicted i f).identity = i ∧
      (rowOf before a conflicted i f).signal = f.signal ∧
      (rowOf before a conflicted i f).rule = f.rule := by
  unfold rowOf
  split
  · exact ⟨rfl, rfl, rfl⟩
  · exact comparedRow_eq i f

theorem comparedRow_state (hconflicted : i ∉ conflicted) :
    (comparedRow before a conflicted i f).state =
      if (before.byIdentity.find? i).isSome then
        if (a.byIdentity.find? i).isSome then .persisted else .resolved
      else .new := by
  rw [comparedRow, if_neg hconflicted]
  split
  · split <;> rfl
  · rfl

theorem rowOf_verifiable_iff :
    (rowOf before a conflicted i f).state ≠ .unverifiable ↔
      unusable f.signal before.bySignal a.bySignal = "" ∧ i ∉ conflicted := by
  unfold rowOf
  split
  · rename_i hunusable
    exact iff_of_false (fun h => h rfl) fun h => hunusable h.1
  · rename_i husable
    rw [not_not] at husable
    rw [and_iff_right husable]
    by_cases hconflicted : i ∈ conflicted
    · rw [comparedRow, if_pos hconflicted]
      exact iff_of_false (fun h => h rfl) (not_not.mpr hconflicted)
    · rw [comparedRow_state hconflicted]
      refine iff_of_true ?_ hconflicted
      split
      · split <;> exact fun h => by cases h
      · exact fun h => by cases h

theorem mem_computeDelta_iff :
    row ∈ computeDelta before (some a) conflicted ↔
      ∃ i f, findingOf before a i = some f ∧ row = rowOf before a conflicted i f := by
  rw [computeDelta, List.mem_filterMap]
  constructor
  · rintro ⟨i, -, hrow⟩
    obtain ⟨f, hf, rfl⟩ := Option.map_eq_some_iff.mp hrow
    exact ⟨i, f, hf, rfl⟩
  · rintro ⟨i, f, hf, rfl⟩
    refine ⟨i, mem_identities_iff.mpr ?_, Option.map_eq_some_iff.mpr ⟨f, hf, rfl⟩⟩
    obtain ⟨hfact, hidentity⟩ := findingOf_mem hf
    exact ⟨f.fact, hfact, hidentity⟩

/-- **The rows of a delta have distinct identities**, those of the facts. -/
theorem identities_computeDelta (before : RepoTriage) (after : Option RepoTriage)
    (conflicted : List String) :
    ((computeDelta before after conflicted).map (·.identity)).Nodup ∧
      ∀ i, i ∈ (computeDelta before after conflicted).map (·.identity) ↔
        i ∈ (allFacts before after).map Fact.identity := by
  cases after with
  | none =>
    have hmap : (computeDelta before none conflicted).map (·.identity) =
        (sortedBy findingIdentity before.byIdentity.rows).map findingIdentity := by
      rw [computeDelta, List.map_map]
      rfl
    rw [hmap]
    refine ⟨nodup_of_strict (sortedBy_strict before.byIdentity.keys_nodup), fun i => ?_⟩
    rw [List.mem_map, List.mem_map, allFacts, Option.elim_none, List.append_nil]
    constructor
    · rintro ⟨f, hf, hidentity⟩
      rw [mem_sortedBy] at hf
      exact ⟨f.fact, mem_facts_iff.mpr ⟨f, Table.mem_of_mem_rows_ofRows hf, rfl⟩, hidentity⟩
    · rintro ⟨x, hx, hidentity⟩
      obtain ⟨f, hf, rfl⟩ := mem_facts_iff.mp hx
      obtain ⟨g, hg, hsame⟩ : ∃ g ∈ before.byIdentity.rows, findingIdentity g = findingIdentity f :=
        Table.exists_mem_rows_ofRows hf
      exact ⟨g, mem_sortedBy.mpr hg, hsame.trans hidentity⟩
  | some a =>
    have hmap : (computeDelta before (some a) conflicted).map (·.identity) =
        identities before a := by
      rw [computeDelta, List.map_filterMap]
      refine Eq.trans (List.filterMap_congr fun i hi => ?_) List.filterMap_some
      obtain ⟨f, hf⟩ := findingOf_isSome hi
      rw [hf, Option.map_some, Option.map_some, (rowOf_eq i f).1]
    rw [hmap]
    have hnodup : (((before.byIdentity.rows ++ a.byIdentity.rows).map findingIdentity).dedup.map
        id).Nodup := by
      rw [List.map_id]
      exact List.nodup_dedup _
    refine ⟨?_, fun i => ?_⟩
    · have hstrict := nodup_of_strict (sortedBy_strict hnodup)
      rwa [List.map_id] at hstrict
    · rw [mem_identities_iff, List.mem_map]

theorem states_of_mem {after : Option RepoTriage} (hapart : Apart (allFacts before after))
    (hhidden : NothingHidden before after conflicted) (hx : x ∈ allFacts before after)
    (hrow : row ∈ computeDelta before after conflicted) (hidentity : row.identity = x.identity) :
    States before after conflicted x row := by
  cases after with
  | none =>
    obtain ⟨f, hf, rfl⟩ := List.mem_map.mp hrow
    rw [mem_sortedBy] at hf
    have hin : f.fact ∈ allFacts before none :=
      List.mem_append_left _ (mem_facts_iff.mpr ⟨f, Table.mem_of_mem_rows_ofRows hf, rfl⟩)
    obtain rfl : f.fact = x := hapart _ hin _ hx hidentity
    exact ⟨rfl, rfl, rfl, fun h => absurd rfl h, nofun, nofun, nofun⟩
  | some a =>
    obtain ⟨i, f, hf, rfl⟩ := mem_computeDelta_iff.mp hrow
    obtain ⟨hin, hi⟩ := findingOf_mem hf
    obtain ⟨hrowi, hsignal, hrule⟩ : (rowOf before a conflicted i f).identity = i ∧
        (rowOf before a conflicted i f).signal = f.signal ∧
        (rowOf before a conflicted i f).rule = f.rule := rowOf_eq i f
    rw [hrowi] at hidentity
    subst hidentity
    obtain rfl : f.fact = x := hapart _ hin _ hx hi
    have hpresent : ∀ t : RepoTriage, (∀ y ∈ t.facts, y ∈ allFacts before (some a)) →
        ((t.byIdentity.find? f.fact.identity).isSome ↔ f.fact ∈ t.facts) :=
      fun t ht => present_iff hapart ht hin
    have hbefore := hpresent before fun y hy => List.mem_append_left _ hy
    have hafter := hpresent a fun y hy => List.mem_append_right _ hy
    have hstate : (rowOf before a conflicted f.fact.identity f).state ≠ .unverifiable →
        (rowOf before a conflicted f.fact.identity f).state =
          if f.fact ∈ before.facts then if f.fact ∈ a.facts then .persisted else .resolved
          else .new := by
      intro hverifiable
      obtain ⟨husable, hconflicted⟩ := rowOf_verifiable_iff.mp hverifiable
      rw [rowOf, dif_neg (not_not.mpr husable), comparedRow_state hconflicted]
      simp only [hbefore, hafter]
    refine ⟨hrowi, hsignal, hrule, fun hverifiable => ?_, ?_, ?_, ?_⟩
    · obtain ⟨husable, hconflicted⟩ := rowOf_verifiable_iff.mp hverifiable
      exact ⟨a, rfl, hhidden a rfl f.fact hin hconflicted husable, hconflicted⟩
    all_goals
      intro hresult a' ha
      obtain rfl : a = a' := Option.some.inj ha
      have hthis := hstate (by rw [hresult]; decide)
      rw [hresult] at hthis
      have hside : f.fact ∈ before.facts ∨ f.fact ∈ a.facts := List.mem_append.mp hin
      by_cases hb : f.fact ∈ before.facts <;> by_cases hc : f.fact ∈ a.facts <;>
        simp [hb, hc] at hthis hside ⊢

/-! ## 6.  When the delta is faithful -/

/-- **The delta is faithful exactly where the identities tell the facts apart and nothing is
hidden.** -/
theorem delta_faithful_iff (before : RepoTriage) (after : Option RepoTriage)
    (conflicted : List String) :
    Faithful before after conflicted (computeDelta before after conflicted) ↔
      Apart (allFacts before after) ∧ NothingHidden before after conflicted := by
  obtain ⟨hnodup, hmem⟩ := identities_computeDelta before after conflicted
  constructor
  · rintro ⟨row, hperm, hstates⟩
    have hapart : Apart (allFacts before after) :=
      (exists_rowOf_iff hnodup hmem).mp ⟨row, hperm, fun x hx => (hstates x hx).identity⟩
    refine ⟨hapart, ?_⟩
    rintro a rfl x hx hconflicted husable
    -- The fact's row is verifiable, so the signal is comparable.
    have hrow : row x ∈ computeDelta before (some a) conflicted :=
      hperm.mem_iff.mpr (List.mem_map_of_mem (List.mem_dedup.mpr hx))
    obtain ⟨i, f, hf, heq⟩ := mem_computeDelta_iff.mp hrow
    obtain ⟨hin, hi⟩ := findingOf_mem hf
    have hidentity : x.identity = i := by
      rw [← (hstates x hx).identity, heq, (rowOf_eq i f).1]
    obtain rfl : f.fact = x := hapart _ hin _ hx (hi.trans hidentity.symm)
    have hverifiable : (row f.fact).state ≠ .unverifiable := by
      rw [heq]
      exact rowOf_verifiable_iff.mpr ⟨husable, hidentity ▸ hconflicted⟩
    obtain ⟨a', ha, hcomparable, -⟩ := (hstates _ hx).compared hverifiable
    rwa [Option.some.inj ha]
  · rintro ⟨hapart, hhidden⟩
    obtain ⟨row, hperm, hkey⟩ := (exists_rowOf_iff hnodup hmem).mpr hapart
    refine ⟨row, hperm, fun x hx => states_of_mem hapart hhidden hx ?_ (hkey x hx)⟩
    exact hperm.mem_iff.mpr (List.mem_map_of_mem (List.mem_dedup.mpr hx))

/-- **De-duplication keeps every fact exactly where the identities tell the facts apart.** -/
theorem dedupe_keeps_iff (findings : List TriageFinding) :
    (∀ f ∈ findings, ∃ g ∈ dedupeByIdentity findings, g.fact = f.fact) ↔
      Apart (findings.map (·.fact)) := by
  rw [dedupeByIdentity, firstBy_keeps_iff findingIdentity_eq]
  constructor
  · intro h x hx y hy hsame
    obtain ⟨f, hf, rfl⟩ := List.mem_map.mp hx
    obtain ⟨g, hg, rfl⟩ := List.mem_map.mp hy
    exact h f hf g hg hsame
  · intro h f hf g hg hsame
    exact h _ (List.mem_map_of_mem hf) _ (List.mem_map_of_mem hg) hsame

end

/-- **Triage facts are kept apart exactly where their identities are**: by the delta, if nothing is
hidden either, and by de-duplication. -/
theorem facts_kept_iff (before : RepoTriage) (after : Option RepoTriage)
    (conflicted : List String) (findings : List TriageFinding) :
    (Faithful before after conflicted (computeDelta before after conflicted) ↔
      Apart (allFacts before after) ∧ NothingHidden before after conflicted) ∧
    ((∀ f ∈ findings, ∃ g ∈ dedupeByIdentity findings, g.fact = f.fact) ↔
      Apart (findings.map (·.fact))) :=
  ⟨delta_faithful_iff before after conflicted, dedupe_keeps_iff findings⟩

/-! ## 7.  Two facts with one identity -/

/-- A rule fires for `a` with the key `b:c`. -/
def keyedFinding : TriageFinding where
  signal := "secrets"
  rule := "assigned"
  severity := .high
  path := "a"
  key := "b:c"

/-- The same rule fires for the file `a:b` with the key `c`. -/
def pathFinding : TriageFinding where
  signal := "secrets"
  rule := "assigned"
  severity := .high
  path := "a:b"
  key := "c"

def sampleTriage (f : TriageFinding) : RepoTriage where
  signals :=
    [{ signal := "secrets"
       version := 1
       collected := .measured
       findings := [f] }]

/-- **Two facts are merged.**  The first was fixed and the second is new, and the delta has one row,
which says that the first persists; and of the two findings in one list the second is dropped. -/
theorem delta_merges :
    (computeDelta (sampleTriage keyedFinding) (some (sampleTriage pathFinding)) []).map
        (fun row => (row.identity, row.state)) = [("secrets:assigned:a:b:c", .persisted)] ∧
      ¬ Faithful (sampleTriage keyedFinding) (some (sampleTriage pathFinding)) []
        (computeDelta (sampleTriage keyedFinding) (some (sampleTriage pathFinding)) []) ∧
      dedupeByIdentity [keyedFinding, pathFinding] = [keyedFinding] ∧
      pathFinding.fact ≠ keyedFinding.fact := by
  refine ⟨by decide +kernel, ?_, by decide +kernel, by decide +kernel⟩
  rintro ⟨row, hperm, -⟩
  -- One row cannot state two facts.
  have hlength := hperm.length_eq
  revert hlength
  rw [List.length_map]
  decide +kernel

end Kroker.Triage
