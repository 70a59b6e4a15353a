import Kroker.Assessment.Models
import Kroker.Library.Except
import Kroker.Library.Tally

/-!
# The merge of candidates

`merge` of `assessment/scan/merge.py`, over the records of `scan/models.py` and the keys of
`scan/naming.py`: the candidates of the source signals are grouped by the key of their names, and a
group becomes one candidate, whose id is its place among the keys.

`merge` raises what the constructors do, which run their validators.  `merge_eq` says that nothing
is raised and that the candidates are those of the keys (`candidateOf`), `partition_keys` that they
are a partition of their sources, and `candidateOf_congr` that what a key comes to depends on what
its sources are alone.

`str.lower` is a parameter.  A set is listed by sorting it, so where two of its members have one
order key the order of a Python set would show; positive lines rule this out (`sortKey_inj`).
-/

namespace Kroker.ScanMerge

open Discover

/-! ## 1.  Names -/

def layerSuffixes : List String :=
  ["Controller", "Service", "Repository", "Handler", "Manager", "Resource", "Router", "Route",
    "Consumer", "Listener", "Subscriber", "Publisher", "Job", "Worker", "Task", "Scheduler",
    "Client", "Gateway", "Provider", "Factory", "Builder", "Helper", "Helpers", "Utils", "Util",
    "Impl", "Dao", "Dto", "Mapper", "Middleware", "ViewSet", "View", "Serializer", "Schema",
    "Model", "Entity", "Repo", "Api", "Endpoint"]

def endsWith (text suffix : String) : Bool := suffix.toList.isSuffixOf text.toList

/-- `text[:-n]`. -/
def dropLast (text : String) (n : ℕ) : String :=
  String.ofList (text.toList.take (text.toList.length - n))

/-- `text.strip(chars)`. -/
def stripOf (chars : List Char) (text : String) : String :=
  String.ofList ((text.toList.dropWhile (· ∈ chars)).reverse.dropWhile (· ∈ chars)).reverse

def singularize (word : String) : String :=
  if 3 < word.length ∧ endsWith word "ies" then dropLast word 3 ++ "y"
  else if ["sses", "shes", "ches", "xes", "zes"].any fun group =>
      group.length < word.length && endsWith word group then
    dropLast word 2
  else if 2 < word.length ∧ endsWith word "s" ∧ ¬ endsWith word "ss" ∧ ¬ endsWith word "us" then
    dropLast word 1
  else word

section Names

-- `str.lower`
variable (lower : String → String)

/-- `_strip_layer_suffix`: of the suffixes that match, the longest. -/
def stripLayerSuffix (name : String) : String :=
  let lowered := lower name
  let suffixes := layerSuffixes.filter fun s =>
    endsWith lowered (lower s) && decide (s.length < name.length)
  match (suffixes.map String.length).max? with
  | none => name
  | some n => dropLast name n

def normalize (name : String) : String :=
  let out := stripLayerSuffix lower (strip name)
  singularize (lower (stripOf ['_', '-', '.'] out))

def nameKey (name : String) : String :=
  let out := normalize lower name
  if out = "" then lower (strip name) else out

end Names

/-! ## 2.  Candidates -/

/-- The members of the enumeration. -/
def scanSignals : List ScanSignalId :=
  [.s1, .s2, .s3, .s4, .s5, .ss1, .ss2, .ss3, .ss4, .qs1, .qs2, .qs3, .qs4]

def signalOf (localId : String) : Except String ScanSignalId :=
  let head := String.ofList (localId.toList.takeWhile (· ≠ '-'))
  if suffixOf localId = "" then
    .error ("malformed local_id " ++ quoted localId ++ " -- expected '<signal>-<slug>'")
  else
    match scanSignals.find? (·.value = head) with
    | some signal => .ok signal
    | none =>
      .error ("malformed local_id " ++ quoted localId ++ " -- " ++ quoted head ++
        " is not a signal id")

/-- A `SourceCandidate`, as far as the merge reads it, with what its validators ask of it. -/
structure SourceCandidate where
  signal : ScanSignalId
  localId : String
  name : String
  members : List CandidateMember
  /-- `_local_id_declares_its_signal`. -/
  signalOf_eq : signalOf localId = .ok signal
  /-- `_has_members`. -/
  members_ne : members ≠ []

def confidenceFrom (signals : List ScanSignalId) : Confidence :=
  let n := signals.dedup.length
  if 3 ≤ n then .high else if n = 2 then .medium else .low

@[ext]
structure ScanCandidate where
  candidateId : String
  name : String
  sources : List String
  confidence : Confidence
  members : List CandidateMember
  possibleDuplicateOf : List String := []

def Confidence.value : Confidence → String
  | .high => "high"
  | .medium => "medium"
  | .low => "low"

/-- The constructor of `ScanCandidate`, with its validators. -/
def ScanCandidate.of (candidateId name : String) (sources : List String) (confidence : Confidence)
    (members : List CandidateMember) (possibleDuplicateOf : List String) :
    Except String ScanCandidate := do
  if sources = [] then
    .error ("a ScanCandidate needs at least one source -- it is a merge of source candidates, " ++
      "and a merge of nothing has no evidence")
  else
    let signals ← sources.mapM signalOf
    if confidence ≠ confidenceFrom signals then
      .error ("confidence " ++ quoted (Confidence.value confidence) ++
        " does not match the derived " ++ quoted (Confidence.value (confidenceFrom signals)) ++
        " for sources " ++ Corrections.reprList sources ++ " -- confidence is derived from the " ++
        "count of DISTINCT source signals, never assigned (D8)")
    else
      .ok
        { candidateId, name, confidence
          sources := sortedSet sources
          members := sortedBy CandidateMember.sortKey members.dedup
          possibleDuplicateOf := sortedSet possibleDuplicateOf }

/-! ## 3.  The merge -/

structure MergeOutput where
  candidates : List ScanCandidate := []
  collected : Measurement

def paths (members : List CandidateMember) : List String :=
  (members.map (·.path)).filter (· ≠ "")

def overlaps (a b : List CandidateMember) : Bool := (paths a).any fun path => path ∈ paths b

/-- `f"C-{n:02d}"`. -/
def candidateIdOf (n : ℕ) : String := "C-" ++ String.ofList ((toString n).toList.leftpad 2 '0')

def dupSortKey (candidateId : String) : ℕ := intOf (rpartition candidateId '-').2.2

def memberSet (group : List SourceCandidate) : List CandidateMember :=
  (group.flatMap (·.members)).dedup

def candidate (memberSets : List (List CandidateMember)) (group : List SourceCandidate)
    (index : ℕ) : Except String ScanCandidate := do
  let localIds := sortedSet (group.map (·.localId))
  let signals ← localIds.mapM signalOf
  let members := memberSets.getD index []
  match (sortedBy id (group.map (·.name))).head? with
  | none => .error "list index out of range"
  | some name =>
    ScanCandidate.of (candidateIdOf (index + 1)) name localIds (confidenceFrom signals)
      (sortedBy CandidateMember.sortKey members)
      (sortedBy dupSortKey ((memberSets.zipIdx.filter fun other =>
        decide (other.2 ≠ index) && overlaps members other.1).map fun other =>
          candidateIdOf (other.2 + 1)))

/-- What the merge says was collected. -/
def collectedOf (candidates : List ScanCandidate) (upstream : List (ScanSignalId × Measurement)) :
    Measurement :=
  let unmeasured := sortedBy id
    ((upstream.filter fun s => s.2 ≠ .measured).map fun s => s.1.value)
  if candidates ≠ [] then .measured
  else if unmeasured ≠ [] then
    .notCollected ("candidate_merge: no source candidates, and " ++
      Corrections.reprList unmeasured ++ " did not collect -- a merge over nothing is not a " ++
      "measured zero")
  else .measured

def merge (lower : String → String) (sources : List SourceCandidate)
    (upstream : List (ScanSignalId × Measurement)) : Except String MergeOutput := do
  let groups := group (fun c : SourceCandidate => nameKey lower c.name) sources
  let ordered := sortedBy Prod.fst groups
  let memberSets := ordered.map fun g => memberSet g.2
  let candidates ← ordered.zipIdx.mapM fun g => candidate memberSets g.1.2 g.2
  .ok { candidates, collected := collectedOf candidates upstream }

/-! ## 4.  What the groups come to -/

section Groups

variable (lower : String → String) (sources : List SourceCandidate)

def key (c : SourceCandidate) : String := nameKey lower c.name

/-- The keys there are, in order. -/
def keys : List String := sortedSet (sources.map (key lower))

def groupOf (k : String) : List SourceCandidate := sources.filter (key lower · = k)

/-- The members under a key. -/
def membersOf (k : String) : List CandidateMember := memberSet (groupOf lower sources k)

def idOf (k : String) : String := candidateIdOf ((keys lower sources).idxOf k + 1)

def candidateOf (k : String) : ScanCandidate where
  candidateId := idOf lower sources k
  name := (sortedBy id ((groupOf lower sources k).map (·.name))).head?.getD ""
  sources := sortedSet ((groupOf lower sources k).map (·.localId))
  confidence := confidenceFrom ((groupOf lower sources k).map (·.signal))
  members := sortedBy CandidateMember.sortKey
    (sortedBy CandidateMember.sortKey (membersOf lower sources k)).dedup
  possibleDuplicateOf := sortedSet (((keys lower sources).filter fun k' => decide (k' ≠ k) &&
    overlaps (membersOf lower sources k) (membersOf lower sources k')).map (idOf lower sources))

variable {lower sources}

theorem mem_keys {k : String} : k ∈ keys lower sources ↔ ∃ c ∈ sources, key lower c = k :=
  mem_sortedSet.trans List.mem_map

theorem nodup_keys : (keys lower sources).Nodup := nodup_of_strict (lists_sortedSet _).1

theorem mem_groupOf {k : String} {c : SourceCandidate} :
    c ∈ groupOf lower sources k ↔ c ∈ sources ∧ key lower c = k := by
  rw [groupOf, List.mem_filter, decide_eq_true_iff]

theorem mem_membersOf {k : String} {x : CandidateMember} :
    x ∈ membersOf lower sources k ↔ ∃ c ∈ sources, key lower c = k ∧ x ∈ c.members := by
  rw [membersOf, memberSet, List.mem_dedup, List.mem_flatMap]
  exact exists_congr fun c => by rw [mem_groupOf, and_assoc]

theorem ordered_eq : sortedBy Prod.fst (group (key lower) sources) =
    (keys lower sources).map fun k => (k, groupOf lower sources k) := by
  have hkeys : sortedBy id (firstBy id (sources.map (key lower))) = keys lower sources := by
    refine Lists.unique ⟨?_, fun k => ?_⟩ (lists_sortedSet _)
    · have hstrict := sortedBy_strict (nodup_firstFrom id (sources.map (key lower)) [])
      rwa [List.map_id] at hstrict
    · refine mem_sortedBy.trans ⟨mem_of_mem_firstBy, fun hk => ?_⟩
      obtain ⟨k', hk', hsame⟩ : ∃ k' ∈ firstBy id (sources.map (key lower)), id k' = id k :=
        exists_mem_firstFrom hk List.not_mem_nil
      obtain rfl : k' = k := hsame
      exact hk'
  have hmap : ∀ k : String, Prod.fst (k, groupOf lower sources k) = id k := fun _ => rfl
  rw [← hkeys, ← sortedBy_map hmap, group_eq]
  rfl

theorem confidenceFrom_congr {signals signals' : List ScanSignalId}
    (h : ∀ s, s ∈ signals ↔ s ∈ signals') : confidenceFrom signals = confidenceFrom signals' := by
  have hperm : signals.dedup.Perm signals'.dedup :=
    (List.perm_ext_iff_of_nodup (List.nodup_dedup _) (List.nodup_dedup _)).mpr fun s => by
      rw [List.mem_dedup, List.mem_dedup, h]
  rw [confidenceFrom, confidenceFrom, hperm.length_eq]

theorem exists_signals (group : List SourceCandidate) :
    ∃ signals, (sortedSet (group.map (·.localId))).mapM signalOf = .ok signals ∧
      ∀ s, s ∈ signals ↔ s ∈ group.map (·.signal) := by
  have hok : ((sortedSet (group.map (·.localId))).mapM signalOf).isOk = true := by
    refine isOk_mapM_iff.mpr fun localId hid => ?_
    obtain ⟨c, -, rfl⟩ := List.mem_map.mp (mem_sortedSet.mp hid)
    rw [c.signalOf_eq]
    rfl
  cases hsignals : (sortedSet (group.map (·.localId))).mapM signalOf with
  | error e =>
    rw [hsignals] at hok
    exact nomatch hok
  | ok signals =>
    obtain ⟨hback, hforth⟩ := exists_of_mapM_eq_ok hsignals
    refine ⟨signals, rfl, fun s => ⟨fun hs => ?_, fun hs => ?_⟩⟩
    · obtain ⟨localId, hid, heq⟩ := hback s hs
      obtain ⟨c, hc, rfl⟩ := List.mem_map.mp (mem_sortedSet.mp hid)
      exact List.mem_map.mpr ⟨c, hc, Except.ok.inj (c.signalOf_eq.symm.trans heq)⟩
    · obtain ⟨c, hc, rfl⟩ := List.mem_map.mp hs
      obtain ⟨s, hs, heq⟩ := hforth c.localId (mem_sortedSet.mpr (List.mem_map_of_mem hc))
      exact Except.ok.inj (c.signalOf_eq.symm.trans heq) ▸ hs

theorem idxOf_of_getElem? {i : ℕ} {k : String} (h : (keys lower sources)[i]? = some k) :
    (keys lower sources).idxOf k = i := by
  obtain ⟨hi, rfl⟩ := List.getElem?_eq_some_iff.mp h
  exact List.Nodup.idxOf_getElem nodup_keys i hi

/-- **The candidate of a key** is the one the round with its index makes, and nothing is raised. -/
theorem candidate_eq {i : ℕ} {k : String} (hi : (keys lower sources)[i]? = some k) :
    candidate ((keys lower sources).map (membersOf lower sources)) (groupOf lower sources k) i =
      .ok (candidateOf lower sources k) := by
  have hk : k ∈ keys lower sources := List.mem_of_getElem? hi
  obtain ⟨c, hc, hkey⟩ := mem_keys.mp hk
  have hgroup : c ∈ groupOf lower sources k := mem_groupOf.mpr ⟨hc, hkey⟩
  obtain ⟨signals, hsignals, hsame⟩ := exists_signals (groupOf lower sources k)
  have hids : sortedSet ((groupOf lower sources k).map (·.localId)) ≠ [] :=
    List.ne_nil_of_mem (mem_sortedSet.mpr (List.mem_map_of_mem hgroup))
  have hmembers : ((keys lower sources).map (membersOf lower sources)).getD i [] =
      membersOf lower sources k := by
    rw [List.getD_eq_getElem?_getD, List.getElem?_map, hi]
    rfl
  have hdup : sortedSet (sortedBy dupSortKey
      ((((keys lower sources).map (membersOf lower sources)).zipIdx.filter fun other =>
        decide (other.2 ≠ i) && overlaps (membersOf lower sources k) other.1).map fun other =>
          candidateIdOf (other.2 + 1))) = (candidateOf lower sources k).possibleDuplicateOf := by
    refine (lists_sortedSet _).unique ((lists_sortedSet _).congr fun id => ?_)
    rw [mem_sortedBy, List.mem_map, List.mem_map]
    constructor
    · rintro ⟨k', hk', rfl⟩
      obtain ⟨hk', hother⟩ := List.mem_filter.mp hk'
      obtain ⟨hne, hoverlap⟩ := Bool.and_eq_true_iff.mp hother
      obtain ⟨j, hj⟩ := List.mem_iff_getElem?.mp hk'
      refine ⟨(membersOf lower sources k', j), List.mem_filter.mpr ⟨?_, ?_⟩, ?_⟩
      · rw [List.mem_zipIdx_iff_getElem?, List.getElem?_map, hj]
        rfl
      · refine Bool.and_eq_true_iff.mpr ⟨decide_eq_true fun hji => ?_, hoverlap⟩
        rw [show j = i from hji, hi] at hj
        exact of_decide_eq_true hne (Option.some.inj hj).symm
      · rw [idOf, idxOf_of_getElem? hj]
    · rintro ⟨⟨members, j⟩, hother, rfl⟩
      obtain ⟨hmem, hother⟩ := List.mem_filter.mp hother
      obtain ⟨hne, hoverlap⟩ := Bool.and_eq_true_iff.mp hother
      rw [List.mem_zipIdx_iff_getElem?, List.getElem?_map, Option.map_eq_some_iff] at hmem
      obtain ⟨k', hj, rfl⟩ := hmem
      refine ⟨k', List.mem_filter.mpr ⟨List.mem_of_getElem? hj, ?_⟩, ?_⟩
      · refine Bool.and_eq_true_iff.mpr ⟨decide_eq_true fun hkk => ?_, hoverlap⟩
        have hji : j = i := (idxOf_of_getElem? hj).symm.trans (hkk ▸ idxOf_of_getElem? hi)
        exact of_decide_eq_true hne hji
      · rw [idOf, idxOf_of_getElem? hj]
  obtain ⟨name, hname⟩ : ∃ name,
      (sortedBy id ((groupOf lower sources k).map (·.name))).head? = some name := by
    have hne : sortedBy id ((groupOf lower sources k).map (·.name)) ≠ [] :=
      List.ne_nil_of_mem (mem_sortedBy.mpr (List.mem_map_of_mem hgroup))
    exact Option.isSome_iff_exists.mp (List.isSome_head?.mpr hne)
  rw [candidate, hsignals, hmembers]
  dsimp only [bind, Except.bind]
  rw [hname]
  dsimp only
  rw [ScanCandidate.of, if_neg hids, hsignals]
  dsimp only [bind, Except.bind]
  rw [if_neg (not_not.mpr rfl)]
  refine congrArg Except.ok (ScanCandidate.ext ?_ ?_ ?_ (confidenceFrom_congr hsame) rfl hdup)
  · exact congrArg (fun i => candidateIdOf (i + 1)) (idxOf_of_getElem? hi).symm
  · rw [candidateOf, hname]
    rfl
  · refine (lists_sortedSet _).unique ((lists_sortedSet _).congr fun id => ?_)
    rw [mem_sortedSet]

/-- **The merge** makes a candidate of each key, and raises nothing. -/
theorem merge_eq (upstream : List (ScanSignalId × Measurement)) :
    merge lower sources upstream = .ok
      { candidates := (keys lower sources).map (candidateOf lower sources)
        collected :=
          collectedOf ((keys lower sources).map (candidateOf lower sources)) upstream } := by
  have hcandidates : ((keys lower sources).map fun k =>
        (k, groupOf lower sources k)).zipIdx.mapM (fun g =>
          candidate ((keys lower sources).map (membersOf lower sources)) g.1.2 g.2) =
      .ok ((keys lower sources).map (candidateOf lower sources)) := by
    have hok := mapM_eq_ok_map (l := ((keys lower sources).map fun k =>
        (k, groupOf lower sources k)).zipIdx)
      (f := fun g => candidate ((keys lower sources).map (membersOf lower sources)) g.1.2 g.2)
      (g := fun g => candidateOf lower sources g.1.1) ?_
    · rw [hok, ← Function.comp_def (fun g : String × List SourceCandidate =>
        candidateOf lower sources g.1) Prod.fst, ← List.map_map, List.zipIdx_map_fst, List.map_map]
      rfl
    · rintro ⟨⟨k, group⟩, i⟩ hmem
      rw [List.mem_zipIdx_iff_getElem?, List.getElem?_map, Option.map_eq_some_iff] at hmem
      obtain ⟨k', hi, heq⟩ := hmem
      obtain ⟨rfl, rfl⟩ := Prod.mk.inj heq
      exact candidate_eq hi
  rw [merge, show group (fun c : SourceCandidate => nameKey lower c.name) sources =
    group (key lower) sources from rfl, ordered_eq, List.map_map]
  rw [show (fun g : String × List SourceCandidate => memberSet g.2) ∘
    (fun k => (k, groupOf lower sources k)) = membersOf lower sources from rfl, hcandidates]
  rfl

end Groups

/-! ## 5.  The law of the merge -/

def CommonPath (m m' : ScanCandidate) : Prop :=
  ∃ path ≠ "", (∃ x ∈ m.members, x.path = path) ∧ ∃ x ∈ m'.members, x.path = path

/-- **The candidates are a partition of their sources**: `place` puts each source in one of them. -/
structure Partition (key : SourceCandidate → String) (sources : List SourceCandidate)
    (candidates : List ScanCandidate) (place : SourceCandidate → ScanCandidate) : Prop where
  placed : ∀ c ∈ sources, place c ∈ candidates
  filled : ∀ m ∈ candidates, ∃ c ∈ sources, place c = m
  together : ∀ c ∈ sources, ∀ c' ∈ sources, place c = place c' ↔ key c = key c'
  members : ∀ m ∈ candidates, m.members.Nodup ∧
    ∀ x, x ∈ m.members ↔ ∃ c ∈ sources, place c = m ∧ x ∈ c.members
  localIds : ∀ m ∈ candidates,
    Lists m.sources fun localId => ∃ c ∈ sources, place c = m ∧ c.localId = localId
  /-- The confidence counts signals, each once. -/
  confidence : ∀ m ∈ candidates, ∀ signals : List ScanSignalId, signals.Nodup →
    (∀ s, s ∈ signals ↔ ∃ c ∈ sources, place c = m ∧ c.signal = s) →
      m.confidence = if 3 ≤ signals.length then .high
        else if signals.length = 2 then .medium else .low
  ids : (candidates.map (·.candidateId)).Nodup
  duplicateIds : ∀ m ∈ candidates, ∀ id ∈ m.possibleDuplicateOf, ∃ m' ∈ candidates,
    m'.candidateId = id
  duplicates : ∀ m ∈ candidates, ∀ m' ∈ candidates,
    m'.candidateId ∈ m.possibleDuplicateOf ↔ m' ≠ m ∧ CommonPath m m'
  irreflexive : ∀ m ∈ candidates, m.candidateId ∉ m.possibleDuplicateOf
  symmetric : ∀ m ∈ candidates, ∀ m' ∈ candidates,
    m'.candidateId ∈ m.possibleDuplicateOf → m.candidateId ∈ m'.possibleDuplicateOf

def LinesPositive (sources : List SourceCandidate) : Prop :=
  ∀ c ∈ sources, ∀ x ∈ c.members, ∀ line, x.line = some line → 0 < line

theorem candidateIdOf_injective {m n : ℕ} (h : candidateIdOf m = candidateIdOf n) : m = n := by
  have hdigits := congrArg String.toList h
  simp only [candidateIdOf, String.toList_append, String.toList_ofList] at hdigits
  have hread : ∀ n : ℕ,
      Nat.ofDigitChars 10 ((toString n).toList.leftpad 2 '0') 0 = n := by
    intro n
    rw [List.leftpad, Nat.ofDigitChars_append, Nat.ofDigitChars_replicate_zero, Nat.mul_zero]
    exact intOf_toString n
  rw [← hread m, List.append_cancel_left hdigits, hread]

theorem commonPath_comm {m m' : ScanCandidate} : CommonPath m m' ↔ CommonPath m' m :=
  exists_congr fun _ => and_congr_right fun _ => and_comm

theorem overlaps_iff {a b : List CandidateMember} : overlaps a b = true ↔
    ∃ path ≠ "", (∃ x ∈ a, x.path = path) ∧ ∃ x ∈ b, x.path = path := by
  have hpaths : ∀ {members : List CandidateMember} {path : String},
      path ∈ paths members ↔ path ≠ "" ∧ ∃ x ∈ members, x.path = path := by
    intro members path
    rw [paths, List.mem_filter, List.mem_map, decide_eq_true_iff, and_comm]
  rw [overlaps, List.any_eq_true]
  refine exists_congr fun path => ?_
  rw [decide_eq_true_iff, hpaths, hpaths]
  tauto

section Law

variable {lower : String → String} {sources sources' : List SourceCandidate}

theorem idOf_injective {k k' : String} (hk : k ∈ keys lower sources)
    (h : idOf lower sources k = idOf lower sources k') : k = k' :=
  (List.idxOf_inj hk).mp (Nat.succ.inj (candidateIdOf_injective h))

theorem candidateOf_inj {k k' : String} (hk : k ∈ keys lower sources) :
    candidateOf lower sources k = candidateOf lower sources k' ↔ k = k' :=
  ⟨fun h => idOf_injective hk (congrArg ScanCandidate.candidateId h), fun h => h ▸ rfl⟩

theorem mem_members {k : String} {x : CandidateMember} :
    x ∈ (candidateOf lower sources k).members ↔ x ∈ membersOf lower sources k := by
  rw [candidateOf, mem_sortedBy, List.mem_dedup, mem_sortedBy]

theorem mem_possibleDuplicateOf {k : String} {id : String} :
    id ∈ (candidateOf lower sources k).possibleDuplicateOf ↔
      ∃ k' ∈ keys lower sources, k' ≠ k ∧
        CommonPath (candidateOf lower sources k) (candidateOf lower sources k') ∧
          idOf lower sources k' = id := by
  have hcommon : ∀ {k'}, overlaps (membersOf lower sources k) (membersOf lower sources k') = true ↔
      CommonPath (candidateOf lower sources k) (candidateOf lower sources k') := by
    intro k'
    rw [overlaps_iff, CommonPath]
    simp only [mem_members]
  rw [candidateOf, mem_sortedSet, List.mem_map]
  refine exists_congr fun k' => ?_
  rw [List.mem_filter, Bool.and_eq_true, decide_eq_true_iff, hcommon, and_assoc, and_assoc]
  rfl

theorem place_eq_iff {k : String} (hk : k ∈ keys lower sources) {c : SourceCandidate} :
    candidateOf lower sources (key lower c) = candidateOf lower sources k ↔ key lower c = k :=
  eq_comm.trans ((candidateOf_inj hk).trans eq_comm)

/-- **The merge is a partition.** -/
theorem partition_keys : Partition (key lower) sources
    ((keys lower sources).map (candidateOf lower sources))
    fun c => candidateOf lower sources (key lower c) := by
  have hkey : ∀ c ∈ sources, key lower c ∈ keys lower sources := fun c hc =>
    mem_keys.mpr ⟨c, hc, rfl⟩
  have hmem : ∀ {m}, m ∈ (keys lower sources).map (candidateOf lower sources) →
      ∃ k ∈ keys lower sources, candidateOf lower sources k = m := List.mem_map.mp
  refine ⟨?_, ?_, ?_, ?_, ?_, ?_, ?_, ?_, ?_, ?_, ?_⟩
  · exact fun c hc => List.mem_map_of_mem (hkey c hc)
  · intro m hm
    obtain ⟨k, hk, rfl⟩ := hmem hm
    obtain ⟨c, hc, rfl⟩ := mem_keys.mp hk
    exact ⟨c, hc, rfl⟩
  · exact fun c hc c' _ => candidateOf_inj (hkey c hc)
  · intro m hm
    obtain ⟨k, hk, rfl⟩ := hmem hm
    refine ⟨((sortedBy_perm _ _).nodup_iff).mpr (List.nodup_dedup _), fun x => ?_⟩
    rw [mem_members, mem_membersOf]
    exact exists_congr fun c => and_congr_right fun _ => and_congr_left' (place_eq_iff hk).symm
  · intro m hm
    obtain ⟨k, hk, rfl⟩ := hmem hm
    refine (lists_sortedSet _).congr fun localId => List.mem_map.trans ?_
    exact exists_congr fun c => by rw [mem_groupOf, place_eq_iff hk, and_assoc]
  · intro m hm signals hnodup hsignals
    obtain ⟨k, hk, rfl⟩ := hmem hm
    have hsame : ∀ s, s ∈ (groupOf lower sources k).map (·.signal) ↔ s ∈ signals := by
      intro s
      rw [hsignals, List.mem_map]
      exact exists_congr fun c => by rw [mem_groupOf, place_eq_iff hk, and_assoc]
    refine (confidenceFrom_congr hsame).trans ?_
    rw [confidenceFrom, hnodup.dedup]
  · rw [List.map_map]
    refine List.Nodup.map_on (fun k hk k' _ heq => idOf_injective hk heq) nodup_keys
  · intro m hm id hid
    obtain ⟨k, hk, rfl⟩ := hmem hm
    obtain ⟨k', hk', -, -, rfl⟩ := mem_possibleDuplicateOf.mp hid
    exact ⟨_, List.mem_map_of_mem hk', rfl⟩
  · intro m hm m' hm'
    obtain ⟨k, hk, rfl⟩ := hmem hm
    obtain ⟨k', hk', rfl⟩ := hmem hm'
    rw [mem_possibleDuplicateOf, Ne, candidateOf_inj hk']
    constructor
    · rintro ⟨k'', hk'', hne, hcommon, hid⟩
      obtain rfl := idOf_injective hk'' hid
      exact ⟨hne, hcommon⟩
    · exact fun ⟨hne, hcommon⟩ => ⟨k', hk', hne, hcommon, rfl⟩
  · intro m hm hself
    obtain ⟨k, hk, rfl⟩ := hmem hm
    obtain ⟨k', hk', hne, -, hid⟩ := mem_possibleDuplicateOf.mp hself
    exact hne (idOf_injective hk' hid)
  · intro m hm m' hm' hdup
    obtain ⟨k, hk, rfl⟩ := hmem hm
    obtain ⟨k', hk', rfl⟩ := hmem hm'
    obtain ⟨k'', hk'', hne, hcommon, hid⟩ := mem_possibleDuplicateOf.mp hdup
    obtain rfl := idOf_injective hk'' hid
    exact mem_possibleDuplicateOf.mpr ⟨k, hk, Ne.symm hne, commonPath_comm.mp hcommon, rfl⟩

theorem sortKey_inj {x y : CandidateMember} (hx : ∀ line, x.line = some line → 0 < line)
    (hy : ∀ line, y.line = some line → 0 < line) (h : x.sortKey = y.sortKey) : x = y := by
  obtain ⟨kind, value, path, line⟩ := x
  obtain ⟨kind', value', path', line'⟩ := y
  simp only [CandidateMember.sortKey, EmbeddingLike.apply_eq_iff_eq, Prod.mk.injEq] at h
  obtain ⟨hkind, rfl, rfl, hline⟩ := h
  have hkinds : kind = kind' := by
    revert hkind
    cases kind <;> cases kind' <;> decide
  have hlines : line = line' := by
    cases line with
    | none =>
      cases line' with
      | none => rfl
      | some n => exact absurd hline (ne_of_lt (hy n rfl))
    | some n =>
      cases line' with
      | none => exact absurd hline.symm (ne_of_lt (hx n rfl))
      | some n' => exact congrArg some hline
  rw [hkinds, hlines]

theorem keys_congr (hsame : ∀ c, c ∈ sources ↔ c ∈ sources') :
    keys lower sources' = keys lower sources := by
  refine (lists_sortedSet _).unique ((lists_sortedSet _).congr fun k => ?_)
  rw [List.mem_map, List.mem_map]
  exact exists_congr fun c => and_congr_left' (hsame c)

/-- **What a key comes to** depends on what its sources are, not on their order or number. -/
theorem candidateOf_congr (hpositive : LinesPositive sources)
    (hsame : ∀ c, c ∈ sources ↔ c ∈ sources') {k : String} :
    candidateOf lower sources' k = candidateOf lower sources k := by
  have hkeys : keys lower sources' = keys lower sources := keys_congr hsame
  have hgroup : ∀ {k c}, c ∈ groupOf lower sources' k ↔ c ∈ groupOf lower sources k := by
    intro k c
    rw [mem_groupOf, mem_groupOf, hsame]
  have hmap : ∀ {β : Type} {f : SourceCandidate → β} {b : β},
      b ∈ (groupOf lower sources' k).map f ↔ b ∈ (groupOf lower sources k).map f := by
    intro β f b
    rw [List.mem_map, List.mem_map]
    exact exists_congr fun c => and_congr_left' hgroup
  have hmembers : ∀ {k x}, x ∈ membersOf lower sources' k ↔ x ∈ membersOf lower sources k := by
    intro k x
    rw [mem_membersOf, mem_membersOf]
    exact exists_congr fun c => and_congr_left' (hsame c).symm
  have hid : idOf lower sources' = idOf lower sources := funext fun k => by rw [idOf, idOf, hkeys]
  refine ScanCandidate.ext ?_ ?_ ?_ ?_ ?_ ?_
  · exact congrFun hid k
  · exact congrArg (Option.getD · "") (head?_sortedBy_congr fun _ => hmap)
  · exact (lists_sortedSet _).unique ((lists_sortedSet _).congr fun _ => hmap.symm)
  · exact confidenceFrom_congr fun _ => hmap
  · have hnodup : ∀ {l : List CandidateMember}, l.Nodup →
        (∀ x ∈ l, x ∈ membersOf lower sources k) → (l.map CandidateMember.sortKey).Nodup := by
      intro l hl hin
      have hlines : ∀ x ∈ l, ∀ line, x.line = some line → 0 < line := by
        intro x hx
        obtain ⟨c, hc, -, hxc⟩ := mem_membersOf.mp (hin x hx)
        exact hpositive c hc x hxc
      exact List.Nodup.map_on (fun x hx y hy h => sortKey_inj (hlines x hx) (hlines y hy) h) hl
    refine sortedBy_congr (hnodup (List.nodup_dedup _) fun x hx => ?_)
      (hnodup (List.nodup_dedup _) fun x hx => ?_) fun x => ?_
    · exact hmembers.mp (mem_sortedBy.mp (List.mem_dedup.mp hx))
    · exact mem_sortedBy.mp (List.mem_dedup.mp hx)
    · rw [List.mem_dedup, List.mem_dedup, mem_sortedBy, mem_sortedBy, hmembers]
  · have hoverlaps : ∀ {k'}, overlaps (membersOf lower sources' k) (membersOf lower sources' k') =
        overlaps (membersOf lower sources k) (membersOf lower sources k') := by
      intro k'
      rw [Bool.eq_iff_iff, overlaps_iff, overlaps_iff]
      simp only [hmembers]
    simp only [candidateOf, hkeys, hid, hoverlaps]

/-- **The merge partitions its sources**: each is in one candidate, and two are together where their
names have one key; the candidates have what their sources have, the confidence counts signals, and
the duplicates are those that cite a common file.  The order and the repetition of the sources make
no difference, where the lines are positive. -/
theorem merge_partitions (lower : String → String) (sources : List SourceCandidate)
    (upstream : List (ScanSignalId × Measurement)) :
    ∃ out place, merge lower sources upstream = .ok out ∧
      Partition (fun c => nameKey lower c.name) sources out.candidates place ∧
      (LinesPositive sources → ∀ sources', (∀ c, c ∈ sources ↔ c ∈ sources') →
        merge lower sources' upstream = .ok out) := by
  refine ⟨_, _, merge_eq upstream, partition_keys, fun hpositive sources' hsame => ?_⟩
  have hcandidates : (keys lower sources').map (candidateOf lower sources') =
      (keys lower sources).map (candidateOf lower sources) := by
    rw [keys_congr hsame]
    exact List.map_congr_left fun k _ => candidateOf_congr hpositive hsame
  rw [merge_eq upstream, hcandidates]

end Law

end Kroker.ScanMerge
