import Kroker.Assessment.Risk
import Kroker.Library.Except
import Kroker.Library.ShortestPaths
import Kroker.Library.Tally
import Mathlib.Data.Finset.Sort

/-!
# Cascades across capabilities

`project_edges` and `cascades` of `assessment/risk/crosscap.py`.  References between files become
edges between the capabilities that own them, and from each capability whose security composite is
high enough the shortest paths along these edges are listed, up to a depth and a number of rows.

`security` composites that were not measured carry no value, and the threshold is a rational.
`Cascade` refuses an empty origin, so `cascades` may raise; no capability has an empty id.
-/

namespace Kroker.Risk

open Discover ShortestPaths

/-! ## 1.  The projection -/

/-- A capability, as far as the projection reads it. -/
structure Capability where
  bcId : String
  memberPaths : List String

structure CapabilityEdge where
  sourceBcId : String
  targetBcId : String
  weight : ℕ := 1
  evidence : List EvidenceRef := []

def edgeEvidenceMax : ℕ := 3

/-- `sorted(set(l))`, of pairs. -/
def sortedPairs (l : List (String × String)) : List (String × String) :=
  ((l.map toLex).toFinset.sort (· ≤ ·)).map ofLex

def owners (capabilities : List Capability) : List (String × List String) :=
  (gather Prod.fst (fun ids r => ids ++ [r.2]) []
    ((sortedBy Capability.bcId capabilities).flatMap fun cap =>
      cap.memberPaths.map fun path => (path, cap.bcId))).map fun m => (m.1, sortedSet m.2)

/-- `owners.get(path, ())`. -/
def ownersOf (index : List (String × List String)) (path : String) : List String :=
  (Members.get? index path).getD []

def supporting (capabilities : List Capability) (fileEdges : List (String × String)) :
    List ((String × String) × List (String × String)) :=
  group Prod.fst ((sortedPairs fileEdges).flatMap fun e =>
    (ownersOf (owners capabilities) e.1).flatMap fun src =>
      ((ownersOf (owners capabilities) e.2).filter (src ≠ ·)).map fun dst => ((src, dst), e))
  |>.map fun m => (m.1, m.2.map Prod.snd)

def projectEdges (capabilities : List Capability) (fileEdges : List (String × String)) :
    List CapabilityEdge :=
  (sortedBy (fun m => toLex m.1) (supporting capabilities fileEdges)).map fun m =>
    { sourceBcId := m.1.1
      targetBcId := m.1.2
      weight := (sortedPairs m.2).length
      evidence := ((firstBy id ((sortedPairs m.2).map Prod.fst)).take edgeEvidenceMax).map
        fun path => { path } }

theorem sortedPairs_congr {l l' : List (String × String)} (h : ∀ e, e ∈ l ↔ e ∈ l') :
    sortedPairs l = sortedPairs l' := by
  have hset : (l.map toLex).toFinset = (l'.map toLex).toFinset := by
    ext e
    rw [List.mem_toFinset, List.mem_toFinset, List.mem_map, List.mem_map]
    simp only [h]
  rw [sortedPairs, sortedPairs, hset]

/-- **The projection reads the set of file edges.** -/
theorem projectEdges_congr {capabilities : List Capability}
    {fileEdges fileEdges' : List (String × String)} (h : ∀ e, e ∈ fileEdges ↔ e ∈ fileEdges') :
    projectEdges capabilities fileEdges = projectEdges capabilities fileEdges' := by
  rw [projectEdges, projectEdges, supporting, supporting, sortedPairs_congr h]

/-! ## 2.  Cascades -/

/-- The constants of `rules.py`. -/
structure Limits where
  maxDepth : ℕ
  maxPaths : ℕ
  sourceMinSecurity : ℚ

structure FamilyResult (R : Type) where
  collected : Measurement
  rows : List R := []
  truncated : Bool := false

def capped {R : Type} (rows : List R) (cap : ℕ) : FamilyResult R where
  collected := .measured
  rows := rows.take cap
  truncated := decide (cap < rows.length)

def uncollected {R : Type} (reason : String) : FamilyResult R where
  collected := .notCollected reason

def Cascade.impacted (c : Cascade) : String := c.path.getLastD ""

/-- `list(path)`, in a message. -/
def shown (path : List String) : String := "[" ++ joinWith ", " (path.map quoted) ++ "]"

/-- `Cascade(origin=..., path=...)`, with its validator. -/
def Cascade.of (origin : String) (path : List String) : Except String Cascade :=
  if origin = "" then .error "cascade origin cannot be empty"
  else if path.length < 2 then
    .error ("cascade path needs at least one hop, got " ++ shown path)
  else if path.head? ≠ some origin then
    .error ("cascade origin " ++ quoted origin ++ " does not match path start " ++
      quoted (path.headD ""))
  else if ¬path.Nodup then
    .error ("path " ++ shown path ++ " repeats a capability -- a cycle is not a cascade path")
  else .ok { origin, path }

def adjacency (edges : List CapabilityEdge) : List (String × List String) :=
  (gather CapabilityEdge.sourceBcId (fun targets e => targets ++ [e.targetBcId]) [] edges).map
    fun m => (m.1, sortedSet m.2)

/-- `adj.get(node, ())`. -/
def neighbors (adj : List (String × List String)) (node : String) : List String :=
  (Members.get? adj node).getD []

/-- `_shortest_paths`; the fuel is one for each node that can be met. -/
def shortestPaths (adj : List (String × List String)) (origin : String) (maxDepth : ℕ) :
    List (String × List String) :=
  (search (neighbors adj) maxDepth (origin :: adj.flatMap Prod.snd).length [] [[origin]]).getD []

/-- `r.security.value.state is CollectionState.MEASURED`. -/
def measuredSecurity (r : CapabilityRisk) : Bool := r.security.value.collected = .measured

def qualifies (limits : Limits) (r : CapabilityRisk) : Bool :=
  measuredSecurity r &&
    match r.security.value.value with
    | some value => decide (limits.sourceMinSecurity ≤ value)
    | none => false

def origins (limits : Limits) (risks : List CapabilityRisk) : List String :=
  sortedBy id ((risks.filter (qualifies limits)).map (·.bcId))

/-- `sorted(paths.items())`. -/
def reached (limits : Limits) (edges : List CapabilityEdge) (origin : String) :
    List (String × List String) :=
  sortedBy (fun m => toLex (m.1, m.2)) (shortestPaths (adjacency edges) origin limits.maxDepth)

/-- The rows before the cap. -/
def cascadeRows (limits : Limits) (risks : List CapabilityRisk) (edges : List CapabilityEdge) :
    Except String (List Cascade) := do
  let out ← ((origins limits risks).flatMap fun origin =>
    (reached limits edges origin).map fun m => (origin, m.2)).mapM fun r => Cascade.of r.1 r.2
  return sortedBy (fun c => toLex (c.origin, c.impacted)) out

def cascades (limits : Limits) (risks : List CapabilityRisk) (edges : List CapabilityEdge)
    (graph : Measurement) : Except String (FamilyResult Cascade) :=
  if graph ≠ .measured then
    .ok (uncollected ("cascades need the reference graph: " ++ graph.reason))
  else if origins limits risks = [] then
    if risks.any measuredSecurity then .ok { collected := .measured }
    else
      .ok (uncollected ("no capability has a MEASURED security composite, so cascade " ++
        "origins cannot be identified (FR-915)"))
  else do
    let rows ← cascadeRows limits risks edges
    return capped rows limits.maxPaths

/-! ## 3.  What is reached -/

def targets (edges : List CapabilityEdge) (source : String) : List String :=
  (edges.filter (·.sourceBcId = source)).map (·.targetBcId)

/-- The lexicographically least of the shortest paths from `origin` to `target`. -/
structure LeastShortest (edges : List CapabilityEdge) (origin target : String)
    (path : List String) : Prop where
  leads : PathTo (targets edges) origin target path
  shortest : ∀ other, PathTo (targets edges) origin target other → path.length ≤ other.length
  least : ∀ other, PathTo (targets edges) origin target other → other.length = path.length →
    path ≤ other

section Reached

variable {limits : Limits} {edges edges' : List CapabilityEdge} {origin target : String}
  {path : List String}

theorem neighbors_adjacency (edges : List CapabilityEdge) (node : String) :
    neighbors (adjacency edges) node = sortedSet (targets edges node) := by
  have hgathered : ∀ rows : List CapabilityEdge,
      rows.foldl (fun targets e => targets ++ [e.targetBcId]) [] = rows.map (·.targetBcId) := by
    intro rows
    induction rows using List.reverseRecOn with
    | nil => rfl
    | append_singleton rows e ih =>
      rw [List.foldl_append, ih, List.foldl_cons, List.foldl_nil, List.map_append]
      rfl
  have hempty : sortedSet [] = [] :=
    List.eq_nil_iff_forall_not_mem.mpr fun x hx => nomatch mem_sortedSet.mp hx
  have hdefault : ∀ kept : Option (List String),
      (kept.map sortedSet).getD [] = sortedSet (kept.getD []) := by
    intro kept
    cases kept with
    | none => exact hempty.symm
    | some kept => rfl
  rw [neighbors, adjacency, Members.get?_map, hdefault, getD_gather, hgathered, targets]

theorem mem_neighbors (edges : List CapabilityEdge) (node n : String) :
    n ∈ neighbors (adjacency edges) node ↔ n ∈ targets edges node := by
  rw [neighbors_adjacency, mem_sortedSet]

theorem pathTo_iff : PathTo (neighbors (adjacency edges)) origin target path ↔
    PathTo (targets edges) origin target path :=
  ⟨.mono fun t n => (mem_neighbors edges t n).mp, .mono fun t n => (mem_neighbors edges t n).mpr⟩

theorem leastShortest_iff : LeastShortest edges origin target path ↔
    Least (neighbors (adjacency edges)) origin target path := by
  rw [least_iff]
  simp only [pathTo_iff]
  exact ⟨fun h => ⟨h.leads, h.shortest, h.least⟩, fun h => ⟨h.1, h.2.1, h.2.2⟩⟩

theorem shortestPaths_spec (edges : List CapabilityEdge) (origin : String) (maxDepth : ℕ) :
    ((shortestPaths (adjacency edges) origin maxDepth).map Prod.fst).Nodup ∧
      (∀ target path,
        Members.get? (shortestPaths (adjacency edges) origin maxDepth) target = some path ↔
          target ≠ origin ∧ LeastShortest edges origin target path ∧ path.length ≤ maxDepth + 1) ∧
      ∀ target path, target ≠ origin → PathTo (targets edges) origin target path →
        path.length ≤ maxDepth + 1 → ∃ least,
          Members.get? (shortestPaths (adjacency edges) origin maxDepth) target = some least := by
  have hnodes : ∀ t, ∀ n ∈ neighbors (adjacency edges) t,
      n ∈ origin :: (adjacency edges).flatMap Prod.snd := by
    intro t n hn
    rw [neighbors] at hn
    cases hget : Members.get? (adjacency edges) t with
    | none =>
      rw [hget] at hn
      exact nomatch hn
    | some ids =>
      rw [hget] at hn
      exact List.mem_cons_of_mem _
        (List.mem_flatMap.mpr ⟨(t, ids), Members.mem_of_get?_eq_some hget, hn⟩)
  have hsorted : ∀ t, (neighbors (adjacency edges) t).Pairwise (· < ·) := by
    intro t
    rw [neighbors_adjacency]
    exact (lists_sortedSet _).1
  obtain ⟨best, hsearch, hspec⟩ : ∃ best, search (neighbors (adjacency edges)) maxDepth
      (origin :: (adjacency edges).flatMap Prod.snd).length [] [[origin]] = some best ∧ _ :=
    search_spec List.mem_cons_self hnodes hsorted (le_refl _)
  rw [shortestPaths, hsearch, Option.getD_some]
  simp only [leastShortest_iff, ← pathTo_iff]
  exact hspec

theorem nodup_shortestPaths (edges : List CapabilityEdge) (origin : String) (maxDepth : ℕ) :
    ((shortestPaths (adjacency edges) origin maxDepth).map fun m => toLex (m.1, m.2)).Nodup :=
  (List.Nodup.of_map _ (shortestPaths_spec edges origin maxDepth).1).map fun m m' h => by
    obtain ⟨hfst, hsnd⟩ := Prod.mk.inj (toLex.injective h)
    exact Prod.ext hfst hsnd

/-- **What is reached**, and by which path. -/
theorem mem_reached_iff : (target, path) ∈ reached limits edges origin ↔
    target ≠ origin ∧ LeastShortest edges origin target path ∧
      path.length ≤ limits.maxDepth + 1 := by
  obtain ⟨hnodup, hget, -⟩ := shortestPaths_spec edges origin limits.maxDepth
  rw [reached, mem_sortedBy, ← hget]
  exact ⟨Members.get?_eq_some_of_mem hnodup, Members.mem_of_get?_eq_some⟩

theorem exists_reached (horigin : target ≠ origin)
    (hpath : PathTo (targets edges) origin target path) (hlength : path.length ≤ limits.maxDepth + 1) :
    ∃ least, (target, least) ∈ reached limits edges origin := by
  obtain ⟨least, hget⟩ :=
    (shortestPaths_spec edges origin limits.maxDepth).2.2 target path horigin hpath hlength
  rw [reached]
  exact ⟨least, mem_sortedBy.mpr (Members.mem_of_get?_eq_some hget)⟩

def SameEdges (edges edges' : List CapabilityEdge) : Prop :=
  ∀ source target, target ∈ targets edges source ↔ target ∈ targets edges' source

theorem LeastShortest.congr (h : SameEdges edges edges')
    (hleast : LeastShortest edges origin target path) :
    LeastShortest edges' origin target path :=
  ⟨hleast.leads.mono fun t n => (h t n).mp,
    fun other hother => hleast.shortest other (hother.mono fun t n => (h t n).mpr),
    fun other hother => hleast.least other (hother.mono fun t n => (h t n).mpr)⟩

/-- **The order and repetition of the edges make no difference.** -/
theorem reached_congr (h : SameEdges edges edges') :
    reached limits edges = reached limits edges' := by
  funext origin
  refine sortedBy_congr (nodup_shortestPaths _ _ _) (nodup_shortestPaths _ _ _) ?_
  rintro ⟨target, path⟩
  have hmem : ∀ edges : List CapabilityEdge,
      (target, path) ∈ shortestPaths (adjacency edges) origin limits.maxDepth ↔
        (target, path) ∈ reached limits edges origin := fun edges => by rw [reached, mem_sortedBy]
  have hback : SameEdges edges' edges := fun source target => (h source target).symm
  rw [hmem, hmem, mem_reached_iff, mem_reached_iff]
  exact and_congr_right fun _ => and_congr_left fun _ => ⟨.congr h, .congr hback⟩

end Reached

/-! ## 4.  The rows -/

section Rows

variable {limits : Limits} {risks : List CapabilityRisk} {edges edges' : List CapabilityEdge}

/-- What the rows before the cap are. -/
structure ShortestRows (limits : Limits) (risks : List CapabilityRisk)
    (edges : List CapabilityEdge) (rows : List Cascade) : Prop where
  mem_iff : ∀ c, c ∈ rows ↔ c.origin ∈ origins limits risks ∧ c.impacted ≠ c.origin ∧
    LeastShortest edges c.origin c.impacted c.path ∧ c.path.length ≤ limits.maxDepth + 1
  one : ∀ origin ∈ origins limits risks, ∀ target, target ≠ origin →
    (∃ path, PathTo (targets edges) origin target path ∧ path.length ≤ limits.maxDepth + 1) →
      ∃! c, c ∈ rows ∧ c.origin = origin ∧ c.impacted = target
  nodup : (risks.map (·.bcId)).Nodup → rows.Nodup

theorem cascadeOf_reached {origin : String} {m : String × List String} (hne : origin ≠ "")
    (hm : m ∈ reached limits edges origin) : Cascade.of origin m.2 = .ok ⟨origin, m.2⟩ := by
  obtain ⟨horigin, hleast, -⟩ := mem_reached_iff.mp hm
  have hhead := hleast.leads.head?
  have hnodup := (leastShortest_iff.mp hleast).nodup
  have hlength := hleast.leads.two_le horigin
  rw [Cascade.of, if_neg hne, if_neg (not_lt.mpr hlength), if_neg (not_not.mpr hhead),
    if_neg (not_not.mpr hnodup)]

theorem cascade_of_eq_ok {origin : String} {path : List String} {c : Cascade}
    (h : Cascade.of origin path = .ok c) : c = ⟨origin, path⟩ := by
  rw [Cascade.of] at h
  split_ifs at h
  exact (Except.ok.inj h).symm

def reachedPairs (limits : Limits) (risks : List CapabilityRisk) (edges : List CapabilityEdge) :
    List (String × List String) :=
  (origins limits risks).flatMap fun origin =>
    (reached limits edges origin).map fun m => (origin, m.2)

theorem cascadeRows_eq_ok {rows : List Cascade} (h : cascadeRows limits risks edges = .ok rows) :
    rows = sortedBy (fun c => toLex (c.origin, c.impacted))
      ((reachedPairs limits risks edges).map fun r => ⟨r.1, r.2⟩) := by
  rw [cascadeRows, ← reachedPairs] at h
  obtain ⟨out, hout, hrows⟩ := bind_eq_ok.mp h
  have hall : List.Forall₂ Eq
      ((reachedPairs limits risks edges).map fun r => (⟨r.1, r.2⟩ : Cascade)) out :=
    List.forall₂_map_left_iff.mpr
      ((forall₂_of_mapM_eq_ok hout).imp fun r c hc => (cascade_of_eq_ok hc).symm)
  rw [List.forall₂_eq_eq_eq] at hall
  rw [hall]
  exact (Except.ok.inj hrows).symm

theorem exists_cascadeRows (h : "" ∉ origins limits risks) :
    ∃ rows, cascadeRows limits risks edges = .ok rows := by
  have hall : ∀ r ∈ reachedPairs limits risks edges,
      Cascade.of r.1 r.2 = .ok (⟨r.1, r.2⟩ : Cascade) := by
    intro r hr
    obtain ⟨origin, horigin, hr⟩ := List.mem_flatMap.mp hr
    obtain ⟨m, hm, rfl⟩ := List.mem_map.mp hr
    have hne : origin ≠ "" := fun hempty => h (hempty ▸ horigin)
    have hrow := cascadeOf_reached hne hm
    exact hrow
  rw [cascadeRows, ← reachedPairs, mapM_eq_ok_map hall]
  exact ⟨_, rfl⟩

theorem impacted_of_leadsTo {c : Cascade} {target : String}
    (h : PathTo (targets edges) c.origin target c.path) : c.impacted = target := by
  rw [Cascade.impacted, List.getLastD_eq_getLast?, h.getLast?, Option.getD_some]

theorem mem_reachedPairs {c : Cascade} :
    c ∈ (reachedPairs limits risks edges).map (fun r => (⟨r.1, r.2⟩ : Cascade)) ↔
      c.origin ∈ origins limits risks ∧ c.impacted ≠ c.origin ∧
        LeastShortest edges c.origin c.impacted c.path ∧
          c.path.length ≤ limits.maxDepth + 1 := by
  rw [List.mem_map]
  constructor
  · rintro ⟨r, hr, rfl⟩
    obtain ⟨origin, horigin, hr⟩ := List.mem_flatMap.mp hr
    obtain ⟨⟨target, path⟩, hm, rfl⟩ := List.mem_map.mp hr
    obtain ⟨hne, hleast, hlength⟩ := mem_reached_iff.mp hm
    have himpacted : (⟨origin, path⟩ : Cascade).impacted = target :=
      impacted_of_leadsTo hleast.leads
    dsimp only at himpacted ⊢
    rw [himpacted]
    exact ⟨horigin, hne, hleast, hlength⟩
  · rintro ⟨horigin, hreached⟩
    exact ⟨(c.origin, c.path), List.mem_flatMap.mpr ⟨c.origin, horigin,
      List.mem_map.mpr ⟨(c.impacted, c.path), mem_reached_iff.mpr hreached, rfl⟩⟩, rfl⟩

theorem nodup_reachedPairs (hnodup : (risks.map (·.bcId)).Nodup) :
    (reachedPairs limits risks edges).Nodup := by
  rw [reachedPairs, List.nodup_flatMap]
  constructor
  · intro origin horigin
    refine List.Nodup.map_on ?_ ?_
    · rintro ⟨target, path⟩ hm ⟨target', path'⟩ hm' heq
      obtain rfl : path = path' := congrArg Prod.snd heq
      have hleast := (mem_reached_iff.mp hm).2.1
      rw [hleast.leads.end_unique (mem_reached_iff.mp hm').2.1.leads]
    · exact (sortedBy_perm _ _).nodup_iff.mpr
        (List.Nodup.of_map _ (shortestPaths_spec edges origin limits.maxDepth).1)
  · have horigins : (origins limits risks).Nodup :=
      (sortedBy_perm _ _).nodup_iff.mpr (hnodup.sublist (List.filter_sublist.map _))
    refine horigins.imp fun hne => ?_
    rw [Function.onFun, List.disjoint_left]
    intro r hr hr'
    obtain ⟨m, -, rfl⟩ := List.mem_map.mp hr
    obtain ⟨m', -, heq⟩ := List.mem_map.mp hr'
    exact hne (congrArg Prod.fst heq).symm

/-- **The rows are the shortest paths.** -/
theorem shortestRows_of_eq_ok {rows : List Cascade}
    (h : cascadeRows limits risks edges = .ok rows) : ShortestRows limits risks edges rows := by
  have hmem : ∀ c, c ∈ rows ↔ c.origin ∈ origins limits risks ∧ c.impacted ≠ c.origin ∧
      LeastShortest edges c.origin c.impacted c.path ∧
        c.path.length ≤ limits.maxDepth + 1 := by
    intro c
    rw [cascadeRows_eq_ok h, mem_sortedBy, mem_reachedPairs]
  refine ⟨hmem, fun origin horigin target hne hpath => ?_, fun hnodup => ?_⟩
  · obtain ⟨path, hpath, hlength⟩ := hpath
    obtain ⟨least, hreached⟩ := exists_reached hne hpath hlength
    obtain ⟨-, hleast, hle⟩ := mem_reached_iff.mp hreached
    have himpacted : (⟨origin, least⟩ : Cascade).impacted = target :=
      impacted_of_leadsTo hleast.leads
    refine ⟨⟨origin, least⟩, ⟨(hmem _).mpr ⟨horigin, himpacted ▸ hne, himpacted ▸ hleast, hle⟩, rfl,
      himpacted⟩, ?_⟩
    rintro ⟨origin', path'⟩ ⟨hc, rfl, rfl⟩
    have hleast' := ((hmem _).mp hc).2.2.1
    exact congrArg (Cascade.mk origin')
      ((leastShortest_iff.mp hleast').unique (leastShortest_iff.mp hleast))
  · rw [cascadeRows_eq_ok h]
    refine (sortedBy_perm _ _).nodup_iff.mpr (List.Nodup.map ?_ ?_)
    · intro r r' heq
      obtain ⟨hfst, hsnd⟩ := Cascade.mk.inj heq
      exact Prod.ext hfst hsnd
    · exact nodup_reachedPairs hnodup

end Rows

theorem cascades_eq_ok {limits : Limits} {risks : List CapabilityRisk}
    {edges : List CapabilityEdge} {rows : List Cascade}
    (h : cascadeRows limits risks edges = .ok rows) :
    ∃ result, cascades limits risks edges .measured = .ok result ∧
      result.rows = rows.take limits.maxPaths ∧ (result.truncated = true ↔ result.rows ≠ rows) := by
  rw [cascades, if_neg (not_not.mpr rfl)]
  by_cases hnone : origins limits risks = []
  · have hrows : rows = [] := by
      rw [cascadeRows_eq_ok h, reachedPairs, hnone]
      rfl
    rw [if_pos hnone, hrows, List.take_nil]
    split_ifs
    · exact ⟨_, rfl, rfl, by simp⟩
    · exact ⟨_, rfl, rfl, by simp [uncollected]⟩
  · rw [if_neg hnone, h]
    refine ⟨capped rows limits.maxPaths, rfl, rfl, ?_⟩
    rw [capped, decide_eq_true_eq, ne_eq, List.take_eq_self_iff, not_le]

/-- **Cascades are exactly the shortest paths**, and the order of the edges makes no difference. -/
theorem cascades_shortest (limits : Limits) (risks : List CapabilityRisk)
    (edges : List CapabilityEdge) :
    ("" ∉ origins limits risks → ∃ rows, cascadeRows limits risks edges = .ok rows) ∧
    (∀ rows, cascadeRows limits risks edges = .ok rows → ShortestRows limits risks edges rows ∧
      ∃ result, cascades limits risks edges .measured = .ok result ∧
        result.rows = rows.take limits.maxPaths ∧
        (result.truncated = true ↔ result.rows ≠ rows)) ∧
    (∀ edges', SameEdges edges edges' → ∀ graph,
      cascades limits risks edges graph = cascades limits risks edges' graph) ∧
    ∀ capabilities fileEdges fileEdges', (∀ e, e ∈ fileEdges ↔ e ∈ fileEdges') →
      projectEdges capabilities fileEdges = projectEdges capabilities fileEdges' := by
  refine ⟨exists_cascadeRows, fun rows hrows => ⟨shortestRows_of_eq_ok hrows, ?_⟩,
    fun edges' hsame graph => ?_, fun capabilities fileEdges fileEdges' => projectEdges_congr⟩
  · exact cascades_eq_ok hrows
  · rw [cascades, cascades, cascadeRows, cascadeRows, reached_congr hsame]

end Kroker.Risk
