import Kroker.Graph.ForwardReach

/-!
# What a clean report says about the graph

`validate` reports nothing exactly when every check came out empty.  This file reads the checks back
one by one (`PipelineGraph.Clean`): ids and edges are unique, every reference resolves, every
in-port and out-port obeys the wiring rules, and the forward skeleton is a connected acyclic graph
that each bounded edge closes a cycle of.
-/

namespace Kroker

/-- The graph passes every check that the wiring of a topology depends on. -/
structure PipelineGraph.Clean (graph : PipelineGraph) (registry : Registry) : Prop where
  ids_nodup : (graph.nodes.map GraphNode.id).Nodup
  keys_nodup : (graph.edges.map edgeKey).Nodup
  typed : ∀ (n : String) (node : GraphNode), (firstNodes graph)[n]? = some node →
    node.type ∈ registry
  reference : ∀ e ∈ graph.edges, edgeReferenceProblems (firstNodes graph) registry e = []
  inPort : ∀ n (spec : NodeTypeSpec) p, specOf (firstNodes graph) registry n = some spec →
    p ∈ spec.ports → p.direction = .input → inPortProblems graph n p = []
  outPort : ∀ e ∈ graph.edges,
    outPortProblems graph (firstNodes graph) registry (e.source, e.sourcePort) = []
  topology : topologyProblems graph (firstNodes graph).keys = []

/-! ## 1. Uniqueness -/

theorem nodup_of_duplicate_free {α β : Type} [DecidableEq α] (l : List α) (f : α → Option β)
    (hf : ∀ a, 1 < l.count a → f a ≠ none) (h : l.dedup.filterMap f = []) : l.Nodup := by
  rw [List.nodup_iff_count_le_one]
  intro a
  by_contra hlt
  have hmem : a ∈ l := List.count_pos_iff.mp (by omega)
  exact hf a (by omega) (List.filterMap_eq_nil_iff.mp h a (List.mem_dedup.mpr hmem))

theorem nodup_of_identityProblems {graph : PipelineGraph} (h : identityProblems graph = []) :
    (graph.nodes.map GraphNode.id).Nodup ∧ (graph.edges.map edgeKey).Nodup := by
  obtain ⟨hnodes, hedges⟩ := List.append_eq_nil_iff.mp h
  refine ⟨nodup_of_duplicate_free _ _ (fun a ha => ?_) hnodes,
    nodup_of_duplicate_free _ _ (fun a ha => ?_) hedges⟩
  · rw [duplicateNodeProblem]
    simp [ha]
  · rw [duplicateEdgeProblem]
    simp [ha]

/-! ## 2. Reading the report -/

theorem wiring_clean {graph : PipelineGraph} {registry : Registry}
    (h : wiringProblems graph (firstNodes graph) registry = []) :
    (∀ n (spec : NodeTypeSpec) p, specOf (firstNodes graph) registry n = some spec →
      p ∈ spec.ports → p.direction = .input → inPortProblems graph n p = []) ∧
    ∀ e ∈ graph.edges,
      outPortProblems graph (firstNodes graph) registry (e.source, e.sourcePort) = [] := by
  obtain ⟨hin, hout⟩ := List.append_eq_nil_iff.mp h
  constructor
  · intro n spec p hspec hp hdir
    obtain ⟨node, hnode, htype⟩ := Option.bind_eq_some_iff.mp hspec
    have hmem : (n, node) ∈ (firstNodes graph).toList :=
      Std.ExtTreeMap.mem_toList_iff_getElem?_eq_some.mpr hnode
    have hnil := List.flatMap_eq_nil_iff.mp hin _ hmem
    dsimp only at hnil
    rw [htype] at hnil
    exact List.flatMap_eq_nil_iff.mp hnil p (List.mem_filter.mpr ⟨hp, by simp [hdir]⟩)
  · intro e he
    refine List.flatMap_eq_nil_iff.mp hout _ (List.mem_dedup.mpr ?_)
    exact List.mem_map_of_mem (f := fun e : GraphEdge => (e.source, e.sourcePort)) he

variable {proposer_model_error : String → String → Option String}

/-- **A clean report means that every check passed.** -/
theorem clean_of_validate {graph : PipelineGraph} {registry : Registry} {roles : Dict RoleConfig}
    (h : (validate proposer_model_error graph registry roles).problems = []) :
    graph.Clean registry := by
  have hall : allProblems proposer_model_error graph registry roles = [] := by
    unfold validate at h
    dsimp only at h
    split at h
    · next hne => exact absurd h hne
    · next hnil =>
      have hperm := List.perm_insertionSort (fun p q : Problem => p.sortKey ≤ q.sortKey)
        (allProblems proposer_model_error graph registry roles)
      rw [not_not.mp hnil] at hperm
      exact hperm.symm.eq_nil
  unfold allProblems at hall
  dsimp only at hall
  -- without problems nothing suppresses the topology checks
  split at hall
  · next hsuppressed =>
    rw [hall] at hsuppressed
    exact absurd hsuppressed (by simp)
  · obtain ⟨hfirst, htopology⟩ := List.append_eq_nil_iff.mp hall
    obtain ⟨hfirst, hwiring⟩ := List.append_eq_nil_iff.mp hfirst
    obtain ⟨hfirst, -⟩ := List.append_eq_nil_iff.mp hfirst
    obtain ⟨hidentity, hreference⟩ := List.append_eq_nil_iff.mp hfirst
    obtain ⟨hids, hkeys⟩ := nodup_of_identityProblems hidentity
    obtain ⟨htypes, hedges⟩ := List.append_eq_nil_iff.mp hreference
    obtain ⟨hin, hout⟩ := wiring_clean hwiring
    refine ⟨hids, hkeys, ?_, List.flatMap_eq_nil_iff.mp hedges, hin, hout, htopology⟩
    intro n node hnode
    have hmem : (n, node) ∈ (firstNodes graph).toList :=
      Std.ExtTreeMap.mem_toList_iff_getElem?_eq_some.mpr hnode
    have hnil := List.flatMap_eq_nil_iff.mp htypes _ hmem
    unfold unknownTypeProblem at hnil
    split at hnil
    · next hin => exact hin
    · exact absurd hnil (List.cons_ne_nil _ _)

theorem validate_of_allProblems {graph : PipelineGraph} {registry : Registry}
    {roles : Dict RoleConfig} (h : allProblems proposer_model_error graph registry roles = []) :
    validate proposer_model_error graph registry roles =
      { problems := [], topology := some (buildTopology graph (firstNodes graph) registry) } := by
  unfold validate
  rw [h]
  rfl

theorem built_of_validate {graph : PipelineGraph} {registry : Registry} {roles : Dict RoleConfig}
    {t : Topology} (h : (validate proposer_model_error graph registry roles).topology = some t) :
    (validate proposer_model_error graph registry roles).problems = [] ∧
      t = buildTopology graph (firstNodes graph) registry := by
  unfold validate at h ⊢
  dsimp only at h ⊢
  split at h
  · exact absurd h.symm (Option.some_ne_none t)
  · next hnil =>
    rw [if_neg hnil]
    exact ⟨rfl, (Option.some.inj h).symm⟩

/-! ## 3. Nodes -/

theorem firstNodes_fold (nodes : List GraphNode) (first : Dict GraphNode) (n : String) :
    (nodes.foldl (fun first n => if n.id ∈ first then first else first.insert n.id n) first)[n]? =
      first[n]?.or (nodes.find? fun node => node.id = n) := by
  induction nodes generalizing first with
  | nil => simp
  | cons node nodes ih =>
    rw [List.foldl_cons, ih, List.find?_cons]
    by_cases hn : node.id = n
    · simp only [hn, decide_true]
      by_cases hmem : n ∈ first
      · obtain ⟨v, hv⟩ := (Dict.mem_iff_get? first n).mp hmem
        rw [if_pos hmem, hv, Option.some_or, Option.some_or]
      · rw [if_neg hmem, Dict.get?_insert, if_pos rfl, (Dict.notMem_iff_get? first n).mp hmem,
          Option.some_or, Option.none_or]
    · simp only [hn, decide_false]
      split
      · rfl
      · rw [Dict.get?_insert_of_ne _ _ hn]

theorem get?_firstNodes (graph : PipelineGraph) (n : String) :
    (firstNodes graph)[n]? = graph.nodes.find? fun node => node.id = n := by
  rw [firstNodes, firstNodes_fold, Dict.get?_empty, Option.none_or]

theorem id_of_firstNodes {graph : PipelineGraph} {n : String} {node : GraphNode}
    (h : (firstNodes graph)[n]? = some node) : node ∈ graph.nodes ∧ node.id = n := by
  rw [get?_firstNodes] at h
  refine ⟨List.mem_of_find?_eq_some h, ?_⟩
  simpa using List.find?_some h

theorem isId_of_mem_firstNodes {graph : PipelineGraph} {n : String}
    (h : n ∈ firstNodes graph) : isId n = true := by
  obtain ⟨node, hnode⟩ := (Dict.mem_iff_get? _ _).mp h
  rw [← (id_of_firstNodes hnode).2]
  exact node.id_shape

/-! ## 4. Edges -/

namespace PipelineGraph.Clean

variable {graph : PipelineGraph} {registry : Registry}

section

variable (h : graph.Clean registry)

include h

theorem specOf_isSome {n : String} (hn : n ∈ firstNodes graph) :
    ∃ spec, specOf (firstNodes graph) registry n = some spec := by
  obtain ⟨node, hnode⟩ := (Dict.mem_iff_get? _ _).mp hn
  obtain ⟨spec, hspec⟩ := (Dict.mem_iff_get? _ _).mp (h.typed n node hnode)
  exact ⟨spec, by rw [specOf, hnode, Option.bind_some, hspec]⟩

theorem resolves {e : GraphEdge} (he : e ∈ graph.edges) :
    (e.source ∈ firstNodes graph ∧ e.target ∈ firstNodes graph) ∧
      (∃ spec p, specOf (firstNodes graph) registry e.source = some spec ∧
        findPort spec e.sourcePort .output = some p) ∧
      ∃ spec p, specOf (firstNodes graph) registry e.target = some spec ∧
        findPort spec e.targetPort .input = some p := by
  have hnil := h.reference e he
  unfold edgeReferenceProblems at hnil
  simp only [List.append_eq_nil_iff] at hnil
  obtain ⟨⟨⟨⟨hsource, htarget⟩, hout⟩, hin⟩, -⟩ := hnil
  have hmem : ∀ {role endpoint}, danglingProblem (firstNodes graph) e role endpoint = [] →
      endpoint ∈ firstNodes graph := by
    intro role endpoint hd
    unfold danglingProblem at hd
    split at hd
    · next hin => exact hin
    · exact absurd hd (List.cons_ne_nil _ _)
  have hport : ∀ {spec found node port word},
      unknownPortProblem e (some spec) found node port word = [] → ∃ p, found = some p := by
    intro spec found node port word hu
    cases found with
    | none => exact absurd hu (List.cons_ne_nil _ _)
    | some p => exact ⟨p, rfl⟩
  obtain ⟨outSpec, houtSpec⟩ := h.specOf_isSome (hmem hsource)
  obtain ⟨inSpec, hinSpec⟩ := h.specOf_isSome (hmem htarget)
  rw [houtSpec] at hout
  rw [hinSpec] at hin
  obtain ⟨op, hop⟩ := hport hout
  obtain ⟨ip, hip⟩ := hport hin
  exact ⟨⟨hmem hsource, hmem htarget⟩, ⟨outSpec, op, houtSpec, hop⟩, inSpec, ip, hinSpec, hip⟩

theorem not_duplicated (key : EdgeKey) :
    duplicated graph key = false := by
  have := List.nodup_iff_count_le_one.mp h.keys_nodup key
  rw [duplicated]
  simpa using this

theorem edges_nodup : graph.edges.Nodup :=
  List.Nodup.of_map edgeKey h.keys_nodup

theorem edgeIds_nodup : (graph.edges.map edgeId).Nodup := by
  have hinj : ∀ e ∈ graph.edges, ∀ e' ∈ graph.edges, edgeId e = edgeId e' → e = e' := by
    intro e he e' he' heq
    exact List.inj_on_of_nodup_map h.keys_nodup he he' (edgeId_injective heq)
  exact List.Nodup.map_on hinj h.edges_nodup

theorem get?_edgesById (eid : String) (e : GraphEdge) :
    (edgesById graph)[eid]? = some e ↔ e ∈ graph.edges ∧ eid = edgeId e := by
  have hfst : ((graph.edges.map fun e => (edgeId e, e)).map Prod.fst).Nodup := by
    rw [List.map_map]
    exact h.edgeIds_nodup
  rw [edgesById, Dict.get?_ofItems_of_nodup hfst, List.mem_map]
  constructor
  · rintro ⟨e', he', heq⟩
    obtain ⟨h1, h2⟩ := Prod.mk.inj heq
    exact ⟨h2 ▸ he', h2 ▸ h1.symm⟩
  · rintro ⟨he, rfl⟩
    exact ⟨e, he, rfl⟩

end

end PipelineGraph.Clean

end Kroker
