import Kroker.Graph.Clean

/-!
# Legal topologies

`Topology.Legal` says what the router relies on, in terms of the topology alone: ports list exactly
the edges that leave or enter them, a loop edge has its out-port to itself and shares no in-port
with a forward edge, a port that takes one token is fed by one node, the forward skeleton is
acyclic, and each loop edge leads from the region of its target back to it.  `legal_of_validate`
derives it from a clean report; everything proved about the router starts from it.
-/

namespace Kroker

namespace Topology

def IsForward (t : Topology) (eid : String) (k : EdgeKey) : Prop :=
  t.edges[eid]? = some k ∧ eid ∉ t.bounds

def IsBack (t : Topology) (eid : String) (k : EdgeKey) : Prop :=
  t.edges[eid]? = some k ∧ eid ∈ t.bounds

/-- A forward edge joins the two nodes. -/
def Forward (t : Topology) (a b : String) : Prop :=
  ∃ eid k, t.IsForward eid k ∧ k.source = a ∧ k.target = b

/-- `x` is in `REGION(v)`: reachable from `v` along forward edges. -/
def InRegion (t : Topology) (v x : String) : Prop := Relation.ReflTransGen t.Forward v x

structure OutPortLegal (t : Topology) (n p : String) (eids : List String) : Prop where
  mem_iff : ∀ eid : String,
    eid ∈ eids ↔ ∃ k : EdgeKey, t.edges[eid]? = some k ∧ k.source = n ∧ k.sourcePort = p
  nodup : eids.Nodup
  back_exclusive : ∀ eid ∈ eids, eid ∈ t.bounds → eids = [eid]

/-- An in-port lists the edges that enter it, forward edges or loop edges but never both; a port
that takes one token is fed by one node, and a required port is fed by a forward edge. -/
structure InPortLegal (t : Topology) (n p : String) (w : PortWiring) : Prop where
  mem_forwardEdges : ∀ eid : String,
    eid ∈ w.forwardEdges ↔ ∃ k : EdgeKey, t.IsForward eid k ∧ k.target = n ∧ k.targetPort = p
  mem_backEdges : ∀ eid : String,
    eid ∈ w.backEdges ↔ ∃ k : EdgeKey, t.IsBack eid k ∧ k.target = n ∧ k.targetPort = p
  nodup_forwardEdges : w.forwardEdges.Nodup
  nodup_backEdges : w.backEdges.Nodup
  not_mixed : w.forwardEdges = [] ∨ w.backEdges = []
  many_no_back : w.multiplicity = .many → w.backEdges = []
  one_source : w.multiplicity = .one → ∀ (e e' : String) (k k' : EdgeKey), e ∈ w.forwardEdges →
    e' ∈ w.forwardEdges → t.edges[e]? = some k → t.edges[e']? = some k' → k.source = k'.source
  required_fed : w.required = true → w.forwardEdges ≠ []

/-- **What the router relies on.** -/
structure Legal (t : Topology) : Prop where
  nodup_nodeIds : t.nodeIds.Nodup
  isId_of_mem : ∀ n ∈ t.nodeIds, isId n = true
  edge_id : ∀ (eid : String) (k : EdgeKey), t.edges[eid]? = some k → eid = k.text
  source_mem : ∀ (eid : String) (k : EdgeKey), t.edges[eid]? = some k → k.source ∈ t.nodeIds
  target_mem : ∀ (eid : String) (k : EdgeKey), t.edges[eid]? = some k → k.target ∈ t.nodeIds
  edge_of_bound : ∀ eid ∈ t.bounds, ∃ k : EdgeKey, t.edges[eid]? = some k
  outPort_of_edge : ∀ (eid : String) (k : EdgeKey), t.edges[eid]? = some k →
    ∃ eids : List String, (t.outPortsOf k.source)[k.sourcePort]? = some eids
  outPort : ∀ (n p : String) (eids : List String), (t.outPortsOf n)[p]? = some eids →
    t.OutPortLegal n p eids
  inPort_of_edge : ∀ (eid : String) (k : EdgeKey), t.edges[eid]? = some k →
    ∃ w : PortWiring, (t.inPortsOf k.target)[k.targetPort]? = some w
  inPort : ∀ (n p : String) (w : PortWiring), (t.inPortsOf n)[p]? = some w →
    t.InPortLegal n p w
  mem_region : ∀ (eid : String) (k : EdgeKey), t.IsBack eid k →
    ∀ x, x ∈ t.region k.target ↔ t.InRegion k.target x
  closes_cycle : ∀ (eid : String) (k : EdgeKey), t.IsBack eid k → t.InRegion k.target k.source
  acyclic : WellFounded t.Forward

theorem endpoints_of_get? {t : Topology} {eid : String} {k : EdgeKey}
    (h : t.edges[eid]? = some k) : t.endpoints eid = k := by
  rw [endpoints, Dict.getD_eq, h, Option.getD_some]

theorem isForward_or_isBack {t : Topology} {eid : String} {k : EdgeKey}
    (h : t.edges[eid]? = some k) : t.IsForward eid k ∨ t.IsBack eid k := by
  by_cases hb : eid ∈ t.bounds
  · exact Or.inr ⟨h, hb⟩
  · exact Or.inl ⟨h, hb⟩

theorem InRegion.forward {t : Topology} {v a b : String} (h : t.InRegion v a)
    (hab : t.Forward a b) : t.InRegion v b :=
  Relation.ReflTransGen.tail h hab

end Topology

/-! ## 1. The wiring of a clean graph -/

section Build

variable {graph : PipelineGraph} {registry : Registry}

theorem isBackEdge_iff (e : GraphEdge) : isBackEdge e = true ↔ ∃ b, e.maxTraversals = some b := by
  rw [isBackEdge, Option.isSome_iff_exists]

/-- The specs of the nodes, as `_build_topology` collects them. -/
def nodeSpecs (graph : PipelineGraph) (registry : Registry) : Dict NodeTypeSpec :=
  (firstNodes graph).filterMap fun _ n => registry[n.type]?

theorem get?_nodeSpecs (graph : PipelineGraph) (registry : Registry) (n : String) :
    (nodeSpecs graph registry)[n]? = specOf (firstNodes graph) registry n := by
  rw [nodeSpecs, Std.ExtTreeMap.getElem?_filterMap', specOf]

theorem get?_edges (h : graph.Clean registry) (eid : String) (k : EdgeKey) :
    (buildTopology graph (firstNodes graph) registry).edges[eid]? = some k ↔
      ∃ e ∈ graph.edges, eid = edgeId e ∧ k = edgeKey e := by
  show ((edgesById graph).map fun _ e => edgeKey e)[eid]? = some k ↔ _
  rw [Std.ExtTreeMap.getElem?_map, Option.map_eq_some_iff]
  constructor
  · rintro ⟨e, he, rfl⟩
    obtain ⟨hmem, heid⟩ := (h.get?_edgesById eid e).mp he
    exact ⟨e, hmem, heid, rfl⟩
  · rintro ⟨e, he, heid, rfl⟩
    exact ⟨e, (h.get?_edgesById eid e).mpr ⟨he, heid⟩, rfl⟩

theorem get?_bounds (h : graph.Clean registry) (eid : String) (b : ℕ) :
    (buildTopology graph (firstNodes graph) registry).bounds[eid]? = some b ↔
      ∃ e ∈ graph.edges, eid = edgeId e ∧ e.maxTraversals = some b := by
  show ((edgesById graph).filterMap fun _ e => e.maxTraversals)[eid]? = some b ↔ _
  rw [Std.ExtTreeMap.getElem?_filterMap', Option.bind_eq_some_iff]
  constructor
  · rintro ⟨e, he, hb⟩
    obtain ⟨hmem, heid⟩ := (h.get?_edgesById eid e).mp he
    exact ⟨e, hmem, heid, hb⟩
  · rintro ⟨e, he, heid, hb⟩
    exact ⟨e, (h.get?_edgesById eid e).mpr ⟨he, heid⟩, hb⟩

theorem mem_bounds (h : graph.Clean registry) {e : GraphEdge} (he : e ∈ graph.edges) :
    edgeId e ∈ (buildTopology graph (firstNodes graph) registry).bounds ↔ isBackEdge e = true := by
  rw [Dict.mem_iff_get?, isBackEdge_iff]
  refine exists_congr fun b => ?_
  rw [get?_bounds h]
  constructor
  · rintro ⟨e', he', heid, hb⟩
    have : e = e' := List.inj_on_of_nodup_map h.edgeIds_nodup he he' heid
    rw [this]
    exact hb
  · intro hb
    exact ⟨e, he, rfl, hb⟩

theorem isForward_iff (h : graph.Clean registry) (eid : String) (k : EdgeKey) :
    (buildTopology graph (firstNodes graph) registry).IsForward eid k ↔
      ∃ e ∈ graph.edges, eid = edgeId e ∧ k = edgeKey e ∧ isBackEdge e = false := by
  rw [Topology.IsForward, get?_edges h]
  constructor
  · rintro ⟨⟨e, he, rfl, rfl⟩, hb⟩
    rw [mem_bounds h he, Bool.not_eq_true] at hb
    exact ⟨e, he, rfl, rfl, hb⟩
  · rintro ⟨e, he, rfl, rfl, hb⟩
    refine ⟨⟨e, he, rfl, rfl⟩, ?_⟩
    rw [mem_bounds h he, hb]
    exact Bool.false_ne_true

theorem isBack_iff (h : graph.Clean registry) (eid : String) (k : EdgeKey) :
    (buildTopology graph (firstNodes graph) registry).IsBack eid k ↔
      ∃ e ∈ graph.edges, eid = edgeId e ∧ k = edgeKey e ∧ isBackEdge e = true := by
  rw [Topology.IsBack, get?_edges h]
  constructor
  · rintro ⟨⟨e, he, rfl, rfl⟩, hb⟩
    exact ⟨e, he, rfl, rfl, (mem_bounds h he).mp hb⟩
  · rintro ⟨e, he, rfl, rfl, hb⟩
    exact ⟨⟨e, he, rfl, rfl⟩, (mem_bounds h he).mpr hb⟩

theorem getD_nodeSpecs_map {α : Type} (wiring : String → NodeTypeSpec → Dict α) (n : String) :
    ((nodeSpecs graph registry).map wiring).getD n ∅ =
      match specOf (firstNodes graph) registry n with
      | none => ∅
      | some spec => wiring n spec := by
  rw [Dict.getD_eq, Std.ExtTreeMap.getElem?_map, get?_nodeSpecs]
  cases specOf (firstNodes graph) registry n <;> rfl

theorem outPortsOf_build (graph : PipelineGraph) (registry : Registry) (n : String) :
    (buildTopology graph (firstNodes graph) registry).outPortsOf n =
      match specOf (firstNodes graph) registry n with
      | none => ∅
      | some spec => outWiring (edgesById graph) n spec :=
  getD_nodeSpecs_map _ n

theorem inPortsOf_build (graph : PipelineGraph) (registry : Registry) (n : String) :
    (buildTopology graph (firstNodes graph) registry).inPortsOf n =
      match specOf (firstNodes graph) registry n with
      | none => ∅
      | some spec => inWiring (edgesById graph) n spec :=
  getD_nodeSpecs_map _ n

theorem outPort_build {n p : String} {eids : List String}
    (h : ((buildTopology graph (firstNodes graph) registry).outPortsOf n)[p]? = some eids) :
    ∃ spec port, specOf (firstNodes graph) registry n = some spec ∧ port ∈ spec.ports ∧
      port.direction = .output ∧ port.name = p ∧
      eids = ((edgesById graph).filter fun _ e => e.source = n && e.sourcePort = p).keys := by
  rw [outPortsOf_build] at h
  cases hspec : specOf (firstNodes graph) registry n with
  | none => rw [hspec] at h; exact absurd h (by simp)
  | some spec =>
    rw [hspec] at h
    obtain ⟨port, hport, heq⟩ := Dict.exists_of_get?_ofItems_map h
    obtain ⟨hmem, hdir⟩ := List.mem_filter.mp hport
    obtain ⟨hname, heids⟩ := Prod.mk.inj heq
    refine ⟨spec, port, rfl, hmem, by simpa using hdir, hname, ?_⟩
    rw [← heids, hname]

theorem inPort_build {n p : String} {w : PortWiring}
    (h : ((buildTopology graph (firstNodes graph) registry).inPortsOf n)[p]? = some w) :
    ∃ spec port, specOf (firstNodes graph) registry n = some spec ∧ port ∈ spec.ports ∧
      port.direction = .input ∧ port.name = p ∧ w = portWiring (edgesById graph) n port := by
  rw [inPortsOf_build] at h
  cases hspec : specOf (firstNodes graph) registry n with
  | none => rw [hspec] at h; exact absurd h (by simp)
  | some spec =>
    rw [hspec] at h
    obtain ⟨port, hport, heq⟩ := Dict.exists_of_get?_ofItems_map h
    obtain ⟨hmem, hdir⟩ := List.mem_filter.mp hport
    obtain ⟨hname, hw⟩ := Prod.mk.inj heq
    simp only [Bool.and_eq_true, decide_eq_true_eq] at hdir
    exact ⟨spec, port, rfl, hmem, hdir.1, hname, hw.symm⟩

theorem mem_keys_filter (h : graph.Clean registry) (f : GraphEdge → Bool) (eid : String) :
    eid ∈ ((edgesById graph).filter fun _ e => f e).keys ↔
      ∃ e ∈ graph.edges, eid = edgeId e ∧ f e = true := by
  rw [Std.ExtTreeMap.mem_keys, Dict.mem_iff_get?]
  constructor
  · rintro ⟨e, he⟩
    rw [Dict.get?_filter, Option.filter_eq_some_iff] at he
    obtain ⟨hmem, heid⟩ := (h.get?_edgesById eid e).mp he.1
    exact ⟨e, hmem, heid, he.2⟩
  · rintro ⟨e, he, heid, hf⟩
    refine ⟨e, ?_⟩
    rw [Dict.get?_filter, (h.get?_edgesById eid e).mpr ⟨he, heid⟩, Option.filter_some, hf]
    rfl

theorem filter_filter_keys (d : Dict GraphEdge) (f g : GraphEdge → Bool) :
    ((d.filter fun _ e => f e).filter fun _ e => g e) = d.filter fun _ e => f e && g e := by
  refine Dict.ext fun k => ?_
  rw [Dict.get?_filter, Dict.get?_filter, Dict.get?_filter]
  cases d[k]? with
  | none => rfl
  | some e =>
    rw [Option.filter_some, Option.filter_some]
    cases f e with
    | false => rfl
    | true => simp [Option.filter_some]

theorem mem_side_portWiring (h : graph.Clean registry) {n : String} {port : NodePort}
    (side : GraphEdge → Bool) (eid : String) :
    eid ∈ (((edgesById graph).filter fun _ e => e.target = n && e.targetPort = port.name).filter
        fun _ e => side e).keys ↔
      ∃ e ∈ graph.edges, eid = edgeId e ∧ e.target = n ∧ e.targetPort = port.name ∧
        side e = true := by
  rw [filter_filter_keys, mem_keys_filter h]
  refine exists_congr fun e => and_congr_right fun _ => and_congr_right fun _ => ?_
  simp only [Bool.and_eq_true, decide_eq_true_eq, and_assoc]

theorem mem_forwardEdges_portWiring (h : graph.Clean registry) (n : String) (port : NodePort)
    (eid : String) : eid ∈ (portWiring (edgesById graph) n port).forwardEdges ↔
      ∃ e ∈ graph.edges, eid = edgeId e ∧ e.target = n ∧ e.targetPort = port.name ∧
        isBackEdge e = false :=
  (mem_side_portWiring h (fun e => !isBackEdge e) eid).trans
    (by simp only [Bool.not_eq_true'])

theorem mem_backEdges_portWiring (h : graph.Clean registry) (n : String) (port : NodePort)
    (eid : String) : eid ∈ (portWiring (edgesById graph) n port).backEdges ↔
      ∃ e ∈ graph.edges, eid = edgeId e ∧ e.target = n ∧ e.targetPort = port.name ∧
        isBackEdge e = true :=
  mem_side_portWiring h isBackEdge eid

/-! ## 2. The wiring checks -/

def Enters (e : GraphEdge) (n port : String) : Prop := e.target = n ∧ e.targetPort = port

theorem mem_incomingEdges (graph : PipelineGraph) (n port : String) (e : GraphEdge) :
    e ∈ incomingEdges graph n port ↔ e ∈ graph.edges ∧ Enters e n port := by
  rw [incomingEdges, List.mem_filter, Bool.and_eq_true, decide_eq_true_eq, decide_eq_true_eq,
    Enters]

section

variable (h : graph.Clean registry)

include h

theorem inPort_clean {n : String} {port : NodePort}
    (hport : inPortProblems graph n port = []) :
    (port.required = true →
      ∃ e ∈ graph.edges, Enters e n port.name ∧ isBackEdge e = false) ∧
    (∀ e ∈ graph.edges, ∀ e' ∈ graph.edges, Enters e n port.name → Enters e' n port.name →
      isBackEdge e = false → isBackEdge e' = true → False) ∧
    (port.multiplicity = .many → ∀ e ∈ graph.edges, Enters e n port.name →
      isBackEdge e = false) ∧
    (port.multiplicity = .one → ∀ e ∈ graph.edges, ∀ e' ∈ graph.edges, Enters e n port.name →
      Enters e' n port.name → isBackEdge e = false → isBackEdge e' = false →
      e.source = e'.source) := by
  have hclassified : ((incomingEdges graph n port.name).filter fun e =>
      !duplicated graph (edgeKey e)) = incomingEdges graph n port.name := by
    rw [List.filter_eq_self]
    intro e _
    rw [h.not_duplicated]
    rfl
  unfold inPortProblems at hport
  dsimp only at hport
  rw [hclassified] at hport
  obtain ⟨hfirst, hmany⟩ := List.append_eq_nil_iff.mp hport
  obtain ⟨hrequired, hmixed⟩ := List.append_eq_nil_iff.mp hfirst
  have hforward : ∀ e, e ∈ (incomingEdges graph n port.name).filter (fun e => !isBackEdge e) ↔
      (e ∈ graph.edges ∧ Enters e n port.name) ∧ isBackEdge e = false := by
    intro e
    rw [List.mem_filter, mem_incomingEdges, Bool.not_eq_true']
  have hback : ∀ e, e ∈ (incomingEdges graph n port.name).filter isBackEdge ↔
      (e ∈ graph.edges ∧ Enters e n port.name) ∧ isBackEdge e = true := by
    intro e
    rw [List.mem_filter, mem_incomingEdges]
  refine ⟨fun hreq => ?_, fun e he e' he' hin hin' hf hb => ?_, fun hm e he hin => ?_,
    fun hone e he e' he' hin hin' hf hf' => ?_⟩
  · split at hrequired
    · exact absurd hrequired (List.cons_ne_nil _ _)
    · next hcond =>
      have hne : (incomingEdges graph n port.name).filter (fun e => !isBackEdge e) ≠ [] := by
        intro hnil
        exact hcond ⟨hreq, hnil, by simp⟩
      obtain ⟨e, he⟩ := List.exists_mem_of_ne_nil _ hne
      obtain ⟨⟨hmem, hin⟩, hf⟩ := (hforward e).mp he
      exact ⟨e, hmem, hin, hf⟩
  · split at hmixed
    · exact absurd hmixed (List.cons_ne_nil _ _)
    · next hcond =>
      exact hcond ⟨List.ne_nil_of_mem ((hforward e).mpr ⟨⟨he, hin⟩, hf⟩),
        List.ne_nil_of_mem ((hback e').mpr ⟨⟨he', hin'⟩, hb⟩)⟩
  · rw [if_pos hm, List.map_eq_nil_iff] at hmany
    by_contra hb
    have hmem := (hback e).mpr ⟨⟨he, hin⟩, Bool.not_eq_false _ ▸ hb⟩
    rw [hmany] at hmem
    exact List.not_mem_nil hmem
  · rw [if_neg (by rw [hone]; decide)] at hmany
    split at hmany
    · exact absurd hmany (List.cons_ne_nil _ _)
    · next hlen =>
      -- at most one distinct source is left
      have hs : ∀ e, e ∈ graph.edges ∧ Enters e n port.name → isBackEdge e = false →
          e.source ∈ (((incomingEdges graph n port.name).filter
            (fun e => !isBackEdge e)).map GraphEdge.source).dedup := fun e he hf =>
        List.mem_dedup.mpr (List.mem_map_of_mem ((hforward e).mpr ⟨he, hf⟩))
      obtain ⟨a, ha⟩ : ∃ a, (((incomingEdges graph n port.name).filter
          (fun e => !isBackEdge e)).map GraphEdge.source).dedup = [a] := by
        rw [← List.length_eq_one_iff]
        have := List.length_pos_of_mem (hs e ⟨he, hin⟩ hf)
        omega
      have h1 := hs e ⟨he, hin⟩ hf
      have h2 := hs e' ⟨he', hin'⟩ hf'
      rw [ha, List.mem_singleton] at h1 h2
      rw [h1, h2]

theorem outPort_clean {e e' : GraphEdge} (he : e ∈ graph.edges)
    (he' : e' ∈ graph.edges) (hb : isBackEdge e = true) (hs : e'.source = e.source)
    (hp : e'.sourcePort = e.sourcePort) : e' = e := by
  by_contra hne
  have hnil := h.outPort e he
  unfold outPortProblems at hnil
  dsimp only at hnil
  split at hnil
  · exact absurd hnil (List.cons_ne_nil _ _)
  · next hcond =>
    obtain ⟨-, ⟨spec, p, hspec, hfind⟩, -⟩ := h.resolves he
    have hres : resolvesOut (firstNodes graph) registry e.source e.sourcePort = true := by
      rw [resolvesOut, hspec, Option.bind_some, hfind, Option.isSome_some]
    have hmem : ∀ x ∈ graph.edges, x.source = e.source → x.sourcePort = e.sourcePort →
        x ∈ outPortEdges graph (firstNodes graph) registry e.source e.sourcePort := by
      intro x hx hxs hxp
      refine List.mem_filter.mpr ⟨hx, ?_⟩
      rw [h.not_duplicated, hxs, hxp, hres]
      simp
    refine hcond ⟨?_, List.any_eq_true.mpr ⟨e, hmem e he rfl rfl, hb⟩⟩
    by_contra hlen
    have h1 := hmem e he rfl rfl
    have h2 := hmem e' he' hs hp
    obtain ⟨a, ha⟩ : ∃ a, outPortEdges graph (firstNodes graph) registry e.source
        e.sourcePort = [a] := by
      rw [← List.length_eq_one_iff]
      have := List.length_pos_of_mem h1
      omega
    rw [ha, List.mem_singleton] at h1 h2
    exact hne (h2.trans h1.symm)

/-! ## 3. The forward skeleton -/

theorem forward_iff (a b : String) :
    (buildTopology graph (firstNodes graph) registry).Forward a b ↔
      Search.Edge (forwardAdjacency (firstNodes graph).keys graph.edges).succs a b := by
  rw [Search.Edge, mem_succs_forwardAdjacency, Topology.Forward, Joins]
  constructor
  · rintro ⟨eid, k, hk, rfl, rfl⟩
    obtain ⟨e, he, -, rfl, hf⟩ := (isForward_iff h eid k).mp hk
    obtain ⟨⟨hs, ht⟩, -, -⟩ := h.resolves he
    exact ⟨Std.ExtTreeMap.mem_keys.mpr hs, Std.ExtTreeMap.mem_keys.mpr ht, e, he, hf, rfl, rfl⟩
  · rintro ⟨-, -, e, he, hf, rfl, rfl⟩
    exact ⟨edgeId e, edgeKey e, (isForward_iff h _ _).mpr ⟨e, he, rfl, rfl, hf⟩, rfl, rfl⟩

theorem inRegion_iff (v x : String) :
    (buildTopology graph (firstNodes graph) registry).InRegion v x ↔
      x ∈ forwardReach (forwardAdjacency (firstNodes graph).keys graph.edges) v := by
  have heq : (buildTopology graph (firstNodes graph) registry).Forward =
      Search.Edge (forwardAdjacency (firstNodes graph).keys graph.edges).succs :=
    funext fun a => funext fun b => propext (forward_iff h a b)
  rw [mem_forwardReach, Search.Reach, Topology.InRegion, heq]

theorem topology_clean :
    WellFounded (buildTopology graph (firstNodes graph) registry).Forward ∧
      ∀ e ∈ graph.edges, isBackEdge e = true →
        e.source ∈ forwardReach (forwardAdjacency (firstNodes graph).keys graph.edges)
          e.target := by
  obtain ⟨hfirst, -⟩ := List.append_eq_nil_iff.mp h.topology
  obtain ⟨hcycles, hloops⟩ := List.append_eq_nil_iff.mp hfirst
  constructor
  · have hwf := acc_of_forwardCycles_eq_nil (List.map_eq_nil_iff.mp hcycles)
    refine Search.wellFounded_of_flip {n | n ∈ (firstNodes graph).keys}
      (List.finite_toSet _) (fun a b hab => ?_) ?_
    · have hedge := (forward_iff h a b).mp hab
      rw [Search.Edge, mem_succs_forwardAdjacency] at hedge
      exact ⟨hedge.1, hedge.2.1⟩
    · exact Subrelation.wf (fun {b a} hab => (forward_iff h a b).mp hab) hwf
  · intro e he hb
    have hnil := List.flatMap_eq_nil_iff.mp hloops e he
    unfold notALoopProblem at hnil
    split at hnil
    · exact absurd hnil (List.cons_ne_nil _ _)
    · next hcond =>
      by_contra hnot
      exact hcond ⟨hb, hnot⟩

theorem mem_region_build {e : GraphEdge} (he : e ∈ graph.edges)
    (hb : isBackEdge e = true) (x : String) :
    x ∈ (buildTopology graph (firstNodes graph) registry).region e.target ↔
      (buildTopology graph (firstNodes graph) registry).InRegion e.target x := by
  rw [inRegion_iff h]
  have htarget : e.target ∈
      ((edgesById graph).filter fun _ e => isBackEdge e).toList.map fun e => e.2.target := by
    refine List.mem_map.mpr ⟨(edgeId e, e), ?_, rfl⟩
    rw [Std.ExtTreeMap.mem_toList_iff_getElem?_eq_some, Dict.get?_filter,
      (h.get?_edgesById (edgeId e) e).mpr ⟨he, rfl⟩, Option.filter_some, if_pos hb]
  obtain ⟨l, hl⟩ := Dict.get?_ofItems_map_of_mem (f := fun v =>
    (v, forwardReach (forwardAdjacency (firstNodes graph).keys graph.edges) v)) htarget
  have hregion : (buildTopology graph (firstNodes graph) registry).region e.target = l := by
    rw [Topology.region, Dict.getD_eq, buildTopology]
    exact congrArg (fun o => Option.getD o []) hl
  obtain ⟨v, -, heq⟩ := Dict.exists_of_get?_ofItems_map hl
  obtain ⟨hv, hreach⟩ := Prod.mk.inj heq
  rw [hregion, ← hreach, hv]

/-! ## 4. The topology of a clean graph is legal -/

theorem outPortLegal_build {n p : String} {eids : List String}
    (hp : ((buildTopology graph (firstNodes graph) registry).outPortsOf n)[p]? = some eids) :
    (buildTopology graph (firstNodes graph) registry).OutPortLegal n p eids := by
  obtain ⟨spec, port, -, -, -, -, heids⟩ := outPort_build hp
  have hmem : ∀ eid, eid ∈ eids ↔
      ∃ e ∈ graph.edges, eid = edgeId e ∧ e.source = n ∧ e.sourcePort = p := by
    intro eid
    rw [heids, mem_keys_filter h]
    simp only [Bool.and_eq_true, decide_eq_true_eq]
  have hnodup : eids.Nodup := heids ▸ Std.ExtTreeMap.nodup_keys
  refine ⟨fun eid => ?_, hnodup, fun eid heid hb => ?_⟩
  · rw [hmem]
    constructor
    · rintro ⟨e, he, rfl, hs, hsp⟩
      exact ⟨edgeKey e, (get?_edges h _ _).mpr ⟨e, he, rfl, rfl⟩, hs, hsp⟩
    · rintro ⟨k, hk, hs, hsp⟩
      obtain ⟨e, he, rfl, rfl⟩ := (get?_edges h eid k).mp hk
      exact ⟨e, he, rfl, hs, hsp⟩
  · obtain ⟨e, he, rfl, hs, hsp⟩ := (hmem eid).mp heid
    have hback := (mem_bounds h he).mp hb
    refine (List.perm_singleton.mp ?_)
    rw [List.perm_ext_iff_of_nodup hnodup (List.nodup_singleton _)]
    intro x
    rw [List.mem_singleton]
    constructor
    · intro hx
      obtain ⟨e', he', rfl, hs', hsp'⟩ := (hmem x).mp hx
      rw [outPort_clean h he he' hback (hs'.trans hs.symm) (hsp'.trans hsp.symm)]
    · rintro rfl
      exact heid

theorem inPortLegal_build {n p : String} {w : PortWiring}
    (hp : ((buildTopology graph (firstNodes graph) registry).inPortsOf n)[p]? = some w) :
    (buildTopology graph (firstNodes graph) registry).InPortLegal n p w := by
  obtain ⟨spec, port, hspec, hport, hdir, rfl, rfl⟩ := inPort_build hp
  obtain ⟨hrequired, hmixed, hmany, hone⟩ := inPort_clean h (h.inPort n spec port hspec hport hdir)
  have hfwd := mem_forwardEdges_portWiring h n port
  have hback := mem_backEdges_portWiring h n port
  refine ⟨fun eid => ?_, fun eid => ?_, Std.ExtTreeMap.nodup_keys, Std.ExtTreeMap.nodup_keys, ?_,
    fun hm => ?_, fun ho e e' k k' he he' hk hk' => ?_, fun hreq => ?_⟩
  · rw [hfwd]
    constructor
    · rintro ⟨e, he, rfl, ht, htp, hf⟩
      exact ⟨edgeKey e, (isForward_iff h _ _).mpr ⟨e, he, rfl, rfl, hf⟩, ht, htp⟩
    · rintro ⟨k, hk, ht, htp⟩
      obtain ⟨e, he, rfl, rfl, hf⟩ := (isForward_iff h eid k).mp hk
      exact ⟨e, he, rfl, ht, htp, hf⟩
  · rw [hback]
    constructor
    · rintro ⟨e, he, rfl, ht, htp, hb⟩
      exact ⟨edgeKey e, (isBack_iff h _ _).mpr ⟨e, he, rfl, rfl, hb⟩, ht, htp⟩
    · rintro ⟨k, hk, ht, htp⟩
      obtain ⟨e, he, rfl, rfl, hb⟩ := (isBack_iff h eid k).mp hk
      exact ⟨e, he, rfl, ht, htp, hb⟩
  · by_contra hne
    rw [not_or] at hne
    obtain ⟨x, hx⟩ := List.exists_mem_of_ne_nil _ hne.1
    obtain ⟨y, hy⟩ := List.exists_mem_of_ne_nil _ hne.2
    obtain ⟨e, he, -, ht, htp, hf⟩ := (hfwd x).mp hx
    obtain ⟨e', he', -, ht', htp', hb⟩ := (hback y).mp hy
    exact hmixed e he e' he' ⟨ht, htp⟩ ⟨ht', htp'⟩ hf hb
  · refine List.eq_nil_iff_forall_not_mem.mpr fun x hx => ?_
    obtain ⟨e, he, -, ht, htp, hb⟩ := (hback x).mp hx
    rw [hmany hm e he ⟨ht, htp⟩] at hb
    cases hb
  · obtain ⟨g, hg, rfl, ht, htp, hf⟩ := (hfwd e).mp he
    obtain ⟨g', hg', rfl, ht', htp', hf'⟩ := (hfwd e').mp he'
    have hkg : k = edgeKey g := by
      have := (get?_edges h (edgeId g) (edgeKey g)).mpr ⟨g, hg, rfl, rfl⟩
      exact Option.some.inj (hk.symm.trans this)
    have hkg' : k' = edgeKey g' := by
      have := (get?_edges h (edgeId g') (edgeKey g')).mpr ⟨g', hg', rfl, rfl⟩
      exact Option.some.inj (hk'.symm.trans this)
    rw [hkg, hkg']
    exact hone ho g hg g' hg' ⟨ht, htp⟩ ⟨ht', htp'⟩ hf hf'
  · obtain ⟨e, he, ⟨ht, htp⟩, hf⟩ := hrequired hreq
    exact List.ne_nil_of_mem ((hfwd (edgeId e)).mpr ⟨e, he, rfl, ht, htp, hf⟩)

theorem outPort_of_edge_build {e : GraphEdge} (he : e ∈ graph.edges) :
    ∃ eids : List String, ((buildTopology graph (firstNodes graph) registry).outPortsOf
      e.source)[e.sourcePort]? = some eids := by
  obtain ⟨-, ⟨spec, p, hspec, hfind⟩, -⟩ := h.resolves he
  obtain ⟨hp, hname, hdir⟩ := mem_of_findPort hfind
  rw [outPortsOf_build, hspec]
  have := Dict.get?_ofItems_map_of_mem (f := fun p : NodePort => (p.name,
    ((edgesById graph).filter fun _ x => x.source = e.source && x.sourcePort = p.name).keys))
    (List.mem_filter.mpr ⟨hp, by simp [hdir]⟩ :
      p ∈ spec.ports.filter fun p => p.direction = .output)
  dsimp only at this
  rw [hname] at this
  exact this

theorem inPort_of_edge_build {e : GraphEdge} (he : e ∈ graph.edges) :
    ∃ w : PortWiring, ((buildTopology graph (firstNodes graph) registry).inPortsOf
      e.target)[e.targetPort]? = some w := by
  obtain ⟨-, -, spec, p, hspec, hfind⟩ := h.resolves he
  obtain ⟨hp, hname, hdir⟩ := mem_of_findPort hfind
  rw [inPortsOf_build, hspec]
  have hconnected : ((edgesById graph).filter fun _ x =>
      x.target = e.target && x.targetPort = p.name).isEmpty = false := by
    rw [Bool.eq_false_iff, Ne, Dict.isEmpty_iff]
    intro hnone
    have := hnone (edgeId e)
    rw [Dict.get?_filter, (h.get?_edgesById (edgeId e) e).mpr ⟨he, rfl⟩, Option.filter_some,
      hname] at this
    simp at this
  have := Dict.get?_ofItems_map_of_mem (f := fun p : NodePort =>
    (p.name, portWiring (edgesById graph) e.target p))
    (List.mem_filter.mpr ⟨hp, by rw [hdir, hconnected]; rfl⟩ : p ∈ spec.ports.filter fun p =>
      p.direction = .input && !((edgesById graph).filter fun _ x =>
        x.target = e.target && x.targetPort = p.name).isEmpty)
  dsimp only at this
  rw [hname] at this
  exact this

/-- **The topology of a clean graph is legal.** -/
theorem legal_buildTopology :
    (buildTopology graph (firstNodes graph) registry).Legal := by
  obtain ⟨hacyclic, hloops⟩ := topology_clean h
  have hnode : ∀ n, n ∈ (buildTopology graph (firstNodes graph) registry).nodeIds ↔
      n ∈ firstNodes graph := fun n => Std.ExtTreeMap.mem_keys
  refine ⟨Std.ExtTreeMap.nodup_keys, ?_, ?_, ?_, ?_, ?_, ?_, fun _ _ _ => outPortLegal_build h, ?_,
    fun _ _ _ => inPortLegal_build h, ?_, ?_, hacyclic⟩
  · exact fun n hn => isId_of_mem_firstNodes ((hnode n).mp hn)
  · intro eid k hk
    obtain ⟨e, -, rfl, rfl⟩ := (get?_edges h eid k).mp hk
    rfl
  · intro eid k hk
    obtain ⟨e, he, -, rfl⟩ := (get?_edges h eid k).mp hk
    exact (hnode _).mpr (h.resolves he).1.1
  · intro eid k hk
    obtain ⟨e, he, -, rfl⟩ := (get?_edges h eid k).mp hk
    exact (hnode _).mpr (h.resolves he).1.2
  · intro eid hb
    obtain ⟨b, hb⟩ := (Dict.mem_iff_get? _ _).mp hb
    obtain ⟨e, he, rfl, -⟩ := (get?_bounds h eid b).mp hb
    exact ⟨edgeKey e, (get?_edges h _ _).mpr ⟨e, he, rfl, rfl⟩⟩
  · intro eid k hk
    obtain ⟨e, he, -, rfl⟩ := (get?_edges h eid k).mp hk
    exact outPort_of_edge_build h he
  · intro eid k hk
    obtain ⟨e, he, -, rfl⟩ := (get?_edges h eid k).mp hk
    exact inPort_of_edge_build h he
  · intro eid k hk x
    obtain ⟨e, he, -, rfl, hb⟩ := (isBack_iff h eid k).mp hk
    exact mem_region_build h he hb x
  · intro eid k hk
    obtain ⟨e, he, -, rfl, hb⟩ := (isBack_iff h eid k).mp hk
    exact (inRegion_iff h _ _).mpr (hloops e he hb)

end

end Build

/-- **`validate` only hands out legal topologies.** -/
theorem legal_of_validate {proposer_model_error : String → String → Option String}
    {graph : PipelineGraph} {registry : Registry} {roles : Dict RoleConfig} {t : Topology}
    (h : (validate proposer_model_error graph registry roles).topology = some t) : t.Legal := by
  obtain ⟨hclean, rfl⟩ := built_of_validate h
  exact legal_buildTopology (clean_of_validate hclean)

end Kroker
