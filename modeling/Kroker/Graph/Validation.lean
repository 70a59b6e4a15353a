import Kroker.Graph.RouterSafety

/-!
# What a clean report promises

`validate` hands out a topology exactly when it reports nothing, and this file says in terms of the
graph and the registry what that means: the graph is well formed (`PipelineGraph.WellFormed`), and
the topology has its nodes, edges, ports, bounds and regions and nothing else
(`Topology.BuiltFrom`).

An edge is carried by the out-port it leaves and feeds the in-port it enters.  A node type may
declare a name twice; the topology then wires the last port of that name, and the lookups of
`BuiltFrom` say so.
-/

namespace Kroker

/-! ## 1. Graphs that are well formed -/

namespace PipelineGraph

def IsNode (graph : PipelineGraph) (n : String) : Prop := ∃ node ∈ graph.nodes, node.id = n

def HasSpec (graph : PipelineGraph) (registry : Registry) (n : String) (spec : NodeTypeSpec) :
    Prop :=
  ∃ node ∈ graph.nodes, node.id = n ∧ registry[node.type]? = some spec

def HasInPort (graph : PipelineGraph) (registry : Registry) (n : String) (port : NodePort) : Prop :=
  ∃ spec, graph.HasSpec registry n spec ∧ port ∈ spec.ports ∧ port.direction = .input

def FeedsForward (graph : PipelineGraph) (n port : String) (e : GraphEdge) : Prop :=
  e ∈ graph.edges ∧ Enters e n port ∧ isBackEdge e = false

def IsEntry (graph : PipelineGraph) (registry : Registry) (n : String) : Prop :=
  graph.IsNode n ∧ ∀ port, graph.HasInPort registry n port →
    ∀ e, ¬graph.FeedsForward n port.name e

/-- **What the wiring and topology rules ask of a graph.** -/
structure WellFormed (graph : PipelineGraph) (registry : Registry) : Prop where
  acyclic : ∀ n, ¬Relation.TransGen (Joins graph.edges) n n
  entry : ∃! n, graph.IsEntry registry n
  reachable : ∀ entry, graph.IsEntry registry entry → ∀ n, graph.IsNode n →
    Relation.ReflTransGen (Joins graph.edges) entry n
  closes_cycle : ∀ e ∈ graph.edges, isBackEdge e = true →
    Relation.ReflTransGen (Joins graph.edges) e.target e.source
  back_exclusive : ∀ e ∈ graph.edges, ∀ e' ∈ graph.edges, isBackEdge e = true →
    e'.source = e.source → e'.sourcePort = e.sourcePort → e' = e
  not_mixed : ∀ e ∈ graph.edges, ∀ e' ∈ graph.edges, e'.target = e.target →
    e'.targetPort = e.targetPort → isBackEdge e' = isBackEdge e
  one_source : ∀ n port, graph.HasInPort registry n port → port.multiplicity = .one →
    ∀ e e', graph.FeedsForward n port.name e → graph.FeedsForward n port.name e' →
      e.source = e'.source
  required_fed : ∀ n port, graph.HasInPort registry n port → port.required = true →
    ∃ e, graph.FeedsForward n port.name e

end PipelineGraph

/-! ## 2. Topologies that are built from a graph -/

def lastPort (spec : NodeTypeSpec) (name : String) (test : NodePort → Bool) : Option NodePort :=
  spec.ports.reverse.find? fun p => p.name = name && test p

/-- **The topology has what the graph and the registry have, and nothing else.** -/
structure Topology.BuiltFrom (t : Topology) (graph : PipelineGraph) (registry : Registry) :
    Prop where
  entry : graph.IsEntry registry t.entry
  nodeIds : Lists t.nodeIds graph.IsNode
  edges : ∀ (eid : String) (k : EdgeKey), t.edges[eid]? = some k ↔
    ∃ e ∈ graph.edges, eid = edgeId e ∧ k = edgeKey e
  bounds : ∀ (eid : String) (b : ℕ), t.bounds[eid]? = some b ↔
    ∃ e ∈ graph.edges, eid = edgeId e ∧ e.maxTraversals = some b
  outPorts_keys : ∀ n, n ∈ t.outPorts ↔ graph.IsNode n
  outPorts : ∀ (n p : String) (eids : List String), (t.outPortsOf n)[p]? = some eids ↔
    (∃ spec, graph.HasSpec registry n spec ∧
      ∃ port ∈ spec.ports, port.direction = .output ∧ port.name = p) ∧
    Lists eids fun eid => ∃ e ∈ graph.edges, eid = edgeId e ∧ e.source = n ∧ e.sourcePort = p
  inPorts_keys : ∀ n, n ∈ t.inPorts ↔ graph.IsNode n
  inPorts : ∀ (n p : String) (w : PortWiring), (t.inPortsOf n)[p]? = some w ↔
    (∃ spec port, graph.HasSpec registry n spec ∧
      lastPort spec p (fun port => port.direction = .input) = some port ∧
      w.required = port.required ∧ w.multiplicity = port.multiplicity) ∧
    (∃ e ∈ graph.edges, Enters e n p) ∧
    (Lists w.forwardEdges fun eid => ∃ e ∈ graph.edges, eid = edgeId e ∧ Enters e n p ∧
      isBackEdge e = false) ∧
    Lists w.backEdges fun eid => ∃ e ∈ graph.edges, eid = edgeId e ∧ Enters e n p ∧
      isBackEdge e = true
  regions : ∀ (v : String) (R : List String), t.regions[v]? = some R ↔
    (∃ e ∈ graph.edges, isBackEdge e = true ∧ e.target = v) ∧
    Lists R (Relation.ReflTransGen (Joins graph.edges) v)
  terminalPorts_keys : ∀ n, n ∈ t.terminalPorts ↔ graph.IsNode n
  terminalPorts : ∀ (n p : String) (k : Terminal), (t.terminalsOf n)[p]? = some k ↔
    ∃ spec port, graph.HasSpec registry n spec ∧
      lastPort spec p (fun port => port.direction = .output && port.terminal.isSome) = some port ∧
      port.terminal = some k

namespace PipelineGraph.Clean

variable {graph : PipelineGraph} {registry : Registry}

/-! ## 3. Nodes of a clean graph -/

section

variable (h : graph.Clean registry)

include h

theorem get?_firstNodes_iff (n : String) (node : GraphNode) :
    (firstNodes graph)[n]? = some node ↔ node ∈ graph.nodes ∧ node.id = n := by
  refine ⟨id_of_firstNodes, ?_⟩
  rintro ⟨hmem, rfl⟩
  have hsome : (graph.nodes.find? fun m => m.id = node.id).isSome := by
    rw [List.find?_isSome]
    exact ⟨node, hmem, by simp⟩
  obtain ⟨m, hm⟩ := Option.isSome_iff_exists.mp hsome
  have hid : m.id = node.id := by simpa using List.find?_some hm
  rw [get?_firstNodes, hm,
    List.inj_on_of_nodup_map h.ids_nodup (List.mem_of_find?_eq_some hm) hmem hid]

theorem isNode_iff (n : String) :
    n ∈ firstNodes graph ↔ graph.IsNode n := by
  rw [Dict.mem_iff_get?]
  exact exists_congr fun node => h.get?_firstNodes_iff n node

theorem hasSpec_iff (n : String) (spec : NodeTypeSpec) :
    specOf (firstNodes graph) registry n = some spec ↔ graph.HasSpec registry n spec := by
  rw [specOf, Option.bind_eq_some_iff]
  simp only [h.get?_firstNodes_iff, PipelineGraph.HasSpec, and_assoc]

/-! ## 4. A clean graph is well formed -/

theorem forward_eq_joins :
    (buildTopology graph (firstNodes graph) registry).Forward = Joins graph.edges := by
  ext a b
  rw [forward_iff h, Search.Edge, mem_succs_forwardAdjacency]
  refine ⟨fun hab => hab.2.2, ?_⟩
  rintro ⟨e, he, hf, rfl, rfl⟩
  obtain ⟨⟨hs, ht⟩, -, -⟩ := h.resolves he
  exact ⟨Std.ExtTreeMap.mem_keys.mpr hs, Std.ExtTreeMap.mem_keys.mpr ht, e, he, hf, rfl, rfl⟩

theorem mem_forwardReach_iff (v x : String) :
    x ∈ forwardReach (forwardAdjacency (firstNodes graph).keys graph.edges) v ↔
      Relation.ReflTransGen (Joins graph.edges) v x := by
  rw [← inRegion_iff h, Topology.InRegion, h.forward_eq_joins]

theorem exists_inPort {e : GraphEdge} (he : e ∈ graph.edges) :
    ∃ port, graph.HasInPort registry e.target port ∧ Enters e e.target port.name := by
  obtain ⟨-, -, spec, port, hspec, hfind⟩ := h.resolves he
  obtain ⟨hmem, hname, hdir⟩ := mem_of_findPort hfind
  exact ⟨port, ⟨spec, (h.hasSpec_iff _ _).mp hspec, hmem, hdir⟩, rfl, hname.symm⟩

theorem inPortProblems_eq_nil {n : String} {port : NodePort}
    (hport : graph.HasInPort registry n port) : inPortProblems graph n port = [] := by
  obtain ⟨spec, hspec, hmem, hdir⟩ := hport
  exact h.inPort n spec port ((h.hasSpec_iff n spec).mpr hspec) hmem hdir

theorem mem_entries_iff (n : String) :
    n ∈ entries graph (firstNodes graph).keys ↔ graph.IsEntry registry n := by
  have hunfed : (!(graph.edges.any fun e => !isBackEdge e && e.target = n)) = true ↔
      ∀ e ∈ graph.edges, isBackEdge e = false → e.target ≠ n := by
    simp
  rw [entries, List.mem_filter, Std.ExtTreeMap.mem_keys, h.isNode_iff, hunfed, IsEntry]
  refine and_congr_right fun _ => ⟨fun hall port _ e hfeeds => ?_, fun hnone e he hf ht => ?_⟩
  · obtain ⟨he, ⟨ht, -⟩, hf⟩ := hfeeds
    exact hall e he hf ht
  · subst ht
    obtain ⟨port, hport, henters⟩ := h.exists_inPort he
    exact hnone port hport e ⟨he, henters, hf⟩

theorem entries_eq : ∃ entry,
    entries graph (firstNodes graph).keys = [entry] ∧
      (∀ n, graph.IsEntry registry n ↔ n = entry) ∧ ∀ n ∈ firstNodes graph,
        n ∈ forwardReach (forwardAdjacency (firstNodes graph).keys graph.edges) entry := by
  obtain ⟨-, hentry⟩ := List.append_eq_nil_iff.mp h.topology
  unfold entryProblems at hentry
  split at hentry
  · rename_i entry heq
    refine ⟨entry, heq, fun n => ?_, fun n hn => ?_⟩
    · rw [← h.mem_entries_iff, heq, List.mem_singleton]
    · rw [List.map_eq_nil_iff, List.filter_eq_nil_iff] at hentry
      have hreached := hentry n (Std.ExtTreeMap.mem_keys.mpr hn)
      simpa using hreached
  · exact absurd hentry (List.cons_ne_nil _ _)

/-- **A clean graph is well formed.** -/
theorem wellFormed : graph.WellFormed registry := by
  obtain ⟨hwf, hloops⟩ := topology_clean h
  obtain ⟨entry, -, hentry, hreached⟩ := h.entries_eq
  rw [h.forward_eq_joins] at hwf
  refine ⟨fun n hcycle => hwf.transGen.irrefl.irrefl n hcycle, ?_, fun x hx n hn => ?_,
    fun e he hb => ?_, fun e he e' he' hb hs hp => outPort_clean h he he' hb hs hp,
    fun e he e' he' ht hp => ?_, fun n port hport hone e e' hfeeds hfeeds' => ?_,
    fun n port hport hreq => ?_⟩
  · exact ⟨entry, (hentry entry).mpr rfl, fun n hn => (hentry n).mp hn⟩
  · rw [(hentry x).mp hx, ← h.mem_forwardReach_iff]
    exact hreached n ((h.isNode_iff n).mpr hn)
  · rw [← h.mem_forwardReach_iff]
    exact hloops e he hb
  · obtain ⟨port, hport, henters⟩ := h.exists_inPort he
    obtain ⟨-, hmixed, -, -⟩ := inPort_clean h (h.inPortProblems_eq_nil hport)
    have henters' : Enters e' e.target port.name := ⟨ht, hp.trans henters.2⟩
    cases hb : isBackEdge e with
    | true =>
      cases hb' : isBackEdge e' with
      | true => rfl
      | false => exact (hmixed e' he' e he henters' henters hb' hb).elim
    | false =>
      cases hb' : isBackEdge e' with
      | true => exact (hmixed e he e' he' henters henters' hb hb').elim
      | false => rfl
  · obtain ⟨-, -, -, hsource⟩ := inPort_clean h (h.inPortProblems_eq_nil hport)
    obtain ⟨he, henters, hf⟩ := hfeeds
    obtain ⟨he', henters', hf'⟩ := hfeeds'
    exact hsource hone e he e' he' henters henters' hf hf'
  · obtain ⟨hfed, -, -, -⟩ := inPort_clean h (h.inPortProblems_eq_nil hport)
    obtain ⟨e, he, henters, hf⟩ := hfed hreq
    exact ⟨e, he, henters, hf⟩

end

end PipelineGraph.Clean

/-! ## 5. What the wiring of a node lists -/

theorem get?_terminalWiring (spec : NodeTypeSpec) (p : String) : (terminalWiring spec)[p]? =
    (lastPort spec p fun port => port.direction = .output && port.terminal.isSome).bind
      NodePort.terminal := by
  rw [terminalWiring, Dict.get?_ofItems, ← List.filterMap_reverse, ← List.filter_reverse,
    List.find?_filterMap, List.find?_filter, lastPort]
  have htest : ∀ port : NodePort, decide (decide (port.direction = .output) = true ∧
      ((port.terminal.map fun t => (port.name, t)).any fun i => decide (i.1 = p)) = true) =
      (decide (port.name = p) && (decide (port.direction = .output) && port.terminal.isSome)) := by
    intro port
    cases port.terminal <;> simp [and_comm]
  rw [funext htest]
  cases spec.ports.reverse.find? fun port =>
      port.name = p && (port.direction = .output && port.terminal.isSome) with
  | none => rfl
  | some port => cases hterm : port.terminal <;> simp [hterm]

theorem get?_inWiring (byId : Dict GraphEdge) (n : String) (spec : NodeTypeSpec) (p : String) :
    (inWiring byId n spec)[p]? =
      if (byId.filter fun _ e => e.target = n && e.targetPort = p).isEmpty then none
      else (lastPort spec p fun port => port.direction = .input).map (portWiring byId n) := by
  rw [inWiring, Dict.get?_ofItems_map, ← List.filter_reverse, List.find?_filter, lastPort]
  have htest : ∀ port : NodePort, decide ((decide (port.direction = .input) &&
      !(byId.filter fun _ e => e.target = n && e.targetPort = port.name).isEmpty) = true ∧
        decide (port.name = p) = true) =
      (!(byId.filter fun _ e => e.target = n && e.targetPort = p).isEmpty &&
        (decide (port.name = p) && decide (port.direction = .input))) := by
    intro port
    by_cases hname : port.name = p
    · subst hname
      generalize (byId.filter fun _ e => e.target = n && e.targetPort = port.name).isEmpty = empty
      cases empty <;> simp
    · simp [hname]
  rw [funext htest]
  cases (byId.filter fun _ e => e.target = n && e.targetPort = p).isEmpty with
  | true => simp
  | false => simp

theorem terminalsOf_build (graph : PipelineGraph) (registry : Registry) (n : String) :
    (buildTopology graph (firstNodes graph) registry).terminalsOf n =
      match specOf (firstNodes graph) registry n with
      | none => ∅
      | some spec => terminalWiring spec := by
  show ((nodeSpecs graph registry).map fun _ spec => terminalWiring spec).getD n ∅ = _
  rw [Dict.getD_eq, Std.ExtTreeMap.getElem?_map, get?_nodeSpecs]
  cases specOf (firstNodes graph) registry n <;> rfl

namespace PipelineGraph.Clean

variable {graph : PipelineGraph} {registry : Registry}

section

variable (h : graph.Clean registry)

include h

theorem lists_keys_filter (f : GraphEdge → Bool) :
    Lists ((edgesById graph).filter fun _ e => f e).keys
      fun eid => ∃ e ∈ graph.edges, eid = edgeId e ∧ f e = true :=
  ⟨(lists_keys _).1, mem_keys_filter h f⟩

theorem isEmpty_incoming_iff (n p : String) :
    ((edgesById graph).filter fun _ e => e.target = n && e.targetPort = p).isEmpty = false ↔
      ∃ e ∈ graph.edges, Enters e n p := by
  have hkeys := h.lists_keys_filter fun e => e.target = n && e.targetPort = p
  rw [Bool.eq_false_iff, Ne, Dict.isEmpty_iff]
  constructor
  · intro hsome
    by_contra hnone
    refine hsome fun eid => ?_
    rw [← Dict.notMem_iff_get?, ← Std.ExtTreeMap.mem_keys, hkeys.2]
    rintro ⟨e, he, -, henters⟩
    exact hnone ⟨e, he, by simpa [Enters] using henters⟩
  · rintro ⟨e, he, ht, hp⟩ hnone
    have hmem := (hkeys.2 (edgeId e)).mpr ⟨e, he, rfl, by simp [ht, hp]⟩
    rw [Std.ExtTreeMap.mem_keys, Dict.mem_iff_get?, hnone] at hmem
    simp at hmem

theorem mem_map_nodeSpecs {β : Type} (f : String → NodeTypeSpec → β)
    (n : String) : n ∈ (nodeSpecs graph registry).map f ↔ graph.IsNode n := by
  rw [Std.ExtTreeMap.mem_map, Dict.mem_iff_get?, ← h.isNode_iff]
  simp only [get?_nodeSpecs]
  refine ⟨fun ⟨spec, hspec⟩ => ?_, fun hn => h.specOf_isSome hn⟩
  obtain ⟨node, hnode, -⟩ := Option.bind_eq_some_iff.mp hspec
  exact (Dict.mem_iff_get? _ _).mpr ⟨node, hnode⟩

theorem portWiring_iff (n : String) (port : NodePort) (w : PortWiring) :
    portWiring (edgesById graph) n port = w ↔
      (w.required = port.required ∧ w.multiplicity = port.multiplicity) ∧
      (Lists w.forwardEdges fun eid => ∃ e ∈ graph.edges, eid = edgeId e ∧
        Enters e n port.name ∧ isBackEdge e = false) ∧
      Lists w.backEdges fun eid => ∃ e ∈ graph.edges, eid = edgeId e ∧
        Enters e n port.name ∧ isBackEdge e = true := by
  have hforward : Lists (portWiring (edgesById graph) n port).forwardEdges fun eid =>
      ∃ e ∈ graph.edges, eid = edgeId e ∧ Enters e n port.name ∧ isBackEdge e = false := by
    refine ⟨(lists_keys _).1, fun eid => ?_⟩
    rw [mem_forwardEdges_portWiring h]
    simp only [Enters, and_assoc]
  have hback : Lists (portWiring (edgesById graph) n port).backEdges fun eid =>
      ∃ e ∈ graph.edges, eid = edgeId e ∧ Enters e n port.name ∧ isBackEdge e = true := by
    refine ⟨(lists_keys _).1, fun eid => ?_⟩
    rw [mem_backEdges_portWiring h]
    simp only [Enters, and_assoc]
  constructor
  · rintro rfl
    exact ⟨⟨rfl, rfl⟩, hforward, hback⟩
  · obtain ⟨required, multiplicity, forwardEdges, backEdges⟩ := w
    rintro ⟨⟨rfl, rfl⟩, hforward', hback'⟩
    obtain rfl : forwardEdges = _ := hforward'.unique hforward
    obtain rfl : backEdges = _ := hback'.unique hback
    rfl

/-! ## 6. The topology of a clean graph has what the graph has -/

theorem get?_outPortsOf_iff (n p : String) (eids : List String) :
    ((buildTopology graph (firstNodes graph) registry).outPortsOf n)[p]? = some eids ↔
      (∃ spec, graph.HasSpec registry n spec ∧
        ∃ port ∈ spec.ports, port.direction = .output ∧ port.name = p) ∧
      Lists eids fun eid => ∃ e ∈ graph.edges, eid = edgeId e ∧ e.source = n ∧
        e.sourcePort = p := by
  have hbuilt : ∀ {eids}, ((buildTopology graph (firstNodes graph) registry).outPortsOf n)[p]? =
      some eids → Lists eids fun eid => ∃ e ∈ graph.edges, eid = edgeId e ∧ e.source = n ∧
        e.sourcePort = p := by
    intro eids heids
    obtain ⟨-, -, -, -, -, -, rfl⟩ := outPort_build heids
    refine (h.lists_keys_filter fun e => e.source = n && e.sourcePort = p).congr fun eid => ?_
    simp
  constructor
  · intro heids
    obtain ⟨spec, port, hspec, hmem, hdir, hname, -⟩ := outPort_build heids
    exact ⟨⟨spec, (h.hasSpec_iff n spec).mp hspec, port, hmem, hdir, hname⟩, hbuilt heids⟩
  · rintro ⟨⟨spec, hspec, port, hmem, hdir, rfl⟩, hlists⟩
    have hlookup := Dict.get?_ofItems_map_of_mem (f := fun p : NodePort => (p.name,
      ((edgesById graph).filter fun _ x => x.source = n && x.sourcePort = p.name).keys))
      (List.mem_filter.mpr ⟨hmem, by simp [hdir]⟩ :
        port ∈ spec.ports.filter fun p => p.direction = .output)
    obtain ⟨eids', heids'⟩ : ∃ eids', ((buildTopology graph (firstNodes graph) registry).outPortsOf
        n)[port.name]? = some eids' := by
      rw [outPortsOf_build, (h.hasSpec_iff n spec).mpr hspec]
      exact hlookup
    rw [heids', hlists.unique (hbuilt heids')]

theorem get?_inPortsOf_iff (n p : String) (w : PortWiring) :
    ((buildTopology graph (firstNodes graph) registry).inPortsOf n)[p]? = some w ↔
      (∃ spec port, graph.HasSpec registry n spec ∧
        lastPort spec p (fun port => port.direction = .input) = some port ∧
        w.required = port.required ∧ w.multiplicity = port.multiplicity) ∧
      (∃ e ∈ graph.edges, Enters e n p) ∧
      (Lists w.forwardEdges fun eid => ∃ e ∈ graph.edges, eid = edgeId e ∧ Enters e n p ∧
        isBackEdge e = false) ∧
      Lists w.backEdges fun eid => ∃ e ∈ graph.edges, eid = edgeId e ∧ Enters e n p ∧
        isBackEdge e = true := by
  have hname : ∀ {spec port}, lastPort spec p (fun port => port.direction = .input) = some port →
      port.name = p := by
    intro spec port hport
    have hfound := List.find?_some hport
    simp only [Bool.and_eq_true, decide_eq_true_eq] at hfound
    exact hfound.1
  rw [inPortsOf_build, ← h.isEmpty_incoming_iff]
  constructor
  · intro hw
    cases hspec : specOf (firstNodes graph) registry n with
    | none =>
      rw [hspec] at hw
      exact absurd hw (by simp)
    | some spec =>
      rw [hspec] at hw
      dsimp only at hw
      rw [get?_inWiring] at hw
      split at hw
      · exact nomatch hw
      · rename_i hempty
        obtain ⟨port, hport, hwired⟩ := Option.map_eq_some_iff.mp hw
        obtain ⟨⟨hrequired, hmultiplicity⟩, hlists⟩ := (h.portWiring_iff n port w).mp hwired
        rw [hname hport] at hlists
        exact ⟨⟨spec, port, (h.hasSpec_iff n spec).mp hspec, hport, hrequired, hmultiplicity⟩,
          Bool.eq_false_iff.mpr hempty, hlists⟩
  · rintro ⟨⟨spec, port, hspec, hport, hrequired, hmultiplicity⟩, hempty, hlists⟩
    rw [(h.hasSpec_iff n spec).mpr hspec]
    dsimp only
    rw [get?_inWiring, hempty, if_neg Bool.false_ne_true, hport, Option.map_some,
      (h.portWiring_iff n port w).mpr]
    rw [hname hport]
    exact ⟨⟨hrequired, hmultiplicity⟩, hlists⟩

theorem get?_terminalsOf_iff (n p : String) (k : Terminal) :
    ((buildTopology graph (firstNodes graph) registry).terminalsOf n)[p]? = some k ↔
      ∃ spec port, graph.HasSpec registry n spec ∧
        lastPort spec p (fun port => port.direction = .output && port.terminal.isSome) =
          some port ∧ port.terminal = some k := by
  rw [terminalsOf_build]
  simp only [← h.hasSpec_iff]
  cases hspec : specOf (firstNodes graph) registry n with
  | none => simp
  | some spec =>
    dsimp only
    rw [get?_terminalWiring, Option.bind_eq_some_iff]
    simp

theorem get?_regions_iff (v : String) (R : List String) :
    (buildTopology graph (firstNodes graph) registry).regions[v]? = some R ↔
      (∃ e ∈ graph.edges, isBackEdge e = true ∧ e.target = v) ∧
      Lists R (Relation.ReflTransGen (Joins graph.edges) v) := by
  have hlists : Lists (forwardReach (forwardAdjacency (firstNodes graph).keys graph.edges) v)
      (Relation.ReflTransGen (Joins graph.edges) v) :=
    ⟨(lists_toList _).1, h.mem_forwardReach_iff v⟩
  have htarget : (v ∈ ((edgesById graph).filter fun _ e => isBackEdge e).toList.map fun e =>
      e.2.target) ↔ ∃ e ∈ graph.edges, isBackEdge e = true ∧ e.target = v := by
    rw [List.mem_map]
    constructor
    · rintro ⟨⟨eid, e⟩, hmem, rfl⟩
      rw [Std.ExtTreeMap.mem_toList_iff_getElem?_eq_some, Dict.get?_filter,
        Option.filter_eq_some_iff] at hmem
      exact ⟨e, ((h.get?_edgesById eid e).mp hmem.1).1, hmem.2, rfl⟩
    · rintro ⟨e, he, hb, rfl⟩
      refine ⟨(edgeId e, e), ?_, rfl⟩
      rw [Std.ExtTreeMap.mem_toList_iff_getElem?_eq_some, Dict.get?_filter,
        (h.get?_edgesById (edgeId e) e).mpr ⟨he, rfl⟩, Option.filter_some, if_pos hb]
  show (Dict.ofItems ((((edgesById graph).filter fun _ e => isBackEdge e).toList.map fun e =>
    e.2.target).map fun v =>
      (v, forwardReach (forwardAdjacency (firstNodes graph).keys graph.edges) v)))[v]? = some R ↔ _
  constructor
  · intro hR
    obtain ⟨x, hx, heq⟩ := Dict.exists_of_get?_ofItems_map hR
    obtain ⟨rfl, rfl⟩ := Prod.mk.inj heq
    exact ⟨htarget.mp hx, hlists⟩
  · rintro ⟨hback, hR⟩
    obtain ⟨R', hR'⟩ := Dict.get?_ofItems_map_of_mem (f := fun v =>
      (v, forwardReach (forwardAdjacency (firstNodes graph).keys graph.edges) v)) (htarget.mpr hback)
    obtain ⟨x, -, heq⟩ := Dict.exists_of_get?_ofItems_map hR'
    obtain ⟨rfl, rfl⟩ := Prod.mk.inj heq
    rw [hR.unique hlists]
    exact hR'

/-- **The topology is built from the graph.** -/
theorem builtFrom :
    (buildTopology graph (firstNodes graph) registry).BuiltFrom graph registry := by
  obtain ⟨entry, heq, hentry, -⟩ := h.entries_eq
  refine ⟨?_, (lists_keys _).congr h.isNode_iff, get?_edges h, get?_bounds h,
    h.mem_map_nodeSpecs _, h.get?_outPortsOf_iff, h.mem_map_nodeSpecs _, h.get?_inPortsOf_iff,
    h.get?_regions_iff, h.mem_map_nodeSpecs _, h.get?_terminalsOf_iff⟩
  rw [hentry]
  show (entries graph (firstNodes graph).keys).headD "" = entry
  rw [heq]
  rfl

end

end PipelineGraph.Clean

/-! ## 7. Validation -/

/-- **A topology is handed out exactly with a clean report**, and then the graph is well formed and
the topology is the graph's own. -/
theorem validate_correct (proposer_model_error : String → String → Option String)
    (graph : PipelineGraph) (registry : Registry) (roles : Dict RoleConfig) :
    ((validate proposer_model_error graph registry roles).topology.isSome = true ↔
      (validate proposer_model_error graph registry roles).problems = []) ∧
    ∀ t, (validate proposer_model_error graph registry roles).topology = some t →
      graph.WellFormed registry ∧ t.BuiltFrom graph registry := by
  refine ⟨⟨fun hsome => ?_, fun hclean => ?_⟩, fun t ht => ?_⟩
  · obtain ⟨t, ht⟩ := Option.isSome_iff_exists.mp hsome
    exact (built_of_validate ht).1
  · unfold validate at hclean ⊢
    dsimp only at hclean ⊢
    split
    · rename_i hne
      rw [if_pos hne] at hclean
      exact absurd hclean hne
    · rfl
  · obtain ⟨hproblems, rfl⟩ := built_of_validate ht
    have hclean := clean_of_validate hproblems
    exact ⟨hclean.wellFormed, hclean.builtFrom⟩

theorem validate_correct_sample :
    sampleGraph.WellFormed sampleRegistry ∧ sampleTopology.BuiltFrom sampleGraph sampleRegistry ∧
      sampleTopology.regions["left"]? = some ["join", "left"] :=
  have hcorrect := (validate_correct (fun _ _ => none) sampleGraph sampleRegistry sampleRoles).2
    sampleTopology (by rw [validate_sampleGraph])
  ⟨hcorrect.1, hcorrect.2, by decide +kernel⟩

end Kroker
