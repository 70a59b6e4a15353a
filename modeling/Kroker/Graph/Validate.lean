import Kroker.Graph.Problems

/-!
# Graph legality

The wiring checks (T4) and topology checks (T5) of `graph/validate.py`, `_build_topology`, and
`validate`: every check runs, the problems accumulate and are sorted, and a clean report carries the
`Topology` the router runs on.
-/

namespace Kroker

/-! ## T4: wiring -/

/-- A 4-tuple that occurs more than once takes no part in the classification rules: its bounds may
disagree. -/
def duplicated (graph : PipelineGraph) (key : EdgeKey) : Bool :=
  1 < (graph.edges.map edgeKey).count key

def incomingEdges (graph : PipelineGraph) (nodeId port : String) : List GraphEdge :=
  graph.edges.filter fun e => e.target = nodeId && e.targetPort = port

def inPortProblems (graph : PipelineGraph) (nodeId : String) (port : NodePort) : List Problem :=
  let incoming := incomingEdges graph nodeId port.name
  let classified := incoming.filter fun e => !duplicated graph (edgeKey e)
  let forward := classified.filter fun e => !isBackEdge e
  let back := classified.filter isBackEdge
  let connectedByDuplicate := classified.length < incoming.length
  let sources := (forward.map GraphEdge.source).dedup
  (if port.required ∧ forward = [] ∧ ¬connectedByDuplicate then
    [{ code := .requiredInPortUnconnected
       node := some nodeId
       port := some port.name
       message := s!"required in-port {nodeId}.{port.name} has no forward " ++
        "(unbounded) in-edge" : Problem }] else []) ++
  (if forward ≠ [] ∧ back ≠ [] then
    [{ code := .mixedInPort
       node := some nodeId
       port := some port.name
       message := s!"in-port {nodeId}.{port.name} mixes forward and loop in-edges" }] else []) ++
  (if port.multiplicity = .many then
    back.map fun e =>
      { code := .backEdgeIntoMany
        edge := some (edgeKey e)
        message := s!"loop edge {edgeId e} targets a collect (many) port" }
  else if 1 < sources.length then
    [{ code := .onePortMultipleSources
       node := some nodeId
       port := some port.name
       message := s!"in-port {nodeId}.{port.name} takes one token but is fed by " ++
        s!"{names sources}; only distinct out-ports of ONE node are mutually exclusive" }]
  else [])

def resolvesOut (nodes : Dict GraphNode) (registry : Registry) (nodeId port : String) : Bool :=
  ((specOf nodes registry nodeId).bind fun s => findPort s port .output).isSome

def outPortEdges (graph : PipelineGraph) (nodes : Dict GraphNode) (registry : Registry)
    (source port : String) : List GraphEdge :=
  graph.edges.filter fun e => e.source = source && e.sourcePort = port &&
    !duplicated graph (edgeKey e) && resolvesOut nodes registry e.source e.sourcePort

/-- A port that carries a loop edge carries no other edge. -/
def outPortProblems (graph : PipelineGraph) (nodes : Dict GraphNode) (registry : Registry)
    (outPort : String × String) : List Problem :=
  let edges := outPortEdges graph nodes registry outPort.1 outPort.2
  if 1 < edges.length ∧ edges.any isBackEdge then
    [{ code := .backPortNotExclusive
       node := some outPort.1
       port := some outPort.2
       message := s!"out-port {outPort.1}.{outPort.2} carries a loop edge, so it must " ++
        "carry no other edge" }]
  else []

def wiringProblems (graph : PipelineGraph) (nodes : Dict GraphNode) (registry : Registry) :
    List Problem :=
  nodes.toList.flatMap (fun n =>
    match registry[n.2.type]? with
    | none => []
    | some spec =>
      (spec.ports.filter fun p => p.direction = .input).flatMap (inPortProblems graph n.1)) ++
  (graph.edges.map fun e => (e.source, e.sourcePort)).dedup.flatMap
    (outPortProblems graph nodes registry)

/-! ## T5: topology -/

def forwardCycleProblem (component : List String) : Problem :=
  { code := .forwardCycle
    node := component.head?
    message := s!"unbounded cycle through {names component}; " ++
      "set max_traversals on the loop edge" }

def notALoopProblem (adjacency : Adjacency) (e : GraphEdge) : List Problem :=
  if isBackEdge e ∧ e.source ∉ forwardReach adjacency e.target then
    [{ code := .boundedEdgeNotALoop
       edge := some (edgeKey e)
       message := s!"edge {edgeId e} carries max_traversals but closes no cycle" }]
  else []

def entries (graph : PipelineGraph) (nodeIds : List String) : List String :=
  nodeIds.filter fun n => !(graph.edges.any fun e => !isBackEdge e && e.target = n)

def entryProblems (adjacency : Adjacency) (nodeIds : List String) : List String → List Problem
  | [entry] =>
    (nodeIds.filter fun n => n ∉ forwardReach adjacency entry).map fun n =>
      { code := .unreachableNode
        node := some n
        message := s!"node {quoted n} is not reachable from entry {quoted entry}" }
  | found =>
    [{ code := .entryCount
       message := "a graph needs exactly one entry node (no forward in-edge); " ++
        s!"found {found.length}: {names found}" }]

def topologyProblems (graph : PipelineGraph) (nodeIds : List String) : List Problem :=
  let adjacency := forwardAdjacency nodeIds graph.edges
  (forwardCycles adjacency).map forwardCycleProblem ++
    graph.edges.flatMap (notALoopProblem adjacency) ++
    entryProblems adjacency nodeIds (entries graph nodeIds)

/-! ## The topology of a clean graph -/

def edgesById (graph : PipelineGraph) : Dict GraphEdge :=
  Dict.ofItems (graph.edges.map fun e => (edgeId e, e))

def outWiring (byId : Dict GraphEdge) (nodeId : String) (spec : NodeTypeSpec) :
    Dict (List String) :=
  Dict.ofItems ((spec.ports.filter fun p => p.direction = .output).map fun p =>
    (p.name, (byId.filter fun _ e => e.source = nodeId && e.sourcePort = p.name).keys))

def terminalWiring (spec : NodeTypeSpec) : Dict Terminal :=
  Dict.ofItems ((spec.ports.filter fun p => p.direction = .output).filterMap fun p =>
    p.terminal.map fun t => (p.name, t))

def portWiring (byId : Dict GraphEdge) (nodeId : String) (p : NodePort) : PortWiring :=
  let incoming := byId.filter fun _ e => e.target = nodeId && e.targetPort = p.name
  { required := p.required
    multiplicity := p.multiplicity
    forwardEdges := (incoming.filter fun _ e => !isBackEdge e).keys
    backEdges := (incoming.filter fun _ e => isBackEdge e).keys }

def inWiring (byId : Dict GraphEdge) (nodeId : String) (spec : NodeTypeSpec) : Dict PortWiring :=
  Dict.ofItems ((spec.ports.filter fun p => p.direction = .input &&
    !(byId.filter fun _ e => e.target = nodeId && e.targetPort = p.name).isEmpty).map fun p =>
      (p.name, portWiring byId nodeId p))

/-- `_build_topology`.  Called only on a clean graph, where every node's type is registered. -/
def buildTopology (graph : PipelineGraph) (nodes : Dict GraphNode) (registry : Registry) :
    Topology :=
  let nodeIds := nodes.keys
  let adjacency := forwardAdjacency nodeIds graph.edges
  let byId := edgesById graph
  let specs : Dict NodeTypeSpec := nodes.filterMap fun _ n => registry[n.type]?
  let bounds := byId.filterMap fun _ e => e.maxTraversals
  let targets := (byId.filter fun _ e => isBackEdge e).toList.map fun e => e.2.target
  { entry := (entries graph nodeIds).headD ""
    nodeIds := nodeIds
    gateNodes := nodeIds.filter fun n => (specs[n]?.map NodeTypeSpec.kind) = some .gate
    edges := byId.map fun _ e => edgeKey e
    bounds := bounds
    outPorts := specs.map fun n spec => outWiring byId n spec
    inPorts := specs.map fun n spec => inWiring byId n spec
    regions := Dict.ofItems (targets.map fun v => (v, forwardReach adjacency v))
    terminalPorts := specs.map fun _ spec => terminalWiring spec }

def suppressesTopology (p : Problem) : Bool :=
  p.code = .duplicateNodeId || p.code = .duplicateEdge || p.code = .danglingEndpoint

section Validate

variable (proposer_model_error : String → String → Option String)

def allProblems (graph : PipelineGraph) (registry : Registry) (roles : Dict RoleConfig) :
    List Problem :=
  let nodes := firstNodes graph
  let problems := identityProblems graph ++ referenceProblems graph nodes registry ++
    configProblems proposer_model_error nodes registry roles ++ wiringProblems graph nodes registry
  if problems.any suppressesTopology then problems
  else problems ++ topologyProblems graph nodes.keys

/-- `validate`: every legality problem, sorted; plus the topology iff there is none. -/
def validate (graph : PipelineGraph) (registry : Registry) (roles : Dict RoleConfig) :
    ValidationReport :=
  let ordered := (allProblems proposer_model_error graph registry roles).insertionSort
    (fun p q => p.sortKey ≤ q.sortKey)
  if ordered ≠ [] then { problems := ordered, topology := none }
  else { problems := [], topology := some (buildTopology graph (firstNodes graph) registry) }

end Validate

end Kroker
