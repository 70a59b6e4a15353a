import Kroker.Graph.NodeTypes
import Kroker.Library.Reachability

/-!
# Loop structure of a pipeline graph

The graph algorithms of `graph/topology.py` over node ids and edge endpoints, and `Topology`, the
structure the router runs on.  A back edge is exactly an edge carrying `max_traversals`; every other
edge is forward.

`forward_reach` and `forward_cycles` are loops over explicit stacks.  A stack is a list here, its
top first.  `while` loops run on fuel; `adjacencyNodes` counts the nodes an adjacency mentions, and
the fuel is a multiple of that count, which `Graph.ForwardReach` and `Graph.ForwardCycles` show to
be enough.
-/

namespace Kroker

/-- node to sorted distinct forward successors. -/
abbrev Adjacency := Dict (List String)

/-- `adjacency.get(n, ())`. -/
def Adjacency.succs (adjacency : Adjacency) (n : String) : List String := adjacency.getD n []

/-- One edge's contribution to the sets of forward successors: bounded edges and edges whose
endpoints are not nodes are ignored. -/
def addForward (targets : Dict StrSet) (e : GraphEdge) : Dict StrSet :=
  if !isBackEdge e && e.source ∈ targets && e.target ∈ targets then
    targets.insert e.source ((targets.getD e.source ∅).insert e.target)
  else targets

def forwardAdjacency (nodeIds : List String) (edges : List GraphEdge) : Adjacency :=
  let targets : Dict StrSet := Dict.ofItems (nodeIds.map fun n => (n, ∅))
  (edges.foldl addForward targets).map fun _ succ => succ.toList

/-- Every node an adjacency mentions, as a key or as a successor. -/
def adjacencyNodes (adjacency : Adjacency) : List String :=
  adjacency.toList.flatMap fun n => n.1 :: n.2

/-- `forward_reach`: `start` plus every node reachable from it, sorted. -/
def forwardReach (adjacency : Adjacency) (start : String) : List String :=
  (Search.search adjacency.succs ((adjacencyNodes adjacency).length + 1) start).toList

/-! ## `forward_cycles` -/

/-- The local variables of `forward_cycles`.  `work` pairs a node with what its successor iterator
has not yielded yet. -/
structure CycleScan where
  index : Dict ℕ := ∅
  low : Dict ℕ := ∅
  onStack : StrSet := ∅
  stack : List String := []
  components : List (List String) := []
  counter : ℕ := 0
  work : List (String × List String) := []

namespace CycleScan

/-- Number a node, put it on both stacks and open its successor iterator. -/
def visit (adjacency : Adjacency) (s : CycleScan) (n : String) : CycleScan :=
  { s with
    index := s.index.insert n s.counter
    low := s.low.insert n s.counter
    counter := s.counter + 1
    stack := n :: s.stack
    onStack := s.onStack.insert n
    work := (n, adjacency.succs n) :: s.work }

/-- `low[n] = min(low[n], k)`. -/
def lower (s : CycleScan) (n : String) (k : ℕ) : CycleScan :=
  { s with low := s.low.insert n (min (s.low.getD n 0) k) }

/-- The `for succ in successors` loop of `node`: it stops at the first successor that has no index
yet, and hands it back with the rest of the iterator. -/
def scanSuccessors (node : String) :
    List String → CycleScan → CycleScan × Option (String × List String)
  | [], s => (s, none)
  | succ :: rest, s =>
    if succ ∈ s.index then
      if succ ∈ s.onStack then scanSuccessors node rest (s.lower node (s.index.getD succ 0))
      else scanSuccessors node rest s
    else (s, some (succ, rest))

/-- `while True: member = stack.pop(); ...; if member == node: break`: the members popped, the
stack left and the nodes still on it. -/
def popMembers (node : String) : List String → StrSet → List String × List String × StrSet
  | [], onStack => ([], [], onStack)
  | m :: stack, onStack =>
    if m = node then ([m], stack, onStack.erase m)
    else (m :: (popMembers node stack (onStack.erase m)).1,
      (popMembers node stack (onStack.erase m)).2)

def popComponent (adjacency : Adjacency) (s : CycleScan) (node : String) : CycleScan :=
  { s with
    stack := (popMembers node s.stack s.onStack).2.1
    onStack := (popMembers node s.stack s.onStack).2.2
    components :=
      if 1 < (popMembers node s.stack s.onStack).1.length || node ∈ adjacency.succs node then
        s.components ++ [(popMembers node s.stack s.onStack).1.insertionSort (· ≤ ·)]
      else s.components }

/-- The node on top of `work` has no successor left. -/
def finish (adjacency : Adjacency) (s : CycleScan) (node : String) : CycleScan :=
  let s' := match s.work with
    | [] => s
    | (parent, _) :: _ => s.lower parent (s.low.getD node 0)
  if s'.low.getD node 0 = s'.index.getD node 0 then s'.popComponent adjacency node else s'

/-- One iteration of `while work`. -/
def step (adjacency : Adjacency) (s : CycleScan) : CycleScan :=
  match s.work with
  | [] => s
  | (node, successors) :: work =>
    match scanSuccessors node successors s with
    | (s', some (succ, rest)) => ({ s' with work := (node, rest) :: work }).visit adjacency succ
    | (s', none) => ({ s' with work := work }).finish adjacency node

/-- `while work`. -/
def drain (adjacency : Adjacency) : ℕ → CycleScan → CycleScan
  | 0, s => s
  | fuel + 1, s => if s.work = [] then s else drain adjacency fuel (s.step adjacency)

/-- The body of `for root in sorted(adjacency)`. -/
def scanRoot (adjacency : Adjacency) (s : CycleScan) (root : String) : CycleScan :=
  if root ∈ s.index then s
  else drain adjacency (2 * (adjacencyNodes adjacency).length + 2) (s.visit adjacency root)

end CycleScan

/-- `forward_cycles`: the non-trivial strongly connected components, members sorted, components
sorted (Tarjan, iteratively, over sorted roots). -/
def forwardCycles (adjacency : Adjacency) : List (List String) :=
  (adjacency.keys.foldl (CycleScan.scanRoot adjacency) {}).components.insertionSort (· ≤ ·)

/-! ## The topology a router runs on -/

/-- One connected in-port of one node, resolved against the registry. -/
structure PortWiring where
  required : Bool
  multiplicity : Multiplicity
  forwardEdges : List String
  backEdges : List String
  deriving DecidableEq

/-- Everything the router needs, resolved once from a legal graph.  `edges` maps an edge id to its
endpoints, `bounds` a back edge id to its `max_traversals`, `outPorts` a node to every out-port and
that port's edge ids, `inPorts` a node to its connected in-ports, `regions` a back edge's target `v`
to `REGION(v)`, and `terminalPorts` a node's terminal out-ports to the outcome they end a run
with. -/
structure Topology where
  entry : String
  nodeIds : List String
  gateNodes : List String
  edges : Dict EdgeKey
  bounds : Dict ℕ
  outPorts : Dict (Dict (List String))
  inPorts : Dict (Dict PortWiring)
  regions : Dict (List String)
  terminalPorts : Dict (Dict Terminal)

namespace Topology

/-- `edges[eid]`. -/
def endpoints (t : Topology) (eid : String) : EdgeKey := t.edges.getD eid ⟨"", "", "", ""⟩

/-- `out_ports[n]`. -/
def outPortsOf (t : Topology) (n : String) : Dict (List String) := t.outPorts.getD n ∅

/-- `in_ports[n]`. -/
def inPortsOf (t : Topology) (n : String) : Dict PortWiring := t.inPorts.getD n ∅

/-- `regions[v]`. -/
def region (t : Topology) (v : String) : List String := t.regions.getD v []

/-- `terminal_ports.get(n, {})`. -/
def terminalsOf (t : Topology) (n : String) : Dict Terminal := t.terminalPorts.getD n ∅

end Topology

end Kroker
