import Kroker.Graph.Topology

/-!
# Legality problems of nodes and edges

The first three groups of checks of `graph/validate.py`, each reported problem with its code, text
and place: T1 identity, T2 references, T3 node configuration with the ADR-6 role checks.  The wiring
and topology checks and `validate` itself are in `Graph.Validate`.

`proposer_model_error` stands for `validate_proposer_model`, which asks an installed framework
whether a model id resolves: it returns the error text for a role and a model, or nothing.
-/

namespace Kroker

inductive ProblemCode where
  | duplicateNodeId
  | duplicateEdge
  | danglingEndpoint
  | unknownNodeType
  | unknownPort
  | incompatiblePorts
  | roleOnRolelessType
  | gateOnNonGate
  | loaderOwnedField
  | roleNotInRegistry
  | roleKindMismatch
  | roleHarnessMissing
  | researchProviderMissing
  | roleModelInvalid
  | adr6Violation
  | adr6CombinationsExceeded
  | reservedGateName
  | requiredInPortUnconnected
  | mixedInPort
  | backPortNotExclusive
  | backEdgeIntoMany
  | onePortMultipleSources
  | forwardCycle
  | boundedEdgeNotALoop
  | entryCount
  | unreachableNode
  deriving DecidableEq

/-- The wire text of a code. -/
def ProblemCode.value : ProblemCode → String
  | .duplicateNodeId => "duplicate_node_id"
  | .duplicateEdge => "duplicate_edge"
  | .danglingEndpoint => "dangling_endpoint"
  | .unknownNodeType => "unknown_node_type"
  | .unknownPort => "unknown_port"
  | .incompatiblePorts => "incompatible_ports"
  | .roleOnRolelessType => "role_on_roleless_type"
  | .gateOnNonGate => "gate_on_non_gate"
  | .loaderOwnedField => "loader_owned_field"
  | .roleNotInRegistry => "role_not_in_registry"
  | .roleKindMismatch => "role_kind_mismatch"
  | .roleHarnessMissing => "role_harness_missing"
  | .researchProviderMissing => "research_provider_missing"
  | .roleModelInvalid => "role_model_invalid"
  | .adr6Violation => "adr6_violation"
  | .adr6CombinationsExceeded => "adr6_combinations_exceeded"
  | .reservedGateName => "reserved_gate_name"
  | .requiredInPortUnconnected => "required_in_port_unconnected"
  | .mixedInPort => "mixed_in_port"
  | .backPortNotExclusive => "back_port_not_exclusive"
  | .backEdgeIntoMany => "back_edge_into_many"
  | .onePortMultipleSources => "one_port_multiple_sources"
  | .forwardCycle => "forward_cycle"
  | .boundedEdgeNotALoop => "bounded_edge_not_a_loop"
  | .entryCount => "entry_count"
  | .unreachableNode => "unreachable_node"

structure Problem where
  code : ProblemCode
  message : String
  node : Option String := none
  edge : Option EdgeKey := none
  port : Option String := none

/-- `sort_key`, as nested texts: an absent edge sorts before every edge. -/
def Problem.sortKey (p : Problem) : List (List String) :=
  [[p.code.value], [p.node.getD ""],
    (p.edge.map fun k => [k.source, k.sourcePort, k.target, k.targetPort]).getD [],
    [p.port.getD ""], [p.message]]

/-- `topology` is present iff `problems` is empty. -/
structure ValidationReport where
  problems : List Problem
  topology : Option Topology

/-- Gate names that handlers use outside graphs. -/
def reservedGateNames : List String :=
  ["budget", "clarify", "crew_question", "deploy", "deploy_failed", "merge", "readiness", "risk",
    "tidy_up", "tool_approval"]

/-- Fail closed past this many role-to-model combinations. -/
def adr6CombinationCap : ℕ := 256

def names (items : List String) : String :=
  joinWith ", " ((items.insertionSort (· ≤ ·)).map quoted)

/-! ## T1: identity -/

def duplicateNodeProblem (graph : PipelineGraph) (nodeId : String) : Option Problem :=
  let count := (graph.nodes.map GraphNode.id).count nodeId
  if 1 < count then
    some {
      code := .duplicateNodeId
      node := some nodeId
      message := s!"node id {quoted nodeId} is used by {count} nodes" }
  else none

/-- The text `source.source_port->target.target_port` occurs `count` times. -/
def duplicateEdgeProblem (graph : PipelineGraph) (key : EdgeKey) : Option Problem :=
  let count := (graph.edges.map edgeKey).count key
  if 1 < count then
    some {
      code := .duplicateEdge
      edge := some key
      message := s!"edge {key.text} appears {count} times" }
  else none

def identityProblems (graph : PipelineGraph) : List Problem :=
  (graph.nodes.map GraphNode.id).dedup.filterMap (duplicateNodeProblem graph) ++
    (graph.edges.map edgeKey).dedup.filterMap (duplicateEdgeProblem graph)

/-! ## T2: references -/

/-- `_first_nodes`: id to the first node with that id. -/
def firstNodes (graph : PipelineGraph) : Dict GraphNode :=
  graph.nodes.foldl (fun first n => if n.id ∈ first then first else first.insert n.id n) ∅

def specOf (nodes : Dict GraphNode) (registry : Registry) (nodeId : String) :
    Option NodeTypeSpec :=
  nodes[nodeId]?.bind fun n => registry[n.type]?

def unknownTypeProblem (registry : Registry) (nodeId : String) (n : GraphNode) : List Problem :=
  if n.type ∈ registry then []
  else [{
    code := .unknownNodeType
    node := some nodeId
    message := s!"node {quoted nodeId} has unknown type {quoted n.type}" }]

def danglingProblem (nodes : Dict GraphNode) (e : GraphEdge) (role endpoint : String) :
    List Problem :=
  if endpoint ∈ nodes then []
  else [{
    code := .danglingEndpoint
    edge := some (edgeKey e)
    message := s!"edge {edgeId e}: {role} {quoted endpoint} names no node" }]

def unknownPortProblem (e : GraphEdge) (spec : Option NodeTypeSpec) (found : Option NodePort)
    (node port word : String) : List Problem :=
  match spec, found with
  | some s, none => [{
      code := .unknownPort
      edge := some (edgeKey e)
      node := some node
      port := some port
      message := s!"edge {edgeId e}: {quoted s.type} has no {word} {quoted port}" }]
  | _, _ => []

/-- The `repr` of a payload name. -/
def payloadText : Option String → String
  | none => "None"
  | some p => quoted p

def incompatibleProblem (e : GraphEdge) (outPort inPort : Option NodePort) : List Problem :=
  match outPort, inPort with
  | some o, some i =>
    if portsCompatible o i then []
    else [{
      code := .incompatiblePorts
      edge := some (edgeKey e)
      message := s!"edge {edgeId e}: payload {payloadText o.payload} does not " ++
        s!"connect to {payloadText i.payload}" }]
  | _, _ => []

def edgeReferenceProblems (nodes : Dict GraphNode) (registry : Registry) (e : GraphEdge) :
    List Problem :=
  let sourceSpec := specOf nodes registry e.source
  let targetSpec := specOf nodes registry e.target
  let outPort := sourceSpec.bind fun s => findPort s e.sourcePort .output
  let inPort := targetSpec.bind fun s => findPort s e.targetPort .input
  danglingProblem nodes e "source" e.source ++ danglingProblem nodes e "target" e.target ++
    unknownPortProblem e sourceSpec outPort e.source e.sourcePort "out-port" ++
    unknownPortProblem e targetSpec inPort e.target e.targetPort "in-port" ++
    incompatibleProblem e outPort inPort

def referenceProblems (graph : PipelineGraph) (nodes : Dict GraphNode) (registry : Registry) :
    List Problem :=
  nodes.toList.flatMap (fun n => unknownTypeProblem registry n.1 n.2) ++
    graph.edges.flatMap (edgeReferenceProblems nodes registry)

/-! ## T3: node configuration

`model_family` and `model_id` lower-case with `str.lower`; `String.toLower` agrees with it on the
ASCII ids of providers and models. -/

/-- The text before and after the first `:` or `/`; a text with neither is both. -/
def splitModel (model : String) : String × String :=
  match model.toList.dropWhile (fun c => !(c = ':' || c = '/')) with
  | [] => (model, model)
  | _ :: rest =>
    (String.ofList (model.toList.takeWhile fun c => !(c = ':' || c = '/')), String.ofList rest)

/-- `model_family`: who serves a model. -/
def modelFamily (model : String) : String := (strip (splitModel model).1).toLower

/-- `model_id`: the model with any provider prefix stripped. -/
def modelId (model : String) : String := (strip (splitModel model).2).toLower

/-- `check_adr6_families`, as the error text it raises. -/
def checkAdr6Families (roleModels : Dict String) : Option String :=
  match roleModels["dev"]?, roleModels["reviewer"]? with
  | some dev, some rev =>
    if modelFamily dev = modelFamily rev then
      some (s!"ADR-6 violation: reviewer family '{modelFamily rev}' " ++
        "equals the family of 'dev' — anti-collusion review requires a " ++
        "different model family than the developer's authoring model")
    else
      match roleModels["deep_review"]? with
      | some dr =>
        if modelFamily dr = modelFamily dev then
          some (s!"ADR-6 violation: deep_review family '{modelFamily dr}' " ++
            "equals the family of 'dev' — the transcript lens must not " ++
            "correlate with the authoring model")
        else none
      | none => none
  | _, _ => some "ADR-6 check requires both 'dev' and 'reviewer' models"

/-- `check_adversary_model`, as the error text it raises. -/
def checkAdversaryModel (roleModels : Dict String) : Option String :=
  match roleModels["adversary"]? with
  | none => none
  | some adv =>
    ["dev", "reviewer"].findSome? fun other =>
      match roleModels[other]? with
      | some peer =>
        if modelId adv = modelId peer then
          some (s!"ADR-6 violation: adversary model '{adv}' is the same model " ++
            s!"as '{other}' ('{peer}') -- a second opinion from the same " ++
            "weights is not a second opinion")
        else none
      | none => none

def validateRunRoles (roleModels : Dict String) : Option String :=
  (checkAdr6Families roleModels).or (checkAdversaryModel roleModels)

section Configuration

variable (proposer_model_error : String → String → Option String)

def roleOverrideProblems (add : ProblemCode → String → Problem) (specRole : String)
    (expected : RoleKind) (role : RoleConfig) : List Problem :=
  if role.kind ≠ expected then
    [add .roleKindMismatch (s!"role override kind {quoted role.kind.value} != registry " ++
      s!"{quoted specRole} kind {quoted expected.value} " ++
      "(an empty `role: \x7b\x7d` defaults to 'harness')")]
  else if role.kind = .harness ∧ role.harness = none then
    [add .roleHarnessMissing "a harness-kind role override must name a harness"]
  else if role.kind = .research ∧ role.provider = none then
    [add .researchProviderMissing "a research-kind role override must name a provider"]
  else
    match role.kind, role.model with
    | .proposer, some model =>
      ((proposer_model_error specRole model).map (add .roleModelInvalid)).toList
    | _, _ => []

def nodeConfigProblems (roles : Dict RoleConfig) (nodeId : String) (n : GraphNode)
    (spec : NodeTypeSpec) : List Problem :=
  let add (code : ProblemCode) (message : String) : Problem :=
    { code := code, node := some nodeId, message := message }
  (if spec.kind = .gate ∧ nodeId ∈ reservedGateNames then
    [add .reservedGateName
      s!"gate node id {quoted nodeId} is a gate name handlers use outside graphs"] else []) ++
  (if n.gate.isSome ∧ spec.kind ≠ .gate then
    [add .gateOnNonGate s!"{quoted n.type} is not a gate type"] else []) ++
  (match n.role with
    | some role =>
      if role.instructions.isSome ∨ role.toolFiles ≠ [] then
        [add .loaderOwnedField ("role.instructions and role.tool_files are loaded from " ++
          "agents/<role>/, never set on a node")] else []
    | none => []) ++
  (match spec.role with
    | none =>
      if n.role.isSome then [add .roleOnRolelessType s!"{quoted n.type} has no role"] else []
    | some specRole =>
      match roles[specRole]? with
      | none =>
        [add .roleNotInRegistry
          s!"{quoted n.type} needs role {quoted specRole}, which the loaded registry lacks"]
      | some registered =>
        match n.role with
        | none => []
        | some role =>
          roleOverrideProblems proposer_model_error add specRole registered.kind role)

def usedModels (nodes : Dict GraphNode) (registry : Registry) (roles : Dict RoleConfig) :
    Dict StrSet :=
  nodes.toList.foldl (fun used n =>
    match registry[n.2.type]?.bind NodeTypeSpec.role with
    | none => used
    | some role =>
      match roles[role]? with
      | none => used
      | some registered =>
        match ((n.2.role.bind RoleConfig.model).filter (· ≠ "")).or registered.model with
        | none => used
        | some model => used.insert role ((used.getD role ∅).insert model)) ∅

def product : List (List String) → List (List String)
  | [] => [[]]
  | choices :: rest => choices.flatMap fun c => (product rest).map (c :: ·)

def adr6Problems (nodes : Dict GraphNode) (registry : Registry) (roles : Dict RoleConfig) :
    List Problem :=
  let declared : Dict StrSet := roles.filterMap fun _ c =>
    c.model.map fun m => (∅ : StrSet).insert m
  let models := (usedModels nodes registry roles).toList.foldl
    (fun d m => d.insert m.1 m.2) declared
  let choices := models.toList.map fun m => m.2.toList
  let total := (choices.map List.length).prod
  if adr6CombinationCap < total then
    [{ code := .adr6CombinationsExceeded
       message := s!"{total} role->model combinations exceed the ADR-6 check cap " ++
        s!"of {adr6CombinationCap}" }]
  else
    (sortedSet ((product choices).filterMap fun combo =>
      validateRunRoles (Dict.ofItems (models.keys.zip combo)))).map fun m =>
        { code := .adr6Violation, message := m }

/-- `_node_config_problems`. -/
def configProblems (nodes : Dict GraphNode) (registry : Registry) (roles : Dict RoleConfig) :
    List Problem :=
  nodes.toList.flatMap (fun n =>
    match registry[n.2.type]? with
    | none => []
    | some spec => nodeConfigProblems proposer_model_error roles n.1 n.2 spec) ++
  adr6Problems nodes registry roles

end Configuration

end Kroker
