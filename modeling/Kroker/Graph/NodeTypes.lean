import Kroker.Graph.Model

/-!
# Node types

A node type's ports and its role, and the compatibility rule of `graph/node_types.py`.  Every
function that reads the registry takes it as a parameter, as in the source.
-/

namespace Kroker

inductive NodeKind where
  | stage
  | gate
  deriving DecidableEq

structure NodeTypeSpec where
  type : String
  kind : NodeKind
  role : Option String
  ports : List NodePort

abbrev Registry := Dict NodeTypeSpec

/-- `find_port`: the first declared port of that name and direction. -/
def findPort (spec : NodeTypeSpec) (name : String) (direction : Direction) : Option NodePort :=
  spec.ports.find? fun p => p.name = name && p.direction = direction

/-- `ports_compatible`: out to in, with nominally equal payloads. -/
def portsCompatible (outPort inPort : NodePort) : Bool :=
  outPort.direction = .output && inPort.direction = .input && outPort.payload = inPort.payload

theorem mem_of_findPort {spec : NodeTypeSpec} {name : String} {d : Direction} {p : NodePort}
    (h : findPort spec name d = some p) : p ∈ spec.ports ∧ p.name = name ∧ p.direction = d := by
  refine ⟨List.mem_of_find?_eq_some h, ?_⟩
  simpa using List.find?_some h

end Kroker
