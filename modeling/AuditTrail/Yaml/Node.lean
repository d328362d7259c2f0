import AuditTrail.Yaml.Scalar

/-!
# Nodes

What a document says: a scalar, a sequence of nodes, or a mapping as the list of its pairs.  An
alias stands for a node with an anchor, and is kept as it is until the node is asked for, since
the node may be a large one or even hold the alias itself.
-/

namespace AuditTrail.Yaml

inductive Node where
  | scalar (s : Scalar)
  | sequence (items : List Node)
  | mapping (pairs : List (Node × Node))
  | alias (anchor : Nat)
deriving Repr

namespace Node

def empty : Node := .scalar .empty

def describe : Node → String
  | .scalar s => "scalar " ++ s.text
  | .sequence _ => "sequence"
  | .mapping _ => "map"
  | .alias _ => "alias"

end Node

structure Anchored where
  anchor : Nat
  /-- How much of the document follows the place where the node begins. -/
  left : Nat
  node : Node
deriving Repr

/-- A node, and the nodes that its aliases stand for. -/
structure Document where
  root : Node
  anchored : List Anchored
deriving Repr

namespace Document

/-- What a node stands for.  No anchor is on an alias, so one step is enough. -/
def resolve (d : Document) : Node → Node
  | .alias anchor => ((d.anchored.find? (·.anchor == anchor)).map (·.node)).getD (.alias anchor)
  | n => n

end Document
end AuditTrail.Yaml
