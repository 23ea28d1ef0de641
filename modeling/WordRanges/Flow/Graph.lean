/-!
# Data-flow graphs

A data-flow graph has nodes that each compute one abstract state from the states of
their inputs.  A transfer node applies a function to the states of all its inputs; a
merge node combines the states of those inputs that are reachable.  Merge nodes can get
further inputs after they were added, which is how cycles arise.

Main definitions:

- {lit}`Graph`: nodes and their readers.
- {lit}`Graph.link`: enter a node as reader of its inputs.
-/

namespace WordRanges
namespace Flow

/-- Nodes are numbered from zero in the order in which they were added. -/
abbrev NodeId := Nat

/-- How a node computes its state. -/
inductive Rule (σ : Type) where
  /-- Apply a function to the states of all inputs.  Without a result the node is
  unreachable. -/
  | transfer (apply : List σ → Option σ)
  /-- Combine the states of the reachable inputs. -/
  | merge

/-- Whether a rule combines inputs. -/
def Rule.isMerge {σ : Type} : Rule σ → Bool
  | .transfer _ => false
  | .merge => true

/-- A node with its inputs, in the order in which its rule gets them. -/
structure Node (σ : Type) where
  name : String
  inputs : List NodeId
  rule : Rule σ

/-- A graph: its nodes, and for each node the nodes that read it, once for each input. -/
structure Graph (σ : Type) where
  nodes : Array (Node σ)
  readers : Array (List NodeId)

/-- Why a graph cannot be extended. -/
inductive BuildFault where
  /-- There is no node of that number. -/
  | noSuchNode (id : NodeId)
  /-- Only merge nodes take further inputs. -/
  | notMerge (name : String)
deriving DecidableEq, Repr

/-- The wording of a fault. -/
def BuildFault.message : BuildFault → String
  | .noSuchNode id => "there is no node " ++ id.repr
  | .notMerge name => "node " ++ name ++ " isn't a merge node"

namespace Graph

variable {σ : Type}

/-- The graph without nodes. -/
def empty : Graph σ :=
  ⟨#[], #[]⟩

/-- The number of nodes. -/
def size (g : Graph σ) : Nat :=
  g.nodes.size

/-- The nodes that read a node. -/
def readersOf (g : Graph σ) (id : NodeId) : List NodeId :=
  g.readers.getD id []

/-- Enter a node as reader of its inputs, one after the other. -/
def link (reader : NodeId) :
    List NodeId → Array (List NodeId) → Except BuildFault (Array (List NodeId))
  | [], readers => .ok readers
  | input :: inputs, readers =>
    if h : input < readers.size then
      link reader inputs (readers.set input (readers[input] ++ [reader]))
    else
      .error (.noSuchNode input)

end Graph
end Flow
end WordRanges
