import WordRanges.Flow.Slice

/-!
# Building graphs

A draft is a graph under construction, with the arrays in which the inputs of its nodes are
stored.  A node that is added keeps the slice that it was given.  Further inputs of a merge node
are appended to its slice, and the node is entered as their reader.

Main definitions:

- {lit}`Draft.add`, {lit}`Draft.addMerge` and {lit}`Draft.addInputs`: the steps of building.
- {lit}`Draft.graph`: the graph of a draft.
- {lit}`Draft.build`: build by one call after the other.
-/

namespace WordRanges
namespace Flow

/-- A node with the slice of its inputs. -/
structure StoredNode (σ : Type) where
  name : String
  inputs : Slice
  rule : Rule σ

/-- A graph under construction: the arrays, the nodes, and for each node the nodes that read
it. -/
structure Draft (σ : Type) where
  heap : Heap
  nodes : Array (StoredNode σ)
  readers : Array (List NodeId)

namespace Draft

variable {σ : Type}

/-- Nothing was built or stored so far. -/
def empty : Draft σ :=
  ⟨#[], #[], #[]⟩

/-- A node with the inputs that its slice holds now. -/
def node (d : Draft σ) (n : StoredNode σ) : Node σ :=
  ⟨n.name, n.inputs.read d.heap, n.rule⟩

/-- The graph as it stands. -/
def graph (d : Draft σ) : Graph σ where
  nodes := (d.nodes.toList.map d.node).toArray
  readers := d.readers

/-- Add a node.  It exists before it is entered as a reader, so it may read itself. -/
def addNode (d : Draft σ) (name : String) (rule : Rule σ) (inputs : Inputs) :
    Except BuildFault (Draft σ × NodeId) := do
  let (slice, heap) := inputs.place d.heap
  let readers ← Graph.link d.nodes.size (slice.read heap) (d.readers.push [])
  return (⟨heap, d.nodes.push ⟨name, slice, rule⟩, readers⟩, d.nodes.size)

/-- Add a node that applies a function to the states of its inputs. -/
def add (d : Draft σ) (name : String) (apply : List σ → Option σ) (inputs : Inputs) :
    Except BuildFault (Draft σ × NodeId) :=
  d.addNode name (.transfer apply) inputs

/-- Add a node that combines its inputs. -/
def addMerge (d : Draft σ) (name : String) (inputs : Inputs) :
    Except BuildFault (Draft σ × NodeId) :=
  d.addNode name .merge inputs

/-- Add inputs to a merge node.  They are appended first and entered afterwards, when appending
may have changed what their slice holds. -/
def addInputs (room : Nat → Nat → Nat) (d : Draft σ) (id : NodeId) (inputs : Inputs) :
    Except BuildFault (Draft σ) :=
  match d.nodes[id]? with
  | none => .error (.noSuchNode id)
  | some n =>
    if n.rule.isMerge then do
      let (slice, heap) := inputs.place d.heap
      let (grown, heap) := n.inputs.append room (slice.read heap) heap
      let readers ← Graph.link id (slice.read heap) d.readers
      return ⟨heap, d.nodes.setIfInBounds id { n with inputs := grown }, readers⟩
    else
      .error (.notMerge n.name)

end Draft

/-- What someone who builds a graph does. -/
inductive Call (σ : Type) where
  | add (name : String) (apply : List σ → Option σ) (inputs : Inputs)
  | addMerge (name : String) (inputs : Inputs)
  | addInputs (id : NodeId) (inputs : Inputs)
  /-- Allocate arrays and write to cells, between calls. -/
  | store (heap : Heap)

namespace Draft

variable {σ : Type}

/-- Do one thing. -/
def perform (room : Nat → Nat → Nat) (d : Draft σ) : Call σ → Except BuildFault (Draft σ)
  | .add name apply inputs => (d.add name apply inputs).map (·.1)
  | .addMerge name inputs => (d.addMerge name inputs).map (·.1)
  | .addInputs id inputs => d.addInputs room id inputs
  | .store heap => .ok { d with heap }

/-- Do one thing after the other. -/
def build (room : Nat → Nat → Nat) : Draft σ → List (Call σ) → Except BuildFault (Draft σ)
  | d, [] => .ok d
  | d, call :: calls =>
    match d.perform room call with
    | .error fault => .error fault
    | .ok d => d.build room calls

end Draft
end Flow
end WordRanges
