import WordRanges.Flow.Graph

/-!
# States of nodes

Solving a graph keeps a state for each node and, beside it, a flag that tells whether the node
is reachable.  A node that is or becomes unreachable shows the default state.

Main definitions:

- {lit}`States.setIfInBounds`: give a node a new state, or none.
- {lit}`stateAt`: the state of a node, if it is reachable.
- {lit}`valueAt`: what is shown of a node.
-/

namespace WordRanges
namespace Flow

/-- A state for each node, and a flag for each node that is reachable. -/
structure States (σ : Type) where
  values : Array σ
  reachable : Array Bool
  size_eq : values.size = reachable.size
deriving DecidableEq, Repr

namespace States

variable {σ : Type}

/-- The number of nodes. -/
def size (states : States σ) : Nat :=
  states.reachable.size

variable [Inhabited σ]

/-- The states of {lit}`n` nodes, none of which is reachable. -/
def unreachable (n : Nat) : States σ where
  values := Array.replicate n default
  reachable := Array.replicate n false
  size_eq := by simp

/-- Give a node a new state.  A node that becomes unreachable is reset to the default state. -/
def setIfInBounds (states : States σ) (id : NodeId) (new : Option σ) : States σ where
  values := states.values.setIfInBounds id (new.getD default)
  reachable := states.reachable.setIfInBounds id new.isSome
  size_eq := by simp [states.size_eq]

end States

variable {σ : Type}

/-- The state of a node, if the node is reachable.  A number without a node counts as
unreachable. -/
def stateAt (states : States σ) (id : NodeId) : Option σ :=
  if states.reachable.getD id false then states.values[id]? else none

/-- The state that is shown of a node, and whether the node is reachable. -/
def valueAt [Inhabited σ] (states : States σ) (id : NodeId) : σ × Bool :=
  (states.values.getD id default, states.reachable.getD id false)

end Flow
end WordRanges
