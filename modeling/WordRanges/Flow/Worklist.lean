import WordRanges.Flow.Graph

/-!
# Work lists

A first-in first-out queue of nodes that holds no node twice.  A flag for each node
tells whether it waits in the queue.

Main definitions:

- {lit}`Worklist.push`: put a node at the end unless it waits already.
- {lit}`Worklist.pop?`: take the first node.
-/

namespace WordRanges
namespace Flow

/-- The waiting nodes in order, and a flag for each node that waits. -/
structure Worklist where
  queue : List NodeId
  queued : Array Bool
deriving DecidableEq, Repr

namespace Worklist

/-- The work list of {lit}`n` nodes with all of them waiting, in the order of their numbers. -/
def full (n : Nat) : Worklist :=
  ⟨List.range n, Array.replicate n true⟩

/-- A node waits. -/
def isQueued (l : Worklist) (id : NodeId) : Bool :=
  l.queued.getD id false

/-- Put a node at the end unless it waits already. -/
def push (l : Worklist) (id : NodeId) : Worklist :=
  if l.isQueued id then l
  else ⟨l.queue ++ [id], l.queued.setIfInBounds id true⟩

/-- Put several nodes at the end, in order. -/
def pushAll (l : Worklist) (ids : List NodeId) : Worklist :=
  ids.foldl push l

/-- The first node and the work list without it. -/
def pop? (l : Worklist) : Option (NodeId × Worklist) :=
  match l.queue with
  | [] => none
  | id :: queue => some (id, ⟨queue, l.queued.setIfInBounds id false⟩)

end Worklist
end Flow
end WordRanges
