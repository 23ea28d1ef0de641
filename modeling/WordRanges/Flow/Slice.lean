import WordRanges.Flow.Graph

/-!
# Slices of stored nodes

The numbers of nodes are stored in arrays, and a slice is a window onto part of an array.  Behind
the cells of a slice there can be room: cells of the array that the slice may grow into.
Appending to a slice fills this room, in place, if it suffices; otherwise the slice moves to a
new array.  Slices can share cells, so filling the room of one of them can change what another
one holds.

Main definitions:

- {lit}`Slice.read`: the nodes that a slice holds.
- {lit}`Slice.append`: append nodes to a slice.
- {lit}`Inputs.place`: where the inputs of a call are stored.
-/

namespace WordRanges
namespace Flow

/-- The arrays that were allocated so far, each with its cells. -/
abbrev Heap := Array (List NodeId)

/-- The cells of an array. -/
def Heap.cells (heap : Heap) (array : Nat) : List NodeId :=
  heap.getD array []

/-- Fill cells of an array with nodes, one after the other. -/
def Heap.write (heap : Heap) (array start : Nat) (ids : List NodeId) : Heap :=
  heap.modify array fun cells => cells.take start ++ ids ++ cells.drop (start + ids.length)

/-- A window onto an array: the cell at which it starts, how many cells it has, and how many it
would have if it took up all its room. -/
structure Slice where
  array : Nat
  start : Nat
  length : Nat
  capacity : Nat
deriving DecidableEq, Repr

namespace Slice

/-- The nodes that a slice holds. -/
def read (heap : Heap) (s : Slice) : List NodeId :=
  ((heap.cells s.array).drop s.start).take s.length

/-- A new array with the given nodes, and the slice of all its cells. -/
def allocate (ids : List NodeId) (heap : Heap) : Slice × Heap :=
  (⟨heap.size, 0, ids.length, ids.length⟩, heap.push ids)

/-- Append nodes to a slice, in place if there is room for them.  A slice that has to move gets
further room as its old capacity and its new length ask for. -/
def append (room : Nat → Nat → Nat) (s : Slice) (ids : List NodeId) (heap : Heap) :
    Slice × Heap :=
  let length := s.length + ids.length
  if length ≤ s.capacity then
    ({ s with length }, heap.write s.array (s.start + s.length) ids)
  else
    let spare := room s.capacity length
    (⟨heap.size, 0, length, length + spare⟩,
      heap.push (s.read heap ++ ids ++ List.replicate spare 0))

end Slice

/-- The inputs that a call names. -/
inductive Inputs where
  /-- The call lists them, so that they are stored in an array of their own. -/
  | listed (ids : List NodeId)
  /-- They are those of a slice that the caller has. -/
  | slice (s : Slice)
deriving DecidableEq, Repr

/-- The slice of the inputs that a call names. -/
def Inputs.place (heap : Heap) : Inputs → Slice × Heap
  | .listed ids => Slice.allocate ids heap
  | .slice s => (s, heap)

end Flow
end WordRanges
