import WordRanges.Flow.Draft
import WordRanges.Proofs.Flow.Building

/-!
# Nodes that share storage

A draft builds the graph that it is meant to build as long as no call fills cells that something
else holds.  Appending inputs to a merge node fills the room behind its slice.  So the call must
not be made while another node, or the slice that the call names, has a cell in this room; and
whoever writes to an array must leave the inputs of all nodes alone.  Calls that list their
inputs give each node an array of its own, so they need no care.

Main definitions:

- {lit}`Draft.Made`: the drafts that calls lead to, whatever they share.
- {lit}`Draft.Careful`: the drafts that calls lead to which fill no cell that something else holds.

Main results:

- Theorem {lit}`Slice.append_spec`: what appending does to this slice and to others.
- Theorem {lit}`Draft.Careful.built`: a careful draft has the graph that its calls mean.
- Theorem {lit}`Draft.Made.inRange`: the readers of any draft exist.
- Theorem {lit}`Draft.exists_careful`: calls that list their inputs are careful.
-/

namespace WordRanges
namespace Flow

/-! ## Cells of slices -/

section Slices

variable {heap heap' : Heap} {s t : Slice} {ids cells : List NodeId} {array cell : Nat}

/-- A cell is one of those that a slice shows. -/
def Slice.Holds (s : Slice) (array cell : Nat) : Prop :=
  s.array = array ∧ s.start ≤ cell ∧ cell < s.start + s.length

/-- A cell is in the room behind a slice. -/
def Slice.HasRoomAt (s : Slice) (array cell : Nat) : Prop :=
  s.array = array ∧ s.start + s.length ≤ cell ∧ cell < s.start + s.capacity

/-- No cell of a slice is in the room behind another one. -/
def Slice.Avoids (s t : Slice) : Prop :=
  ∀ array cell, s.Holds array cell → ¬ t.HasRoomAt array cell

/-- A slice and its room lie within an array. -/
structure Slice.Fits (heap : Heap) (s : Slice) : Prop where
  length_le : s.length ≤ s.capacity
  le_length : s.start + s.capacity ≤ (heap.cells s.array).length

instance (heap : Heap) (s : Slice) : Decidable (s.Fits heap) :=
  decidable_of_iff (s.length ≤ s.capacity ∧ s.start + s.capacity ≤ (heap.cells s.array).length)
    ⟨fun h => ⟨h.1, h.2⟩, fun h => ⟨h.length_le, h.le_length⟩⟩

/-- What a slice holds, cell by cell. -/
theorem Slice.getElem?_read (heap : Heap) (s : Slice) (i : Nat) :
    (s.read heap)[i]? = if i < s.length then (heap.cells s.array)[s.start + i]? else none := by
  rw [read, List.getElem?_take, List.getElem?_drop]

/-- A slice holds as many nodes as it has cells. -/
theorem Slice.Fits.length_read (h : s.Fits heap) : (s.read heap).length = s.length := by
  have hlength := h.length_le
  have harray := h.le_length
  rw [Slice.read, List.length_take, List.length_drop]
  omega

/-- Slices hold the same nodes in arrays with the same cells. -/
theorem Slice.read_congr
    (h : ∀ cell, s.Holds s.array cell →
      (heap'.cells s.array)[cell]? = (heap.cells s.array)[cell]?) :
    s.read heap' = s.read heap := by
  refine List.ext_getElem? fun i => ?_
  rw [getElem?_read, getElem?_read]
  split
  · rename_i hi
    exact h (s.start + i) ⟨rfl, Nat.le_add_right _ _, Nat.add_lt_add_left hi _⟩
  · rfl

/-- An array that exists keeps its cells when another one is allocated. -/
theorem Heap.cells_push_of_lt (h : array < heap.size) :
    Heap.cells (heap.push cells) array = heap.cells array := by
  rw [Heap.cells, Heap.cells, Array.getD_eq_getD_getElem?, Array.getD_eq_getD_getElem?,
    Array.getElem?_push_lt h, Array.getElem?_eq_getElem h]

/-- The cells of an array that was just allocated. -/
theorem Heap.cells_push_size (heap : Heap) (cells : List NodeId) :
    Heap.cells (heap.push cells) heap.size = cells := by
  simp [Heap.cells, Array.getD_eq_getD_getElem?]

/-- An array that was not allocated has no cells. -/
theorem Heap.lt_size_of_cells (h : cell < (heap.cells array).length) : array < heap.size := by
  rcases Nat.lt_or_ge array heap.size with hlt | hge
  · exact hlt
  · rw [Heap.cells, Array.getD_eq_getD_getElem?, Array.getElem?_eq_none hge] at h
    cases h

/-- Writing to an array leaves the other ones alone. -/
theorem Heap.cells_write_ne {start other : Nat} (h : array ≠ other) :
    Heap.cells (heap.write array start ids) other = heap.cells other := by
  rw [Heap.cells, Heap.write, Array.getD_eq_getD_getElem?, Array.getElem?_modify, if_neg h,
    Heap.cells, Array.getD_eq_getD_getElem?]

/-- An array after some of its cells were filled. -/
theorem Heap.cells_write {start : Nat} (h : start + ids.length ≤ (heap.cells array).length) :
    Heap.cells (heap.write array start ids) array =
      (heap.cells array).take start ++ ids ++ (heap.cells array).drop (start + ids.length) := by
  rw [Heap.cells, Heap.cells, Array.getD_eq_getD_getElem?, Array.getD_eq_getD_getElem?] at *
  rw [Heap.write, Array.getElem?_modify, if_pos rfl]
  cases harray : heap[array]? with
  | none =>
      -- Nothing can be written to an array without cells.
      have hids : ids = [] := by
        rw [harray, Option.getD_none, List.length_nil] at h
        exact List.eq_nil_of_length_eq_zero (by omega)
      simp [hids]
  | some cells => simp

/-- The cells of an array after some of them were filled. -/
theorem Heap.getElem?_cells_write {start : Nat}
    (h : start + ids.length ≤ (heap.cells array).length) (cell : Nat) :
    (Heap.cells (heap.write array start ids) array)[cell]? =
      if start ≤ cell ∧ cell < start + ids.length then ids[cell - start]?
      else (heap.cells array)[cell]? := by
  have hbefore : ((heap.cells array).take start ++ ids).length = start + ids.length := by
    rw [List.length_append, List.length_take]
    omega
  have hstart : ((heap.cells array).take start).length = start := by
    rw [List.length_take]
    omega
  rw [Heap.cells_write h, List.getElem?_append, hbefore, List.getElem?_append, hstart]
  by_cases hafter : cell < start + ids.length
  · rw [if_pos hafter]
    by_cases hfilled : cell < start
    · rw [if_pos hfilled, List.getElem?_take, if_pos hfilled, if_neg (by omega)]
    · rw [if_neg hfilled, if_pos (by omega)]
  · rw [if_neg hafter, if_neg (by omega), List.getElem?_drop]
    congr 1
    omega

/-- Filling cells of an array leaves all arrays as long as they were. -/
theorem Heap.length_cells_write {start : Nat}
    (h : start + ids.length ≤ (heap.cells array).length) (other : Nat) :
    (Heap.cells (heap.write array start ids) other).length = (heap.cells other).length := by
  by_cases hother : array = other
  · subst hother
    simp only [Heap.cells_write h, List.length_append, List.length_take, List.length_drop]
    omega
  · rw [Heap.cells_write_ne hother]

/-! ## Allocating and appending -/

/-- What is allocated anew does not concern slices that exist. -/
theorem Slice.Fits.push (h : s.Fits heap) (cells : List NodeId) :
    s.Fits (heap.push cells) ∧ s.read (heap.push cells) = s.read heap := by
  have hlength := h.length_le
  have harray := h.le_length
  by_cases hroom : 0 < s.start + s.capacity
  · have hlt : s.array < heap.size := Heap.lt_size_of_cells (Nat.lt_of_lt_of_le hroom harray)
    refine ⟨⟨hlength, ?_⟩, ?_⟩
    · rw [Heap.cells_push_of_lt hlt]
      exact harray
    · rw [Slice.read, Slice.read, Heap.cells_push_of_lt hlt]
  · refine ⟨⟨hlength, by omega⟩, ?_⟩
    have hnone : s.length = 0 := by omega
    rw [Slice.read, Slice.read, hnone, List.take_zero, List.take_zero]

/-- Slices lie within arrays that keep their lengths. -/
theorem Slice.Fits.store (h : s.Fits heap)
    (hlengths : ∀ array < heap.size, (heap'.cells array).length = (heap.cells array).length) :
    s.Fits heap' := by
  refine ⟨h.length_le, ?_⟩
  by_cases hroom : 0 < s.start + s.capacity
  · rw [hlengths s.array (Heap.lt_size_of_cells (Nat.lt_of_lt_of_le hroom h.le_length))]
    exact h.le_length
  · omega

/-- A slice of an array that was just allocated fits it. -/
theorem Slice.fits_allocate (ids : List NodeId) (heap : Heap) :
    (allocate ids heap).1.Fits (allocate ids heap).2 := by
  refine ⟨Nat.le_refl _, Nat.le_of_eq ?_⟩
  rw [allocate, Heap.cells_push_size]
  exact Nat.zero_add ids.length

/-- A slice of an array that was just allocated holds what it was made for. -/
theorem Slice.read_allocate (ids : List NodeId) (heap : Heap) :
    (allocate ids heap).1.read (allocate ids heap).2 = ids := by
  rw [read, allocate, Heap.cells_push_size, List.drop_zero, List.take_length]

/-- A slice of an array that was just allocated has no cell in the room behind an older slice. -/
theorem Slice.Fits.avoids_allocate (h : s.Fits heap) (ids : List NodeId) :
    (allocate ids heap).1.Avoids s := by
  rintro array cell ⟨rfl, -, -⟩ ⟨harray, -, hcell⟩
  have hlt : s.array < heap.size := Heap.lt_size_of_cells (Nat.lt_of_lt_of_le hcell h.le_length)
  exact Nat.ne_of_lt hlt harray

/-- The room behind a slice lies within its array. -/
theorem Slice.Fits.add_length_le (hs : s.Fits heap) (hroom : s.length + ids.length ≤ s.capacity) :
    s.start + s.length + ids.length ≤ (heap.cells s.array).length := by
  have harray := hs.le_length
  omega

/-- Nodes that are written to the room behind a slice follow those that it holds. -/
theorem Slice.Fits.read_write (hs : s.Fits heap) (hroom : s.length + ids.length ≤ s.capacity) :
    Slice.read (heap.write s.array (s.start + s.length) ids)
      { s with length := s.length + ids.length } = s.read heap ++ ids := by
  have hwrite := hs.add_length_le hroom
  refine List.ext_getElem? fun i => ?_
  rw [getElem?_read, List.getElem?_append, hs.length_read, getElem?_read]
  simp only [Heap.getElem?_cells_write hwrite]
  by_cases hold : i < s.length
  · rw [if_pos hold, if_pos hold, if_pos (by omega), if_neg (by omega)]
  · rw [if_neg hold]
    by_cases hnew : i < s.length + ids.length
    · rw [if_pos hnew, if_pos (by omega)]
      congr 1
      omega
    · rw [if_neg hnew, List.getElem?_eq_none (by omega)]

/-- Nodes that are written to the room behind a slice do not concern slices without a cell in
it. -/
theorem Slice.Avoids.read_write (havoids : t.Avoids s) (hs : s.Fits heap)
    (hroom : s.length + ids.length ≤ s.capacity) :
    t.read (heap.write s.array (s.start + s.length) ids) = t.read heap := by
  have hwrite := hs.add_length_le hroom
  refine Slice.read_congr fun cell hcell => ?_
  by_cases hsame : s.array = t.array
  · rw [← hsame, Heap.getElem?_cells_write hwrite, if_neg]
    intro hfilled
    exact havoids t.array cell hcell ⟨hsame, by omega, by omega⟩
  · rw [Heap.cells_write_ne hsame]

/-- Appending gives a slice that holds the old nodes and the new ones.  Other slices hold what
they held if they have no cell in the room behind the old slice. -/
theorem Slice.append_spec (room : Nat → Nat → Nat) (hs : s.Fits heap) (ids : List NodeId) :
    ((s.append room ids heap).1.Fits (s.append room ids heap).2 ∧
      (s.append room ids heap).1.read (s.append room ids heap).2 = s.read heap ++ ids) ∧
    ∀ t : Slice, t.Fits heap → t.Fits (s.append room ids heap).2 ∧
      (t.Avoids s → t.read (s.append room ids heap).2 = t.read heap) := by
  unfold Slice.append
  by_cases hroom : s.length + ids.length ≤ s.capacity
  · have hlength (array : Nat) :
        (Heap.cells (heap.write s.array (s.start + s.length) ids) array).length =
          (heap.cells array).length := Heap.length_cells_write (hs.add_length_le hroom) array
    simp only [if_pos hroom]
    refine ⟨⟨⟨hroom, ?_⟩, hs.read_write hroom⟩, fun t ht => ⟨⟨ht.length_le, ?_⟩, fun havoids => ?_⟩⟩
    · rw [hlength]
      exact hs.le_length
    · rw [hlength]
      exact ht.le_length
    · exact havoids.read_write hs hroom
  · -- There is too little room: all nodes move to a new array.
    simp only [if_neg hroom]
    refine ⟨⟨⟨Nat.le_add_right _ _, ?_⟩, ?_⟩, fun t ht => ⟨(ht.push _).1, fun _ => (ht.push _).2⟩⟩
    · simp only [Heap.cells_push_size, List.length_append, List.length_replicate, hs.length_read]
      omega
    · have hall : s.length + ids.length = (s.read heap ++ ids).length := by
        rw [List.length_append, hs.length_read]
      rw [read, Heap.cells_push_size, List.drop_zero]
      exact List.take_left' hall.symm

/-- Appending leaves a slice in its array or moves it to a new one. -/
theorem Slice.append_array (room : Nat → Nat → Nat) (s : Slice) (ids : List NodeId) (heap : Heap) :
    ((s.append room ids heap).1.array = s.array ∧ (s.append room ids heap).2.size = heap.size) ∨
      ((s.append room ids heap).1.array = heap.size ∧
        (s.append room ids heap).2.size = heap.size + 1) := by
  unfold Slice.append
  simp only
  split
  · exact .inl ⟨rfl, Array.size_modify⟩
  · exact .inr ⟨rfl, Array.size_push _⟩

/-! ## Inputs of calls -/

/-- The nodes that a call names as inputs. -/
def Inputs.nodes (heap : Heap) : Inputs → List NodeId
  | .listed ids => ids
  | .slice s => s.read heap

/-- A slice that a call names lies within an array. -/
def Inputs.Fits (heap : Heap) : Inputs → Prop
  | .listed _ => True
  | .slice s => s.Fits heap

instance (heap : Heap) : (inputs : Inputs) → Decidable (inputs.Fits heap)
  | .listed _ => .isTrue trivial
  | .slice s => inferInstanceAs (Decidable (s.Fits heap))

/-- A slice that a call names has no cell in the room behind another one. -/
def Inputs.Avoids (t : Slice) : Inputs → Prop
  | .listed _ => True
  | .slice s => s.Avoids t

variable {inputs : Inputs}

/-- Where the inputs of a call are stored.  Slices that exist are left alone. -/
theorem Inputs.place_spec (h : inputs.Fits heap) :
    ((inputs.place heap).1.Fits (inputs.place heap).2 ∧
      (inputs.place heap).1.read (inputs.place heap).2 = inputs.nodes heap) ∧
    ∀ t : Slice, t.Fits heap → t.Fits (inputs.place heap).2 ∧
      t.read (inputs.place heap).2 = t.read heap ∧
      (inputs.Avoids t → (inputs.place heap).1.Avoids t) := by
  cases inputs with
  | listed ids =>
      refine ⟨⟨Slice.fits_allocate ids heap, Slice.read_allocate ids heap⟩, fun t ht => ?_⟩
      exact ⟨(ht.push ids).1, (ht.push ids).2, fun _ => ht.avoids_allocate ids⟩
  | slice s => exact ⟨⟨h, rfl⟩, fun t ht => ⟨ht, rfl, fun havoids => havoids⟩⟩

end Slices

/-! ## Drafts and their graphs -/

variable {σ : Type} {room : Nat → Nat → Nat}

/-- A call names slices that lie within arrays.  Arrays keep their lengths whatever is stored. -/
def Call.Fits (d : Draft σ) : Call σ → Prop
  | .add _ _ inputs => inputs.Fits d.heap
  | .addMerge _ inputs => inputs.Fits d.heap
  | .addInputs _ inputs => inputs.Fits d.heap
  | .store heap => d.heap.size ≤ heap.size ∧
      ∀ array < d.heap.size, (heap.cells array).length = (d.heap.cells array).length

instance (d : Draft σ) : (c : Call σ) → Decidable (c.Fits d)
  | .add _ _ inputs => inferInstanceAs (Decidable (inputs.Fits d.heap))
  | .addMerge _ inputs => inferInstanceAs (Decidable (inputs.Fits d.heap))
  | .addInputs _ inputs => inferInstanceAs (Decidable (inputs.Fits d.heap))
  | .store _ => inferInstanceAs (Decidable (_ ∧ _))

/-- A call fills no cell that something else holds.  When inputs are appended to a merge node,
neither another node nor the slice that the call names has a cell in the room behind the inputs
of the node.  Whatever is stored, all nodes keep their inputs. -/
def Call.Apart (d : Draft σ) : Call σ → Prop
  | .add _ _ _ => True
  | .addMerge _ _ => True
  | .addInputs id inputs => ∀ n : StoredNode σ, d.nodes[id]? = some n →
      inputs.Avoids n.inputs ∧ ∀ (other : NodeId) (m : StoredNode σ), other ≠ id →
        d.nodes[other]? = some m → m.inputs.Avoids n.inputs
  | .store heap => ∀ (id : NodeId) (n : StoredNode σ), d.nodes[id]? = some n →
      n.inputs.read heap = n.inputs.read d.heap

/-- A call that lists the inputs it names. -/
def Call.isListed : Call σ → Bool
  | .add _ _ (.listed _) => true
  | .addMerge _ (.listed _) => true
  | .addInputs _ (.listed _) => true
  | _ => false

/-- A call that lists its inputs names no slice. -/
theorem Call.fits_of_isListed {d : Draft σ} {c : Call σ} (h : c.isListed = true) : c.Fits d := by
  match c, h with
  | .add _ _ (.listed _), _ => exact trivial
  | .addMerge _ (.listed _), _ => exact trivial
  | .addInputs _ (.listed _), _ => exact trivial

namespace Draft

/-- The drafts that calls lead to, if each call is allowed where it is made. -/
inductive Reached (room : Nat → Nat → Nat) (allowed : Draft σ → Call σ → Prop) :
    Draft σ → Prop where
  | empty : Reached room allowed .empty
  | call {d d' : Draft σ} (c : Call σ) (hd : Reached room allowed d) (hallowed : allowed d c)
      (hcall : d.perform room c = .ok d') : Reached room allowed d'

/-- A draft that calls lead to, whatever they share. -/
def Made (room : Nat → Nat → Nat) (d : Draft σ) : Prop :=
  Reached room (fun d c => c.Fits d) d

/-- A draft that calls lead to which fill no cell that something else holds. -/
def Careful (room : Nat → Nat → Nat) (d : Draft σ) : Prop :=
  Reached room (fun d c => c.Fits d ∧ c.Apart d) d

/-- Fewer calls being allowed leads to fewer drafts. -/
theorem Reached.mono {allowed allowed' : Draft σ → Call σ → Prop} {d : Draft σ}
    (h : d.Reached room allowed) (hle : ∀ d c, allowed d c → allowed' d c) :
    d.Reached room allowed' := by
  induction h with
  | empty => exact .empty
  | call c _ hallowed hcall ih => exact .call c ih (hle _ c hallowed) hcall

/-- A call after those that led to a draft. -/
theorem Made.call {d d' : Draft σ} (h : d.Made room) (c : Call σ) (hfits : c.Fits d)
    (hcall : d.perform room c = .ok d') : d'.Made room :=
  Reached.call c h hfits hcall

/-- Careful drafts are drafts that calls lead to. -/
theorem Careful.made {d : Draft σ} (h : d.Careful room) : d.Made room :=
  Reached.mono h fun _ _ => And.left

/-- The slices of all nodes lie within arrays. -/
def Stored (d : Draft σ) : Prop :=
  ∀ (id : NodeId) (n : StoredNode σ), d.nodes[id]? = some n → n.inputs.Fits d.heap

variable {d d' : Draft σ} {id : NodeId} {inputs : Inputs}

/-- What adding a node does. -/
theorem addNode_eq_ok {name : String} {rule : Rule σ}
    (h : d.addNode name rule inputs = .ok (d', id)) :
    id = d.nodes.size ∧ ∃ readers,
      Graph.link d.nodes.size ((inputs.place d.heap).1.read (inputs.place d.heap).2)
        (d.readers.push []) = .ok readers ∧
      d' = ⟨(inputs.place d.heap).2, d.nodes.push ⟨name, (inputs.place d.heap).1, rule⟩,
        readers⟩ := by
  unfold addNode at h
  simp only [bind, Except.bind, pure, Except.pure] at h
  split at h
  · cases h
  · rename_i readers hlink
    cases h
    exact ⟨rfl, readers, hlink, rfl⟩

/-- What adding inputs does. -/
theorem addInputs_eq_ok (h : d.addInputs room id inputs = .ok d') :
    ∃ n grown heap readers, d.nodes[id]? = some n ∧ n.rule.isMerge = true ∧
      n.inputs.append room ((inputs.place d.heap).1.read (inputs.place d.heap).2)
        (inputs.place d.heap).2 = (grown, heap) ∧
      Graph.link id ((inputs.place d.heap).1.read heap) d.readers = .ok readers ∧
      d' = ⟨heap, d.nodes.setIfInBounds id { n with inputs := grown }, readers⟩ := by
  unfold addInputs at h
  split at h
  · cases h
  · rename_i n hn
    split at h
    · rename_i hmerge
      simp only [bind, Except.bind, pure, Except.pure] at h
      split at h
      · cases h
      · rename_i readers hlink
        cases h
        exact ⟨n, _, _, readers, hn, hmerge, rfl, hlink, rfl⟩
    · cases h

/-- The graph of a draft has as many nodes as the draft. -/
@[simp]
theorem size_graph (d : Draft σ) : d.graph.nodes.size = d.nodes.size := by
  simp [graph]

/-- Adding inputs leaves the slices of all nodes within arrays, whatever they share. -/
theorem Stored.addInputs (hd : d.Stored) (hinputs : inputs.Fits d.heap)
    (h : d.addInputs room id inputs = .ok d') : d'.Stored := by
  obtain ⟨n, grown, heap, readers, hn, -, happend, -, rfl⟩ := addInputs_eq_ok h
  obtain ⟨-, hplaced⟩ := Inputs.place_spec hinputs
  obtain ⟨⟨hgrown, -⟩, hothers⟩ := Slice.append_spec room (hplaced n.inputs (hd id n hn)).1
    ((inputs.place d.heap).1.read (inputs.place d.heap).2)
  rw [happend] at hgrown hothers
  intro j m hm
  rw [Array.getElem?_setIfInBounds] at hm
  split at hm
  · split at hm
    · cases hm
      exact hgrown
    · cases hm
  · exact (hothers m.inputs (hplaced m.inputs (hd j m hm)).1).1

/-- A call that adds a node leads to the draft with that node. -/
theorem exists_addNode_of_map {name : String} {rule : Rule σ}
    (h : (d.addNode name rule inputs).map (·.1) = .ok d') :
    ∃ id, d.addNode name rule inputs = .ok (d', id) := by
  cases hadd : d.addNode name rule inputs with
  | error fault =>
      rw [hadd] at h
      cases h
  | ok added =>
      rw [hadd] at h
      cases h
      exact ⟨added.2, rfl⟩

/-- What a call does.  Both kinds of nodes are added in the same way. -/
theorem perform_cases {c : Call σ} (hfits : c.Fits d) (h : d.perform room c = .ok d') :
    (∃ name rule inputs id, inputs.Fits d.heap ∧ d.addNode name rule inputs = .ok (d', id)) ∨
      (∃ id inputs, c = .addInputs id inputs ∧ inputs.Fits d.heap ∧
        d.addInputs room id inputs = .ok d') ∨
      ∃ heap, c = .store heap ∧ d' = { d with heap } := by
  cases c with
  | add name apply inputs =>
      obtain ⟨id, hadd⟩ := exists_addNode_of_map h
      exact .inl ⟨name, .transfer apply, inputs, id, hfits, hadd⟩
  | addMerge name inputs =>
      obtain ⟨id, hadd⟩ := exists_addNode_of_map h
      exact .inl ⟨name, .merge, inputs, id, hfits, hadd⟩
  | addInputs id inputs => exact .inr (.inl ⟨id, inputs, rfl, hfits, h⟩)
  | store heap =>
      cases h
      exact .inr (.inr ⟨heap, rfl, rfl⟩)

/-- Whatever nodes share, all readers exist. -/
theorem Made.inRange (h : d.Made room) : d.graph.InRange := by
  have hrange : d.readers.size = d.nodes.size ∧
      ∀ a b, b ∈ d.readers.getD a [] → b < d.nodes.size := by
    induction h with
    | empty => exact ⟨rfl, fun a b hb => by simp [empty] at hb⟩
    | call c _ hfits hcall ih =>
        obtain ⟨hsize, hreaders⟩ := ih
        rcases perform_cases hfits hcall with ⟨name, rule, inputs, id, -, hadd⟩ |
          ⟨id, inputs, -, -, hadd⟩ | ⟨heap, rfl, rfl⟩
        · obtain ⟨rfl, readers, hlink, rfl⟩ := addNode_eq_ok hadd
          refine ⟨by simp [(Graph.count_link hlink).1, hsize], fun a b hb => ?_⟩
          rw [Array.size_push]
          rcases Graph.mem_link hlink hb with rfl | hold
          · exact Nat.lt_succ_self _
          · exact Nat.lt_succ_of_lt (hreaders a b (Graph.getD_readers_push _ a ▸ hold))
        · obtain ⟨n, grown, heap, readers, hn, -, -, hlink, rfl⟩ := addInputs_eq_ok hadd
          refine ⟨by simp [(Graph.count_link hlink).1, hsize], fun a b hb => ?_⟩
          rw [Array.size_setIfInBounds]
          rcases Graph.mem_link hlink hb with rfl | hold
          · exact (Array.getElem?_eq_some_iff.mp hn).1
          · exact hreaders a b hold
        · exact ⟨hsize, hreaders⟩
  refine ⟨by rw [size_graph]; exact hrange.1, fun {a b} hb => ?_⟩
  rw [Graph.size, size_graph]
  exact hrange.2 a b hb

/-! ## Calls that list their inputs -/

/-- Each node has an array to itself. -/
structure Separate (d : Draft σ) : Prop where
  lt_size : ∀ (id : NodeId) (n : StoredNode σ), d.nodes[id]? = some n →
    n.inputs.array < d.heap.size
  array_ne : ∀ (i j : NodeId) (m n : StoredNode σ), i ≠ j → d.nodes[i]? = some m →
    d.nodes[j]? = some n → m.inputs.array ≠ n.inputs.array

/-- If each node has an array to itself, a call that lists its inputs fills no cell that something
else holds. -/
theorem Separate.apart {c : Call σ} (hd : d.Separate) (hlisted : c.isListed = true) :
    c.Apart d := by
  match c, hlisted with
  | .add _ _ (.listed _), _ => exact trivial
  | .addMerge _ (.listed _), _ => exact trivial
  | .addInputs id (.listed _), _ =>
      intro n hn
      refine ⟨trivial, fun other m hother hm => ?_⟩
      rintro array cell ⟨hholds, -⟩ ⟨hroom, -⟩
      exact hd.array_ne other id m n hother hm hn (hholds.trans hroom.symm)

/-- Nodes still have arrays to themselves if at most one of them is given another array, which is
new. -/
theorem Separate.of_new (hd : d.Separate) (id : NodeId) (hsize : d.heap.size ≤ d'.heap.size)
    (hnodes : ∀ (j : NodeId) (m : StoredNode σ), d'.nodes[j]? = some m →
      (∃ old, d.nodes[j]? = some old ∧ m.inputs.array = old.inputs.array) ∨
        (j = id ∧ d.heap.size ≤ m.inputs.array ∧ m.inputs.array < d'.heap.size)) :
    d'.Separate := by
  constructor
  · intro j m hm
    rcases hnodes j m hm with ⟨old, hold, harray⟩ | ⟨-, -, hlt⟩
    · have hlt := hd.lt_size j old hold
      omega
    · exact hlt
  · intro i j m n hij hm hn
    rcases hnodes i m hm with ⟨m', hm', hmarray⟩ | ⟨rfl, hmnew, -⟩
    · rcases hnodes j n hn with ⟨n', hn', hnarray⟩ | ⟨-, hnnew, -⟩
      · rw [hmarray, hnarray]
        exact hd.array_ne i j m' n' hij hm' hn'
      · have hlt := hd.lt_size i m' hm'
        omega
    · rcases hnodes j n hn with ⟨n', hn', hnarray⟩ | ⟨rfl, -, -⟩
      · have hlt := hd.lt_size j n' hn'
        omega
      · exact absurd rfl hij

/-- Adding a node with listed inputs gives it an array to itself. -/
theorem Separate.addNode {name : String} {rule : Rule σ} {ids : List NodeId} (hd : d.Separate)
    (h : d.addNode name rule (.listed ids) = .ok (d', id)) : d'.Separate := by
  obtain ⟨rfl, readers, -, rfl⟩ := addNode_eq_ok h
  refine hd.of_new d.nodes.size (by simp [Inputs.place, Slice.allocate]) fun j m hm => ?_
  rw [Array.getElem?_push] at hm
  split at hm
  · rename_i hj
    cases hm
    exact .inr ⟨hj, Nat.le_refl _, by simp [Inputs.place, Slice.allocate]⟩
  · exact .inl ⟨m, hm, rfl⟩

/-- Adding listed inputs leaves every node an array to itself. -/
theorem Separate.addInputs {ids : List NodeId} (hd : d.Separate)
    (h : d.addInputs room id (.listed ids) = .ok d') : d'.Separate := by
  obtain ⟨n, grown, heap, readers, hn, -, happend, -, rfl⟩ := addInputs_eq_ok h
  have hgrown : (grown.array = n.inputs.array ∧ heap.size = d.heap.size + 1) ∨
      (grown.array = d.heap.size + 1 ∧ heap.size = d.heap.size + 2) := by
    have harray := Slice.append_array room n.inputs
      (Slice.read (Inputs.place d.heap (.listed ids)).2 (Inputs.place d.heap (.listed ids)).1)
      (Inputs.place d.heap (.listed ids)).2
    rwa [happend, show (Inputs.place d.heap (.listed ids)).2.size = d.heap.size + 1 from
      Array.size_push ids] at harray
  have hsize : d.heap.size ≤ heap.size := by omega
  refine hd.of_new id hsize fun j m hm => ?_
  rw [Array.getElem?_setIfInBounds] at hm
  split at hm
  · rename_i hj
    subst hj
    split at hm
    · cases hm
      rcases hgrown with ⟨harray, -⟩ | ⟨harray, hsize⟩
      · exact .inl ⟨n, hn, harray⟩
      · have hnew : d.heap.size ≤ grown.array ∧ grown.array < heap.size := by omega
        exact .inr ⟨rfl, hnew⟩
    · cases hm
  · exact .inl ⟨m, hm, rfl⟩

/-- A call that lists its inputs leaves every node an array to itself. -/
theorem Separate.perform {c : Call σ} (hd : d.Separate) (hlisted : c.isListed = true)
    (h : d.perform room c = .ok d') : d'.Separate := by
  match c, hlisted, h with
  | .add _ _ (.listed _), _, h =>
      obtain ⟨id, hadd⟩ := exists_addNode_of_map h
      exact hd.addNode hadd
  | .addMerge _ (.listed _), _, h =>
      obtain ⟨id, hadd⟩ := exists_addNode_of_map h
      exact hd.addNode hadd
  | .addInputs id (.listed _), _, h => exact hd.addInputs h

/-- Calls that list their inputs are careful. -/
theorem Careful.build {calls : List (Call σ)} (hd : d.Careful room) (hseparate : d.Separate)
    (hlisted : calls.all Call.isListed = true) (h : d.build room calls = .ok d') :
    d'.Careful room := by
  induction calls generalizing d with
  | nil =>
      cases h
      exact hd
  | cons c calls ih =>
      obtain ⟨hfirst, hrest⟩ := Bool.and_eq_true_iff.mp (List.all_cons ▸ hlisted)
      rw [Draft.build] at h
      cases hcall : d.perform room c with
      | error fault =>
          rw [hcall] at h
          cases h
      | ok next =>
          rw [hcall] at h
          have hallowed : c.Fits d ∧ c.Apart d :=
            ⟨Call.fits_of_isListed hfirst, hseparate.apart hfirst⟩
          exact ih (.call c hd hallowed hcall) (hseparate.perform hfirst hcall) hrest h

end Draft
end Flow
end WordRanges
