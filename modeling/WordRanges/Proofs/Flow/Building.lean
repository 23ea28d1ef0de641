import WordRanges.Flow.Graph

/-!
# What building means

A graph is built from the empty one by adding nodes and inputs.  Here each node has a list of
inputs to itself, so that nothing that is added elsewhere changes it.  In such a graph the
readers of a node are exactly the nodes that have it as an input, once for each time.

Main definitions:

- {lit}`Graph.add`, {lit}`Graph.addMerge` and {lit}`Graph.addInputs`: the steps of building.

Main results:

- Theorem {lit}`Graph.Built.wellLinked`: readers and inputs of a built graph belong together.
-/

namespace WordRanges
namespace Flow
namespace Graph

variable {σ : Type} {g : Graph σ}

/-! ## Steps of building -/

/-- A graph with one node more, which is entered as reader of its inputs. -/
def addNode (g : Graph σ) (n : Node σ) : Except BuildFault (Graph σ × NodeId) := do
  let readers ← link g.nodes.size n.inputs (g.readers.push [])
  return (⟨g.nodes.push n, readers⟩, g.nodes.size)

/-- A graph with one more node that applies a function to the states of its inputs. -/
def add (g : Graph σ) (name : String) (apply : List σ → Option σ) (inputs : List NodeId) :
    Except BuildFault (Graph σ × NodeId) :=
  g.addNode ⟨name, inputs, .transfer apply⟩

/-- A graph with one more node that combines its inputs. -/
def addMerge (g : Graph σ) (name : String) (inputs : List NodeId) :
    Except BuildFault (Graph σ × NodeId) :=
  g.addNode ⟨name, inputs, .merge⟩

/-- A graph in which a merge node has further inputs, after those that it had. -/
def addInputs (g : Graph σ) (id : NodeId) (inputs : List NodeId) : Except BuildFault (Graph σ) :=
  match g.nodes[id]? with
  | none => .error (.noSuchNode id)
  | some n =>
    if n.rule.isMerge then do
      let readers ← link id inputs g.readers
      return ⟨g.nodes.setIfInBounds id { n with inputs := n.inputs ++ inputs }, readers⟩
    else
      .error (.notMerge n.name)

/-- The inputs of a node. -/
def inputsOf (g : Graph σ) (id : NodeId) : List NodeId :=
  ((g.nodes[id]?).map (·.inputs)).getD []

/-- Readers and inputs belong together: a node occurs among the readers of another one as
often as that one occurs among its inputs. -/
structure WellLinked (g : Graph σ) : Prop where
  size_eq : g.readers.size = g.nodes.size
  count_eq : ∀ a b, (g.readersOf a).count b = (g.inputsOf b).count a

/-- There are readers for every node, and all of them exist. -/
structure InRange (g : Graph σ) : Prop where
  size_eq : g.readers.size = g.nodes.size
  lt_of_mem_readersOf : ∀ {id reader}, reader ∈ g.readersOf id → reader < g.size

/-- The inputs of a node that exists. -/
theorem inputsOf_eq {n : Node σ} {id : NodeId} (h : g.nodes[id]? = some n) :
    g.inputsOf id = n.inputs := by
  rw [inputsOf, h, Option.map_some, Option.getD_some]

/-- The readers of a node are the nodes that have it as an input. -/
theorem WellLinked.mem_readersOf_iff (h : g.WellLinked) {id reader : NodeId} :
    reader ∈ g.readersOf id ↔ id ∈ g.inputsOf reader := by
  rw [← List.count_pos_iff, h.count_eq, List.count_pos_iff]

/-- An input of a node is read by the node. -/
theorem WellLinked.mem_readersOf (h : g.WellLinked) {n : Node σ} {id input : NodeId}
    (hn : g.nodes[id]? = some n) (hinput : input ∈ n.inputs) : id ∈ g.readersOf input := by
  rw [h.mem_readersOf_iff, inputsOf_eq hn]
  exact hinput

/-- If readers and inputs belong together, all readers exist. -/
theorem WellLinked.inRange (h : g.WellLinked) : g.InRange := by
  refine ⟨h.size_eq, fun {id reader} hreader => ?_⟩
  rw [h.mem_readersOf_iff, inputsOf] at hreader
  rcases Nat.lt_or_ge reader g.size with hlt | hge
  · exact hlt
  · rw [Array.getElem?_eq_none hge] at hreader
    cases hreader

/-! ## Entering readers -/

/-- Entering a reader adds it to the readers of each of its inputs. -/
theorem count_link {reader : NodeId} {inputs : List NodeId} {readers readers' : Array (List NodeId)}
    (h : link reader inputs readers = .ok readers') :
    readers'.size = readers.size ∧ ∀ a b, (readers'.getD a []).count b =
      (readers.getD a []).count b + if b = reader then inputs.count a else 0 := by
  induction inputs generalizing readers with
  | nil =>
      cases h
      simp
  | cons input inputs ih =>
      simp only [link] at h
      split at h
      · rename_i hlt
        obtain ⟨hsize, hcount⟩ := ih h
        refine ⟨by rw [hsize, Array.size_set], ?_⟩
        intro a b
        rw [hcount, Array.getD_eq_getD_getElem?, Array.getD_eq_getD_getElem?, Array.getElem?_set]
        by_cases ha : input = a
        · subst ha
          rw [if_pos rfl, Array.getElem?_eq_getElem hlt]
          simp only [Option.getD_some, List.count_append, List.count_cons, List.count_nil]
          by_cases hb : b = reader
          · subst hb
            simp
            omega
          · simp [hb, Ne.symm hb]
        · simp [ha]
      · cases h

/-- The readers of a node after a reader was entered. -/
theorem mem_link {reader a b : NodeId} {inputs : List NodeId}
    {readers readers' : Array (List NodeId)}
    (h : link reader inputs readers = .ok readers') (hb : b ∈ readers'.getD a []) :
    b = reader ∨ b ∈ readers.getD a [] := by
  rw [← List.count_pos_iff, (count_link h).2] at hb
  split at hb
  · rename_i hreader
    exact .inl hreader
  · exact .inr (List.count_pos_iff.mp hb)

/-- A new node has no readers. -/
theorem getD_readers_push (readers : Array (List NodeId)) (a : NodeId) :
    (readers.push []).getD a [] = readers.getD a [] := by
  rw [Array.getD_eq_getD_getElem?, Array.getD_eq_getD_getElem?, Array.getElem?_push]
  split
  · rename_i ha
    rw [Array.getElem?_eq_none (Nat.le_of_eq ha.symm)]
    rfl
  · rfl

/-! ## What the steps do -/

/-- What adding a node does. -/
theorem addNode_eq_ok {g' : Graph σ} {n : Node σ} {id : NodeId} (h : g.addNode n = .ok (g', id)) :
    ∃ readers, link g.nodes.size n.inputs (g.readers.push []) = .ok readers ∧
      g' = ⟨g.nodes.push n, readers⟩ := by
  unfold Graph.addNode at h
  cases hlink : link g.nodes.size n.inputs (g.readers.push []) with
  | error fault =>
      rw [hlink] at h
      cases h
  | ok readers =>
      rw [hlink] at h
      cases h
      exact ⟨readers, rfl, rfl⟩

/-- What adding inputs does. -/
theorem addInputs_eq_ok {g' : Graph σ} {id : NodeId} {inputs : List NodeId}
    (h : g.addInputs id inputs = .ok g') :
    ∃ n readers, g.nodes[id]? = some n ∧ n.rule.isMerge = true ∧
      link id inputs g.readers = .ok readers ∧
      g' = ⟨g.nodes.setIfInBounds id { n with inputs := n.inputs ++ inputs }, readers⟩ := by
  unfold Graph.addInputs at h
  split at h
  · cases h
  · rename_i n hn
    split at h
    · rename_i hmerge
      cases hlink : link id inputs g.readers with
      | error fault =>
          rw [hlink] at h
          cases h
      | ok readers =>
          rw [hlink] at h
          cases h
          exact ⟨n, readers, hn, hmerge, rfl, rfl⟩
    · cases h

/-- Adding a node keeps a graph well linked. -/
theorem WellLinked.addNode {g' : Graph σ} {n : Node σ} {id : NodeId} (hg : g.WellLinked)
    (h : g.addNode n = .ok (g', id)) : g'.WellLinked := by
  obtain ⟨readers, hlink, rfl⟩ := addNode_eq_ok h
  obtain ⟨hsize, hcount⟩ := count_link hlink
  refine ⟨by simp [hsize, hg.size_eq], ?_⟩
  intro a b
  have hold : ((g.readers.push []).getD a []).count b = (g.inputsOf b).count a := by
    rw [← hg.count_eq, readersOf, getD_readers_push]
  rw [readersOf, hcount, hold, inputsOf, inputsOf, Array.getElem?_push]
  by_cases hb : b = g.nodes.size
  · subst hb
    simp
  · simp [hb]

/-- Adding inputs keeps a graph well linked. -/
theorem WellLinked.addInputs {g' : Graph σ} {id : NodeId} {inputs : List NodeId}
    (hg : g.WellLinked) (h : g.addInputs id inputs = .ok g') : g'.WellLinked := by
  obtain ⟨n, readers, hn, -, hlink, rfl⟩ := addInputs_eq_ok h
  obtain ⟨hsize, hcount⟩ := count_link hlink
  refine ⟨by simp [hsize, hg.size_eq], ?_⟩
  intro a b
  have hold := hg.count_eq a b
  unfold readersOf at hold
  rw [readersOf, hcount, hold, inputsOf, inputsOf, Array.getElem?_setIfInBounds]
  have hid : id < g.nodes.size := (Array.getElem?_eq_some_iff.mp hn).1
  by_cases hb : b = id
  · subst hb
    rw [if_pos rfl, if_pos rfl, if_pos hid, hn]
    exact List.count_append.symm
  · simp [hb, Ne.symm hb]

end Graph
end Flow
end WordRanges
