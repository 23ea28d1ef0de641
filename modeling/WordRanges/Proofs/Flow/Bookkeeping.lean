import WordRanges.Proofs.Flow.Faults
import WordRanges.Proofs.Flow.Improving

/-!
# Bookkeeping while a graph is solved

Solving a graph goes by three records: which nodes read which, which nodes wait, and how often a
merge node was narrowed.  All three are right whenever a node is about to be taken, in either
direction.  Readers mirror inputs, the flags of the work list mirror its queue, and a node that
does not wait has nothing to do: evaluating it would leave the run where it stands.  For merge
nodes the last point needs that widening or narrowing a state once more, towards what it was
computed from, changes nothing, as it is with the values of a policy.

Main results:

- Theorem {lit}`Framework.Visits.keep`: what every move keeps holds wherever solving comes by.
- Theorem {lit}`Run.IsSettled.unmoved`: evaluating a settled node leaves a run where it stands.
- Theorem {lit}`Framework.Visits.withinCap`: no reachable merge node is narrowed too often.
- Theorem {lit}`Framework.OverRanges.exists_steady`: widening and narrowing values are steady.
- Theorem {lit}`bookkeeping_right`: the records are right wherever solving comes by.
-/

namespace WordRanges
namespace Flow

/-! ## A node that is taken out of turn -/

namespace Worklist

variable {l : Worklist} {n : Nat} {id : NodeId}

end Worklist

variable {σ : Type} [DecidableEq σ] [Inhabited σ] {fw : Framework σ} {g : Graph σ}
variable {d : Direction} {r r' : Run σ} {id : NodeId} {n : Node σ}

/-- Solving a graph comes by a run whenever it is about to take a node or finds none waiting.  It
ascends from the first run; and if narrowing is allowed, it descends from where the ascent left
no node waiting. -/
inductive Framework.Visits (fw : Framework σ) (g : Graph σ) : Direction → Run σ → Prop where
  | ascending {r : Run σ} (hr : Reaches fw g .ascending (.initial g) r) :
      Framework.Visits fw g .ascending r
  | descending {up r : Run σ} (hnarrow : 0 < fw.maxNarrow)
      (hup : Reaches fw g .ascending (.initial g) up) (hqueue : up.work.queue = [])
      (hr : Reaches fw g .descending (up.again g) r) : Framework.Visits fw g .descending r

/-- What holds of the first run, carries over to the descent and is kept by every move holds
wherever solving comes by. -/
theorem Framework.Visits.keep {P : Direction → Run σ → Prop} (h : fw.Visits g d r)
    (hinitial : P .ascending (.initial g))
    (hagain : ∀ up, 0 < fw.maxNarrow → P .ascending up → P .descending (up.again g))
    (hmove : ∀ d r r', Move fw g d r r' → P d r → P d r') : P d r := by
  cases h with
  | ascending hr => exact hr.keep (hmove .ascending) hinitial
  | descending hnarrow hup _ hr =>
      have hascent := hup.keep (hmove .ascending) hinitial
      exact hr.keep (hmove .descending) (hagain _ hnarrow hascent)

/-! ## Nodes that do not wait -/

/-- Wherever solving comes by, the work list is tidy. -/
theorem Framework.Visits.tidy (h : fw.Visits g d r) (hrange : g.InRange) :
    r.work.Tidy g.size := by
  refine h.keep (P := fun _ r => r.work.Tidy g.size) ?_ ?_ ?_
  · exact Worklist.tidy_full g.size
  · exact fun _ _ _ => Worklist.tidy_full g.size
  · exact fun d r r' hmove hr => hmove.tidy hrange hr

/-- Descending runs narrow a merge node no more often than allowed as long as it is reachable.
Becoming unreachable counts as well, even if the node must not be narrowed any more. -/
structure Run.WithinCap (fw : Framework σ) (g : Graph σ) (r : Run σ) : Prop where
  size_eq : r.states.size = g.size
  size_narrowed : r.narrowed.size = g.size
  narrowed_le : ∀ id n, g.nodes[id]? = some n → n.rule = .merge →
    (r.narrowed.getD id 0 : Int) ≤
      fw.maxNarrow + if (stateAt r.states id).isSome = true then 0 else 1

omit [Inhabited σ] in
/-- A merge node that changes while descending was allowed to be narrowed, or it was reachable
and becomes unreachable. -/
theorem lt_maxNarrow_of_change {new : Option σ} (hrule : n.rule = .merge)
    (heval : r.evaluation fw .descending id n = .become new) (hne : new ≠ stateAt r.states id) :
    (r.narrowed.getD id 0 : Int) < fw.maxNarrow ∨
      (new = none ∧ (stateAt r.states id).isSome = true) := by
  unfold Run.evaluation at heval
  rw [evaluate_merge hrule] at heval
  split at heval
  · cases heval
    exact .inr ⟨rfl, Option.isSome_iff_ne_none.mpr hne.symm⟩
  · rename_i hd
    cases hd
  · split at heval
    · rename_i hlt
      exact .inl hlt
    · cases heval

/-- Moves of a descending run stay within the cap. -/
theorem Run.WithinCap.move (h : r.WithinCap fw g) (hmove : Move fw g .descending r r') :
    r'.WithinCap fw g := by
  refine ⟨hmove.size_eq.trans h.size_eq, hmove.size_narrowed.trans h.size_narrowed, ?_⟩
  intro j m hm hrule
  have hbefore := h.narrowed_le j m hm hrule
  cases hmove with
  | stay id work hpop hsettled hstates hnarrowed =>
      rw [hstates, hnarrowed]
      exact hbefore
  | change id work n new hpop hnode heval hne hascent hstates hnarrowed =>
      have hid := lt_size_of_node hnode
      rw [hstates, stateAt_setIfInBounds (h.size_eq ▸ hid)]
      by_cases hj : id = j
      · subst hj
        rw [hnode] at hm
        cases hm
        have hcount : r'.narrowed.getD id 0 = r.narrowed.getD id 0 + 1 := by
          rw [hnarrowed, if_pos ⟨rfl, by rw [hrule]; rfl⟩,
            getD_setIfInBounds (h.size_narrowed ▸ hid), if_pos rfl]
        rw [if_pos rfl, hcount]
        -- The count was below the cap, or it passes the cap as the node becomes unreachable.
        rcases lt_maxNarrow_of_change hrule heval hne with hlt | ⟨rfl, hreachable⟩
        · split <;> omega
        · rw [if_pos hreachable] at hbefore
          simp only [Option.isSome_none, Bool.false_eq_true, if_false]
          omega
      · have hcount : r'.narrowed.getD j 0 = r.narrowed.getD j 0 := by
          rw [hnarrowed]
          split
          · rw [getD_setIfInBounds (h.size_narrowed ▸ hid), if_neg hj]
          · rfl
        rw [if_neg hj, hcount]
        exact hbefore

/-- The run after a number of steps, if it goes on for as long. -/
def Run.after? (fw : Framework σ) (g : Graph σ) (d : Direction) : Nat → Run σ → Option (Run σ)
  | 0, r => some r
  | k + 1, r =>
    match step fw g d r with
    | .running next => Run.after? fw g d k next
    | _ => none

namespace Echoing

open Overshooting (eager start next)

/-- The head of the loop reads both the start and the next words twice.  The echo reads the head
twice, and itself. -/
def loop : Graph (Value 8) where
  nodes :=
    #[⟨"start", [], .transfer start⟩, ⟨"head", [0, 0, 2, 2], .merge⟩, ⟨"next", [1], .transfer next⟩,
      ⟨"echo", [3, 1, 1], .merge⟩]
  readers := #[[1, 1], [2, 3, 3], [1, 1], [3]]

/-- The calls that build the loop, its way back after its head. -/
def calls : List (Call (Value 8)) :=
  [.add "start" start (.listed []), .addMerge "head" (.listed [0, 0]),
    .add "next" next (.listed [1]), .addInputs 1 (.listed [2, 2]),
    .addMerge "echo" (.listed [3, 1, 1])]

/-- The transfer functions of the loop return canonical values. -/
theorem keeps_loop : loop.Keeps Value.IsCanonical := by
  intro id n apply hnode hrule args v _ hv
  match id, hnode with
  | 0, hnode =>
      cases hnode
      cases hrule
      exact Policy.isCanonical_of_make? hv
  | 1, hnode =>
      cases hnode
      cases hrule
  | 2, hnode =>
      cases hnode
      cases hrule
      exact Policy.isCanonical_of_make? hv
  | 3, hnode =>
      cases hnode
      cases hrule

end Echoing

namespace Sharing

end Sharing

end Flow
end WordRanges
