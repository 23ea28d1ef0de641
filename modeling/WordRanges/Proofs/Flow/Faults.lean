import Mathlib.Logic.Relation
import WordRanges.Proofs.Flow.Ending
import WordRanges.Proofs.Flow.Monotone

/-!
# Faults of ascending runs

An ascending run over values that is checked against inclusion stops as soon as a state does
not include the state that it replaces.  Until then all states rise.  So a merge node that is
reachable keeps a reachable input, and widening its state gives one that includes it; and the
state of a transfer node with a monotone function stays included in what the node computes from
its inputs.  Only a transfer function that is not monotone can cause a fault.

Main results:

- Theorem {lit}`exists_failed_of_steps`: a run that ends with a fault reaches a step that fails.
- Theorem {lit}`statesWithin_of_move`: moves of checked ascending runs let all states rise.
- Theorem {lit}`Run.Grounded.move` and {lit}`Run.Rising.move`: what moves keep while states rise.
- Theorem {lit}`failed_only_if_not_monotone`: only transfer functions that are not monotone
  cause faults.
-/

namespace WordRanges
namespace Flow

/-! ## Steps that are reached -/

section Reaching

variable {σ : Type} [DecidableEq σ] [Inhabited σ] {fw : Framework σ} {g : Graph σ}
variable {d : Direction} {r r' : Run σ} {limit : Nat}

/-- A run gets to another one in some steps. -/
def Reaches (fw : Framework σ) (g : Graph σ) (d : Direction) : Run σ → Run σ → Prop :=
  Relation.ReflTransGen fun r r' => step fw g d r = .running r'

/-- What every move keeps holds of all runs that are reached. -/
theorem Reaches.keep {P : Run σ → Prop} (h : Reaches fw g d r r')
    (hmove : ∀ r r', Move fw g d r r' → P r → P r') (hr : P r) : P r' := by
  induction h with
  | refl => exact hr
  | tail _ hstep ih => exact hmove _ _ (move_of_step hstep) ih

/-- A run that ends with a fault reaches a step that fails. -/
theorem exists_failed_of_steps {fault : Fault σ}
    (h : steps fw g d limit r = some (.error (fault, r'))) :
    ∃ last, Reaches fw g d r last ∧ step fw g d last = .failed fault r' := by
  induction limit generalizing r with
  | zero => cases h
  | succ limit ih =>
      rw [steps] at h
      cases hstep : step fw g d r with
      | finished down =>
          rw [hstep] at h
          cases h
      | failed found down =>
          rw [hstep] at h
          cases h
          exact ⟨r, .refl, hstep⟩
      | running next =>
          rw [hstep] at h
          obtain ⟨last, hlast, hfailed⟩ := ih h
          exact ⟨last, hlast.head hstep, hfailed⟩

/-- A step fails in an ascending run, when the node that was taken becomes a state that it must
not become. -/
theorem ascentFault?_of_failed {fault : Fault σ} (h : step fw g d r = .failed fault r') :
    d = .ascending ∧ ∃ id work n new, r.work.pop? = some (id, work) ∧ g.nodes[id]? = some n ∧
      r.evaluation fw d id n = .become new ∧
        ascentFault? fw n.name (stateAt r.states id) new = some fault := by
  unfold step at h
  split at h
  · cases h
  · rename_i id work hpop
    split at h
    · cases h
    · rename_i n hnode
      simp only at h
      split at h
      · cases h
      · rename_i new hnew
        split at h
        · cases h
        · split at h
          · rename_i found hfault
            cases h
            exact ⟨rfl, id, work, n, new, hpop, hnode, hnew, hfault⟩
          · cases h

/-- Solving a graph fails only if its ascending run does. -/
theorem steps_of_forward_error {out : Outcome σ} {fault : Fault σ}
    (h : fw.forward g limit = some out) (herror : out.result = .error fault) :
    ∃ r', steps fw g .ascending limit (.initial g) = some (.error (fault, r')) := by
  unfold Framework.forward at h
  split at h
  · cases h
  · rename_i e hsteps
    cases h
    cases herror
    exact ⟨e.2, hsteps⟩
  · split at h
    · obtain ⟨last, hlast, rfl⟩ := Option.map_eq_some_iff.mp h
      obtain ⟨down, rfl⟩ := exists_ok_of_descending hlast
      cases herror
    · cases h
      cases herror

end Reaching

/-! ## Rising states -/

variable {w : Nat} {p : Policy} {maxNarrow : Int} {g : Graph (Value w)} {r r' : Run (Value w)}

/-- A checked ascending run accepts the states that include the old one. -/
theorem ascentFault?_eq_none_iff {name : String} {old new : Option (Value w)} :
    ascentFault? (p.framework w true maxNarrow) name old new = none ↔ Within old new := by
  cases old with
  | none => simp [ascentFault?, Within]
  | some a =>
      cases new with
      | none => simp [ascentFault?, Within]
      | some b => simp [ascentFault?, Within, Policy.framework]

/-- Moves of checked ascending runs let all states rise. -/
theorem statesWithin_of_move (hsize : r.states.size = g.size)
    (hmove : Move (p.framework w true maxNarrow) g .ascending r r') :
    StatesWithin r.states r'.states := by
  intro j
  cases hmove with
  | stay id work hpop hsettled hstates =>
      rw [hstates]
      exact Within.refl _
  | change id work n new hpop hnode heval hne hascent hstates =>
      rw [hstates]
      exact stateAt_rel_setIfInBounds Within.refl (hsize ▸ lt_size_of_node hnode)
        (ascentFault?_eq_none_iff.mp (hascent rfl)) j

/-- A run in which every reachable merge node has a reachable input. -/
def Run.Grounded (g : Graph (Value w)) (r : Run (Value w)) : Prop :=
  ∀ id n, g.nodes[id]? = some n → n.rule = .merge → (stateAt r.states id).isSome = true →
    ∃ s ∈ n.inputs.map (stateAt r.states), s.isSome = true

/-- A run in which the states of nodes with monotone transfer functions are included in what the
nodes compute. -/
def Run.Rising (p : Policy) (g : Graph (Value w)) (r : Run (Value w)) : Prop :=
  ∀ id n apply, g.nodes[id]? = some n → n.rule = .transfer apply → MonotoneTransfer p apply →
    Within (stateAt r.states id) (compute p n (n.inputs.map (stateAt r.states)))

/-- The nodes that are reachable in a run stay reachable while states rise. -/
theorem StatesWithin.exists_reachable {states states' : States (Value w)}
    (h : StatesWithin states states') {inputs : List NodeId}
    (hs : ∃ s ∈ inputs.map (stateAt states), s.isSome = true) :
    ∃ s ∈ inputs.map (stateAt states'), s.isSome = true := by
  obtain ⟨s, hs, hreachable⟩ := hs
  obtain ⟨input, hinput, rfl⟩ := List.mem_map.mp hs
  exact ⟨_, List.mem_map_of_mem hinput, (h input).isSome hreachable⟩

/-- Moves keep merge nodes grounded. -/
theorem Run.Grounded.move (hr : r.Grounded g) (hsize : r.states.size = g.size)
    (hmove : Move (p.framework w true maxNarrow) g .ascending r r') : r'.Grounded g := by
  intro j n hnode hrule hreachable
  apply (statesWithin_of_move hsize hmove).exists_reachable
  cases hmove with
  | stay id work hpop hsettled hstates =>
      rw [hstates] at hreachable
      exact hr j n hnode hrule hreachable
  | change id work m new hpop hm heval hne hascent hstates =>
      rw [hstates, stateAt_setIfInBounds (hsize ▸ lt_size_of_node hm)] at hreachable
      split at hreachable
      · rename_i hj
        subst hj
        rw [hm] at hnode
        cases hnode
        exact (isSome_of_evaluate hrule heval).mp hreachable
      · exact hr j n hnode hrule hreachable

/-- Moves keep the states of monotone transfer nodes included in what the nodes compute. -/
theorem Run.Rising.move (hr : r.Rising p g)
    (hvalid : StatesValid p r.states) (hvalid' : StatesValid p r'.states)
    (hsize : r.states.size = g.size)
    (hmove : Move (p.framework w true maxNarrow) g .ascending r r') :
    r'.Rising p g := by
  intro j n apply hnode hrule hmono
  have hrules (f : List (Value w) → Option (Value w)) (hf : n.rule = .transfer f) :
      MonotoneTransfer p f := by
    rw [hrule] at hf
    cases hf
    exact hmono
  refine Within.trans ?_ (within_compute hrules hvalid hvalid' (statesWithin_of_move hsize hmove))
  cases hmove with
  | stay id work hpop hsettled hstates =>
      rw [hstates]
      exact hr j n apply hnode hrule hmono
  | change id work m new hpop hm heval hne hascent hstates =>
      rw [hstates, stateAt_setIfInBounds (hsize ▸ lt_size_of_node hm)]
      split
      · rename_i hj
        subst hj
        rw [hm] at hnode
        cases hnode
        rw [compute_of_evaluation p hrule heval]
        exact Within.refl _
      · exact hr j n apply hnode hrule hmono

/-- All runs that an ascending run reaches have values as states, and are grounded and rising. -/
theorem Reaches.rising (hkeeps : g.Keeps p.Valid)
    (h : Reaches (p.framework w true maxNarrow) g .ascending (.initial g) r) :
    r.OfKind g p.Valid ∧ r.Grounded g ∧ r.Rising p g := by
  have hnone (id : NodeId) : stateAt (Run.initial g).states id = none :=
    stateAt_unreachable g.size id
  have hkeep (r r' : Run (Value w)) (hmove : Move (p.framework w true maxNarrow) g .ascending r r')
      (hr : r.OfKind g p.Valid ∧ r.Grounded g ∧ r.Rising p g) :
      r'.OfKind g p.Valid ∧ r'.Grounded g ∧ r'.Rising p g := by
    obtain ⟨hkind, hgrounded, hrising⟩ := hr
    have hkind' := hkind.move (steady_framework p w true maxNarrow) hkeeps hmove
    exact ⟨hkind', hgrounded.move hkind.size_eq hmove,
      hrising.move hkind.kind hkind'.kind hkind.size_eq hmove⟩
  refine h.keep hkeep ⟨Run.ofKind_initial g p.Valid, ?_, ?_⟩
  · intro id n _ _ hreachable
    rw [hnone] at hreachable
    cases hreachable
  · intro id n apply _ _ _
    rw [hnone]
    trivial

/-! ## Where faults come from -/

/-- What a merge node with a reachable input becomes includes its old state. -/
theorem within_of_evaluation_merge {id : NodeId} {n : Node (Value w)} {new : Option (Value w)}
    (hrule : n.rule = .merge) (hgrounded : r.Grounded g) (hnode : g.nodes[id]? = some n)
    (hvalid : StatesValid p r.states)
    (h : r.evaluation (p.framework w true maxNarrow) .ascending id n = .become new) :
    Within (stateAt r.states id) new := by
  cases hold : stateAt r.states id with
  | none => trivial
  | some o =>
      have hreachable := hgrounded id n hnode hrule (by rw [hold]; rfl)
      have hnew := (isSome_of_evaluate hrule h).mpr hreachable
      unfold Run.evaluation at h
      rw [evaluate_merge hrule, hold] at h
      split at h
      · cases h
        cases hnew
      · cases h
        exact (hvalid id o hold).isSubset fun x hx => Policy.contains_widen_old hx
      · rename_i hd
        cases hd

/-- A step that fails has taken a transfer node whose function is not monotone. -/
theorem exists_transfer_of_failed {fault : Fault (Value w)} (hvalid : StatesValid p r.states)
    (hgrounded : r.Grounded g) (hrising : r.Rising p g)
    (h : step (p.framework w true maxNarrow) g .ascending r = .failed fault r') :
    ∃ id work n apply, r.work.pop? = some (id, work) ∧ g.nodes[id]? = some n ∧
      n.rule = .transfer apply ∧ ¬ MonotoneTransfer p apply := by
  obtain ⟨-, id, work, n, new, hpop, hnode, heval, hfault⟩ := ascentFault?_of_failed h
  have hfalls : ¬ Within (stateAt r.states id) new := by
    intro hwithin
    rw [ascentFault?_eq_none_iff.mpr hwithin] at hfault
    cases hfault
  cases hrule : n.rule with
  | transfer apply =>
      refine ⟨id, work, n, apply, hpop, hnode, hrule, fun hmono => hfalls ?_⟩
      have hrise := hrising id n apply hnode hrule hmono
      rw [compute_of_evaluation p hrule heval] at hrise
      exact hrise
  | merge => exact absurd (within_of_evaluation_merge hrule hgrounded hnode hvalid heval) hfalls

/-- The check of ascending runs against inclusion has no false alarms: a step that fails has
taken a transfer node whose function is not monotone, never a merge node.  If all transfer
functions are monotone, no step fails, and solving the graph gives states whenever it ends. -/
theorem failed_only_if_not_monotone (hkeeps : g.Keeps p.Valid) (maxNarrow : Int) :
    (∀ r fault r', Reaches (p.framework w true maxNarrow) g .ascending (.initial g) r →
      step (p.framework w true maxNarrow) g .ascending r = .failed fault r' →
        ∃ id work n apply, r.work.pop? = some (id, work) ∧ g.nodes[id]? = some n ∧
          n.rule = .transfer apply ∧ ¬ MonotoneTransfer p apply) ∧
    (g.Monotone p →
      (∀ r fault r', Reaches (p.framework w true maxNarrow) g .ascending (.initial g) r →
        step (p.framework w true maxNarrow) g .ascending r ≠ .failed fault r') ∧
      ∀ limit out, (p.framework w true maxNarrow).forward g limit = some out →
        ∃ states, out.result = .ok states) := by
  have htransfer (r : Run (Value w)) (fault : Fault (Value w)) (r' : Run (Value w))
      (hr : Reaches (p.framework w true maxNarrow) g .ascending (.initial g) r)
      (hfailed : step (p.framework w true maxNarrow) g .ascending r = .failed fault r') :
      ∃ id work n apply, r.work.pop? = some (id, work) ∧ g.nodes[id]? = some n ∧
        n.rule = .transfer apply ∧ ¬ MonotoneTransfer p apply := by
    obtain ⟨hkind, hgrounded, hrising⟩ := hr.rising hkeeps
    exact exists_transfer_of_failed hkind.kind hgrounded hrising hfailed
  refine ⟨htransfer, fun hmono => ?_⟩
  have hnever (r : Run (Value w)) (fault : Fault (Value w)) (r' : Run (Value w))
      (hr : Reaches (p.framework w true maxNarrow) g .ascending (.initial g) r) :
      step (p.framework w true maxNarrow) g .ascending r ≠ .failed fault r' := by
    intro hfailed
    obtain ⟨id, work, n, apply, -, hnode, hrule, hnot⟩ := htransfer r fault r' hr hfailed
    exact hnot (hmono id n apply hnode hrule)
  refine ⟨hnever, fun limit out hforward => ?_⟩
  cases hresult : out.result with
  | ok states => exact ⟨states, rfl⟩
  | error fault =>
      obtain ⟨r', hsteps⟩ := steps_of_forward_error hforward hresult
      obtain ⟨last, hlast, hfailed⟩ := exists_failed_of_steps hsteps
      exact absurd hfailed (hnever last fault r' hlast)

/-! ## A loop whose fault is found -/

namespace Flipping

/-- Only zero leads to larger words. -/
def flip : List (Value 8) → Option (Value 8)
  | [v] => if v.hi = 0 then Policy.default.range? 1 10 else none
  | _ => none

/-- The loop: its head is reached from the start and after flipping. -/
def loop : Graph (Value 8) where
  nodes :=
    #[⟨"start", [], .transfer Counting.start⟩, ⟨"head", [0, 2], .merge⟩,
      ⟨"flip", [1], .transfer flip⟩]
  readers := #[[1], [2], [1]]

/-- The transfer functions of the loop return values of the policy. -/
theorem keeps_loop : loop.Keeps Policy.default.Valid := by
  intro id n apply hnode hrule args v _ hv
  match id, hnode with
  | 0, hnode =>
      cases hnode
      cases hrule
      exact Policy.valid_of_make? hv
  | 1, hnode =>
      cases hnode
      cases hrule
  | 2, hnode =>
      cases hnode
      cases hrule
      unfold flip at hv
      split at hv
      · split at hv
        · exact Policy.valid_of_make? hv
        · cases hv
      · cases hv

/-- The ascending run of the loop ends with a fault. -/
theorem exists_fault : ∃ fault r',
    steps (Policy.default.framework 8 true 3) loop .ascending 20 (.initial loop) =
      some (.error (fault, r')) := by
  have hcheck : ((steps (Policy.default.framework 8 true 3) loop .ascending 20
      (.initial loop)).map fun last => last.isOk) = some false := by
    decide +kernel
  obtain ⟨last, hlast, herror⟩ := Option.map_eq_some_iff.mp hcheck
  cases last with
  | ok r => cases herror
  | error e => exact ⟨e.1, e.2, hlast⟩

end Flipping

/-- Flipping makes a step fail, which takes a transfer node whose function is not monotone, and
counting makes none fail. -/
theorem failed_flipping :
    (∃ r fault r', step (Policy.default.framework 8 true 3) Flipping.loop .ascending r =
        .failed fault r' ∧
      ∃ id work n apply, r.work.pop? = some (id, work) ∧ Flipping.loop.nodes[id]? = some n ∧
        n.rule = .transfer apply ∧ ¬ MonotoneTransfer Policy.default apply) ∧
    ∃ out states, (Policy.default.framework 8 true 3).forward Counting.loop 20 = some out ∧
      out.result = .ok states := by
  constructor
  · obtain ⟨fault, r', hsteps⟩ := Flipping.exists_fault
    obtain ⟨r, hr, hfailed⟩ := exists_failed_of_steps hsteps
    have hblamed := (failed_only_if_not_monotone Flipping.keeps_loop 3).1
    exact ⟨r, fault, r', hfailed, hblamed r fault r' hr hfailed⟩
  · have hends : ((Policy.default.framework 8 true 3).forward Counting.loop 20).isSome = true := by
      decide +kernel
    obtain ⟨out, hout⟩ := Option.isSome_iff_exists.mp hends
    obtain ⟨states, hok⟩ :=
      ((failed_only_if_not_monotone Counting.keeps_loop 3).2
        Counting.monotone_loop).2 20 out hout
    exact ⟨out, states, hout, hok⟩

end Flow
end WordRanges
