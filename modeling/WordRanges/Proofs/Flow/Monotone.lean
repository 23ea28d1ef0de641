import WordRanges.Proofs.Domain.Combining
import WordRanges.Proofs.Flow.Equations

/-!
# Monotone graphs of values

Larger states of the inputs of a node lead to a larger state of the node: for a merge node
because the hull is the least value that contains its inputs, for a transfer node if its
function is monotone.  An unreachable node counts as the empty set.

Main results:

- Theorem {lit}`Policy.mergeStates_none`: what a merge node combines is a hull.
- Theorem {lit}`within_compute`: what a node computes grows with the states.
- Theorem {lit}`within_of_evaluation`: what a node becomes includes what it computes.
-/

namespace WordRanges

/-! ## Combined states are hulls -/

namespace Policy

variable {w : Nat} {p : Policy} {checked : Bool} {maxNarrow : Int}

/-- The states that reachable inputs have. -/
theorem mem_filterMap_id {states : List (Option (Value w))} {x : Value w} :
    x ∈ states.filterMap id ↔ some x ∈ states := by
  simp [List.mem_filterMap]

/-- The combined state of further inputs is their hull with what was combined so far. -/
theorem mergeStates_some (p : Policy) (checked : Bool) (maxNarrow : Int) (a : Value w)
    (states : List (Option (Value w))) :
    (Flow.mergeStates (p.framework w checked maxNarrow) (some a) states).1 =
      p.hullAll? (a :: states.filterMap id) := by
  induction states generalizing a with
  | nil => rfl
  | cons state states ih =>
      cases state with
      | none => exact ih a
      | some s =>
          rw [Flow.mergeStates]
          split
          · rename_i hsame
            rw [ih a, hsame, List.filterMap_cons, id_eq, hullAll?, hullAll?, List.foldl_cons,
              hull_self]
          · exact ih (p.hull a s)

/-- The combined state of inputs is the hull of those that are reachable. -/
theorem mergeStates_none (p : Policy) (checked : Bool) (maxNarrow : Int)
    (states : List (Option (Value w))) :
    (Flow.mergeStates (p.framework w checked maxNarrow) none states).1 =
      p.hullAll? (states.filterMap id) := by
  induction states with
  | nil => rfl
  | cons state states ih =>
      cases state with
      | none => exact ih
      | some s => exact mergeStates_some p checked maxNarrow s states

/-- The combined state of inputs depends only on the states that reachable inputs have. -/
theorem mergeStates_eq {states states' : List (Option (Value w))}
    (hvalid : ∀ x, some x ∈ states → p.Valid x) (hsame : ∀ x, some x ∈ states ↔ some x ∈ states') :
    (Flow.mergeStates (p.framework w checked maxNarrow) none states).1 =
      (Flow.mergeStates (p.framework w checked maxNarrow) none states').1 := by
  rw [mergeStates_none, mergeStates_none]
  refine hullAll?_eq (fun x hx => hvalid x (mem_filterMap_id.mp hx)) fun x => ?_
  rw [mem_filterMap_id, mem_filterMap_id, hsame]

end Policy

namespace Flow

variable {w : Nat} {p : Policy} {checked : Bool} {maxNarrow : Int} {d : Direction}
variable {g : Graph (Value w)} {r r' : Run (Value w)}

/-! ## Inclusion of states -/

/-- Inclusion of states; that of an unreachable node has no members. -/
def Within : Option (Value w) → Option (Value w) → Prop
  | none, _ => True
  | some _, none => False
  | some a, some b => a.IsSubset b

instance (s t : Option (Value w)) : Decidable (Within s t) :=
  match s, t with
  | none, _ => isTrue trivial
  | some _, none => isFalse id
  | some a, some b => inferInstanceAs (Decidable (a.IsSubset b))

/-- Every state includes itself. -/
theorem Within.refl (s : Option (Value w)) : Within s s := by
  cases s with
  | none => trivial
  | some a => exact Value.IsSubset.refl a

/-- Inclusion of states is transitive. -/
theorem Within.trans {s t u : Option (Value w)} (hst : Within s t) (htu : Within t u) :
    Within s u := by
  cases s with
  | none => trivial
  | some a =>
      cases t with
      | none => exact hst.elim
      | some b =>
          cases u with
          | none => exact htu.elim
          | some c => exact Value.IsSubset.trans hst htu

/-- A state that includes a value is a value that includes it. -/
theorem within_some_iff {a : Value w} {s : Option (Value w)} :
    Within (some a) s ↔ ∃ b, s = some b ∧ a.IsSubset b := by
  cases s with
  | none => simp [Within]
  | some b => simp [Within]

/-- A state that includes a reachable one is reachable. -/
theorem Within.isSome {s t : Option (Value w)} (h : Within s t) (hs : s.isSome = true) :
    t.isSome = true := by
  obtain ⟨a, rfl⟩ := Option.isSome_iff_exists.mp hs
  obtain ⟨b, rfl, -⟩ := within_some_iff.mp h
  rfl

/-- Each state of a run is included in the state that the same node has in another run. -/
def StatesWithin (states states' : States (Value w)) : Prop :=
  ∀ id, Within (stateAt states id) (stateAt states' id)

/-- All states are values of a policy. -/
def StatesValid (p : Policy) (states : States (Value w)) : Prop :=
  ∀ id v, stateAt states id = some v → p.Valid v

/-- The inputs of a node have values of a policy if all nodes do. -/
theorem StatesValid.inputs {states : States (Value w)} (h : StatesValid p states)
    (inputs : List NodeId) (v : Value w) (hv : some v ∈ inputs.map (stateAt states)) :
    p.Valid v := by
  obtain ⟨input, -, hinput⟩ := List.mem_map.mp hv
  exact h input v hinput

/-- If only one node gets a new state, its old and new states decide how all states compare. -/
theorem stateAt_rel_setIfInBounds {R : Option (Value w) → Option (Value w) → Prop}
    (hrefl : ∀ s, R s s) {states : States (Value w)} {id : NodeId} {new : Option (Value w)}
    (hid : id < states.size) (hnew : R (stateAt states id) new) (j : NodeId) :
    R (stateAt states j) (stateAt (states.setIfInBounds id new) j) := by
  rw [stateAt_setIfInBounds hid]
  split
  · rename_i hj
    exact hj ▸ hnew
  · exact hrefl _

/-! ## Monotone transfer functions -/

/-- Larger arguments have results if smaller ones do, and larger results. -/
def MonotoneTransfer (p : Policy) (apply : List (Value w) → Option (Value w)) : Prop :=
  ∀ args args', (∀ a ∈ args, p.Valid a) → (∀ a ∈ args', p.Valid a) →
    List.Forall₂ Value.IsSubset args args' →
      ∀ v, apply args = some v → ∃ v', apply args' = some v' ∧ v.IsSubset v'

/-- All transfer functions of a graph are monotone. -/
def Graph.Monotone (p : Policy) (g : Graph (Value w)) : Prop :=
  ∀ (id : NodeId) (n : Node (Value w)) (apply : List (Value w) → Option (Value w)),
    g.nodes[id]? = some n → n.rule = .transfer apply → MonotoneTransfer p apply

/-- What a node makes of the states of its inputs, neither widened nor narrowed: the result of its
function, or the hull of the reachable inputs. -/
def compute (p : Policy) (n : Node (Value w)) (inputs : List (Option (Value w))) :
    Option (Value w) :=
  match n.rule with
  | .transfer apply => (allStates inputs).bind apply
  | .merge => p.hullAll? (inputs.filterMap id)

/-- A merge node combines the states of its inputs. -/
theorem compute_of_merge {n : Node (Value w)} (hrule : n.rule = .merge) (p : Policy)
    (checked : Bool) (maxNarrow : Int) (inputs : List (Option (Value w))) :
    compute p n inputs = (mergeStates (p.framework w checked maxNarrow) none inputs).1 := by
  rw [Policy.mergeStates_none]
  unfold compute
  rw [hrule]

/-- A transfer node becomes what it computes. -/
theorem compute_of_evaluation {fw : Framework (Value w)} {id : NodeId} {n : Node (Value w)}
    {apply : List (Value w) → Option (Value w)} {new : Option (Value w)} (p : Policy)
    (hrule : n.rule = .transfer apply) (h : r.evaluation fw d id n = .become new) :
    compute p n (n.inputs.map (stateAt r.states)) = new := by
  unfold Run.evaluation at h
  rw [evaluate_transfer hrule] at h
  unfold compute
  rw [hrule]
  exact Evaluation.become.inj h

/-- The hull of the reachable inputs grows with their states. -/
theorem within_hullAll? {inputs inputs' : List (Option (Value w))}
    (hvalid : ∀ v, some v ∈ inputs → p.Valid v) (hvalid' : ∀ v, some v ∈ inputs' → p.Valid v)
    (h : ∀ i ∈ inputs, ∃ i' ∈ inputs', Within i i') :
    Within (p.hullAll? (inputs.filterMap id)) (p.hullAll? (inputs'.filterMap id)) := by
  have hpart {x : Value w} (hx : x ∈ inputs.filterMap id) :
      ∃ o, p.hullAll? (inputs'.filterMap id) = some o ∧ x.IsSubset o := by
    obtain ⟨i, hi, hwithin⟩ := h (some x) (Policy.mem_filterMap_id.mp hx)
    obtain ⟨b, rfl, hxb⟩ := within_some_iff.mp hwithin
    obtain ⟨o, ho, hbo⟩ :=
      Policy.isSubset_hullAll? (fun v hv => hvalid' v (Policy.mem_filterMap_id.mp hv))
        (Policy.mem_filterMap_id.mpr hi)
    exact ⟨o, ho, hxb.trans hbo⟩
  cases hvs : p.hullAll? (inputs.filterMap id) with
  | none => trivial
  | some v =>
      obtain ⟨a, ha⟩ : ∃ a, a ∈ inputs.filterMap id := by
        refine List.exists_mem_of_ne_nil _ fun hnil => ?_
        rw [hnil] at hvs
        cases hvs
      obtain ⟨o, ho, -⟩ := hpart ha
      rw [ho]
      refine Policy.hullAll?_isSubset (fun x hx => hvalid x (Policy.mem_filterMap_id.mp hx))
        (fun x hx => ?_) hvs
      obtain ⟨o', ho', hxo⟩ := hpart hx
      rw [ho] at ho'
      cases ho'
      exact hxo

/-- If all inputs have states, they have states where their states are larger. -/
theorem exists_map_some {args : List (Value w)} {inputs : List (Option (Value w))}
    (h : List.Forall₂ Within (args.map some) inputs) :
    ∃ args', inputs = args'.map some ∧ List.Forall₂ Value.IsSubset args args' := by
  induction args generalizing inputs with
  | nil =>
      cases h
      exact ⟨[], rfl, .nil⟩
  | cons a args ih =>
      obtain ⟨s, rest, hs, hrest, rfl⟩ := List.forall₂_cons_left_iff.mp h
      obtain ⟨b, rfl, hab⟩ := within_some_iff.mp hs
      obtain ⟨args', rfl, hargs⟩ := ih hrest
      exact ⟨b :: args', rfl, .cons hab hargs⟩

/-- What a node computes grows with the states, if its transfer function is monotone. -/
theorem within_compute {n : Node (Value w)} {states states' : States (Value w)}
    (hmono : ∀ apply, n.rule = .transfer apply → MonotoneTransfer p apply)
    (hvalid : StatesValid p states) (hvalid' : StatesValid p states')
    (h : StatesWithin states states') :
    Within (compute p n (n.inputs.map (stateAt states)))
      (compute p n (n.inputs.map (stateAt states'))) := by
  unfold compute
  cases hrule : n.rule with
  | transfer apply =>
      have hpairs : List.Forall₂ Within (n.inputs.map (stateAt states))
          (n.inputs.map (stateAt states')) := by
        rw [List.forall₂_map_left_iff, List.forall₂_map_right_iff]
        exact List.forall₂_same.mpr fun input _ => h input
      simp only
      cases hv : (allStates (n.inputs.map (stateAt states))).bind apply with
      | none => trivial
      | some v =>
          obtain ⟨args, hargs, happly⟩ := Option.bind_eq_some_iff.mp hv
          rw [allStates_eq_some_iff] at hargs
          rw [hargs] at hpairs
          obtain ⟨args', hargs', hsubset⟩ := exists_map_some hpairs
          obtain ⟨v', hv', hvv'⟩ := hmono apply hrule args args'
            (fun a ha => hvalid.inputs n.inputs a (hargs ▸ List.mem_map_of_mem ha))
            (fun a ha => hvalid'.inputs n.inputs a (hargs' ▸ List.mem_map_of_mem ha)) hsubset v
            happly
          rw [allStates_eq_some_iff.mpr hargs', Option.bind_some, hv']
          exact hvv'
  | merge =>
      refine within_hullAll? (hvalid.inputs n.inputs) (hvalid'.inputs n.inputs) fun i hi => ?_
      obtain ⟨input, hinput, rfl⟩ := List.mem_map.mp hi
      exact ⟨_, List.mem_map_of_mem hinput, h input⟩

/-! ## Evaluations -/

/-- What a node becomes includes what it computes. -/
theorem within_of_evaluation {id : NodeId} {n : Node (Value w)} {new : Option (Value w)}
    (hvalid : StatesValid p r.states)
    (h : r.evaluation (p.framework w checked maxNarrow) d id n = .become new) :
    Within (compute p n (n.inputs.map (stateAt r.states))) new := by
  cases hrule : n.rule with
  | transfer apply =>
      rw [compute_of_evaluation p hrule h]
      exact Within.refl _
  | merge =>
      unfold Run.evaluation at h
      rw [compute_of_merge hrule p checked maxNarrow]
      have hmerge (v : Value w) (hv : (mergeStates (p.framework w checked maxNarrow) none
          (n.inputs.map (stateAt r.states))).1 = some v) : p.Valid v :=
        (steady_framework p w checked maxNarrow).mergeStates (fun _ ha => by cases ha)
          (hvalid.inputs n.inputs) hv
      rw [evaluate_merge hrule] at h
      split at h
      · rename_i hnone
        rw [hnone]
        trivial
      · rename_i merged hsome
        cases h
        rw [hsome]
        exact (hmerge merged hsome).isSubset fun x hx => Policy.contains_widen hx
      · rename_i merged hsome
        split at h
        · cases h
          rw [hsome]
          exact (hmerge merged hsome).isSubset fun x hx => Policy.contains_narrow hx
        · cases h

/-- While descending, a node whose state includes what it computes gets a smaller state. -/
theorem evaluation_within {id : NodeId} {n : Node (Value w)} {new : Option (Value w)}
    (hold : Within (compute p n (n.inputs.map (stateAt r.states))) (stateAt r.states id))
    (h : r.evaluation (p.framework w checked maxNarrow) .descending id n = .become new) :
    Within new (stateAt r.states id) := by
  cases hrule : n.rule with
  | transfer apply =>
      rw [compute_of_evaluation p hrule h] at hold
      exact hold
  | merge =>
      unfold Run.evaluation at h
      rw [compute_of_merge hrule p checked maxNarrow] at hold
      rw [evaluate_merge hrule] at h
      split at h
      · cases h
        trivial
      · rename_i hd
        cases hd
      · rename_i merged hsome _
        split at h
        · cases h
          simp only [hsome] at hold
          -- Narrowing gives what is combined or keeps the old state.
          change Within (some (p.narrow merged (stateAt r.states id))) (stateAt r.states id)
          rcases Policy.narrow_cases p merged (stateAt r.states id) with heq | ⟨hkept, -⟩
          · rw [heq]
            exact hold
          · rw [← hkept]
            exact Within.refl _
        · cases h

namespace Counting

/-- The start is monotone. -/
theorem monotoneTransfer_start : MonotoneTransfer Policy.default start := by
  intro args args' _ _ _ u hu
  exact ⟨u, hu, Value.IsSubset.refl u⟩

/-- Counting up is monotone. -/
theorem monotoneTransfer_next : MonotoneTransfer Policy.default next := by
  intro args args' hargs hargs' hsubset u hu
  match args, hu with
  | [v], hu =>
      obtain ⟨v', rest, hv, hrest, rfl⟩ := List.forall₂_cons_left_iff.mp hsubset
      obtain rfl := List.forall₂_nil_left_iff.mp hrest
      obtain ⟨common, hcommon, hu⟩ := Option.bind_eq_some_iff.mp hu
      have hvalid : Policy.default.Valid v := hargs v List.mem_cons_self
      have hmember := (Policy.valid_of_intersect? hvalid hcommon).contains_lo
      obtain ⟨hleft, hright⟩ := (Policy.contains_of_intersect? hcommon).mp hmember
      -- A word that is small stays a member of the larger argument.
      cases hcommon' : Policy.default.intersect? v' small with
      | none => exact absurd hright (Policy.not_contains_of_intersect? hcommon' (hv.contains hleft))
      | some common' =>
          exact ⟨u, by simp only [next, hcommon', Option.bind_some, hu], Value.IsSubset.refl u⟩

/-- The transfer functions of the loop are monotone. -/
theorem monotone_loop : loop.Monotone Policy.default := by
  intro id n apply hnode hrule
  rcases transfer_cases hnode hrule with ⟨-, rfl⟩ | ⟨-, rfl⟩
  · exact monotoneTransfer_start
  · exact monotoneTransfer_next

end Counting

end Flow
end WordRanges
