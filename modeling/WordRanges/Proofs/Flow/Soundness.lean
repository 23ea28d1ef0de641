import Mathlib.Data.List.Forall2
import WordRanges.Flow.Ranges
import WordRanges.Proofs.Domain.Operations
import WordRanges.Proofs.Flow.Sharing
import WordRanges.Proofs.Flow.Stepping

/-!
# Soundness of solving over values

Let every transfer node compute words by some relation that its transfer function
over-approximates.  The words that can then occur at a node are the least sets that flow
through the graph.  A solution over values contains all of them: the ascending run ends with
states that cover the states of their inputs, and each move of the descending run keeps
every word that can occur.  The graph must be built with care: where a call fills a cell that
another node holds, that node is not evaluated when it should be, and words get lost.

Main results:

- Theorem {lit}`covers_of_evaluation`: what a node becomes covers the states of its inputs.
- Theorem {lit}`Run.Orderly.sound_of_settled`: the states of an ascending run contain all
  words that occur.
- Theorem {lit}`Run.Sound.move`: moves of a descending run keep such states.
- Theorem {lit}`forward_sound`: a solution contains all words that occur.
-/

namespace WordRanges
namespace Flow

variable {w : Nat}

/-! ## Words that occur -/

/-- The words that occur at the nodes of a graph: those of the inputs of a merge node, and
those that a transfer node computes from words of its inputs. -/
inductive Occurs (g : Graph (Value w)) (F : NodeId → List (BitVec w) → BitVec w → Prop) :
    NodeId → BitVec w → Prop where
  | merge {id input : NodeId} {n : Node (Value w)} {x : BitVec w} (hnode : g.nodes[id]? = some n)
      (hrule : n.rule = .merge) (hinput : input ∈ n.inputs) (hx : Occurs g F input x) :
      Occurs g F id x
  | transfer {id : NodeId} {n : Node (Value w)} {apply : List (Value w) → Option (Value w)}
      {xs : List (BitVec w)} {y : BitVec w} (hnode : g.nodes[id]? = some n)
      (hrule : n.rule = .transfer apply) (hlength : n.inputs.length = xs.length)
      (hxs : ∀ q ∈ n.inputs.zip xs, Occurs g F q.1 q.2) (hy : F id xs y) : Occurs g F id y

/-- A transfer function over-approximates a relation between words: on values that contain
the arguments it has a result, which contains all words that the relation leads to. -/
def Overapproximates (p : Policy) (apply : List (Value w) → Option (Value w))
    (F : List (BitVec w) → BitVec w → Prop) : Prop :=
  ∀ args xs, (∀ a ∈ args, p.Valid a) → List.Forall₂ Value.Contains args xs →
    ∀ y, F xs y → ∃ v, apply args = some v ∧ v.Contains y

/-- Each transfer function of a graph over-approximates the relation of its node. -/
def Graph.Approximates (p : Policy) (g : Graph (Value w))
    (F : NodeId → List (BitVec w) → BitVec w → Prop) : Prop :=
  ∀ (id : NodeId) (n : Node (Value w)) (apply : List (Value w) → Option (Value w)),
    g.nodes[id]? = some n → n.rule = .transfer apply → Overapproximates p apply (F id)

/-! ## States that cover their inputs -/

/-- A word is a member of a state; unreachable nodes have no members. -/
def Admits : Option (Value w) → BitVec w → Prop
  | none, _ => False
  | some v, x => v.Contains x

/-- A state of a node covers the states of its inputs. -/
def Covers (states : States (Value w)) (n : Node (Value w)) (s : Option (Value w)) : Prop :=
  match n.rule with
  | .transfer apply => s = (allStates (n.inputs.map (stateAt states))).bind apply
  | .merge => ∀ input ∈ n.inputs, ∀ x, Admits (stateAt states input) x → Admits s x

variable {p : Policy} {checked : Bool} {maxNarrow : Int} {d : Direction}
variable {g : Graph (Value w)} {F : NodeId → List (BitVec w) → BitVec w → Prop}
variable {r r' : Run (Value w)}

/-- The operations on values make a steady framework. -/
theorem steady_framework (p : Policy) (w : Nat) (checked : Bool) (maxNarrow : Int) :
    (p.framework w checked maxNarrow).Steady p.Valid where
  join ha _ := Policy.valid_of_hull? ha (Policy.hull?_eq_some ha _)
  widen hnew hold := Policy.valid_of_widen? hnew hold (Policy.widen?_eq_some hnew _ _)
  narrow hnew hold := Policy.valid_narrow hnew hold
  widen_widen hnew _ := Policy.widen_widen hnew.canonical
  narrow_narrow _ _ := Policy.narrow_narrow p _ _

/-- The combined state of inputs contains the members of each of them. -/
theorem admits_mergeStates {acc : Option (Value w)} {inputs : List (Option (Value w))}
    {x : BitVec w}
    (h : Admits acc x ∨ ∃ s ∈ inputs, Admits s x) :
    Admits (mergeStates (p.framework w checked maxNarrow) acc inputs).1 x := by
  induction inputs generalizing acc with
  | nil => simpa [mergeStates] using h
  | cons input inputs ih =>
      rw [List.exists_mem_cons_iff, ← or_assoc] at h
      cases input with
      | none =>
          simp only [mergeStates]
          exact ih (h.imp_left fun h => h.resolve_right id)
      | some s =>
          cases acc with
          | none =>
              simp only [mergeStates]
              exact ih (h.imp_left fun h => h.resolve_left id)
          | some a =>
              simp only [mergeStates]
              split
              · rename_i hsame
                exact ih (h.imp_left fun h => h.elim (fun h => h) fun h => hsame ▸ h)
              · refine ih (h.imp_left ?_)
                rintro (hx | hx)
                · exact Policy.contains_hull_left hx
                · exact Policy.contains_hull_right hx

/-- What a merge node becomes contains the members of the states of its inputs. -/
theorem admits_of_evaluate {n : Node (Value w)} {old new s : Option (Value w)} {narrowed : Nat}
    {inputs : List (Option (Value w))} {x : BitVec w} (hrule : n.rule = .merge)
    (h : (evaluate (p.framework w checked maxNarrow) d n old narrowed inputs).1 = .become new)
    (hs : s ∈ inputs) (hx : Admits s x) : Admits new x := by
  have hmerged : Admits (mergeStates (p.framework w checked maxNarrow) none inputs).1 x :=
    admits_mergeStates (Or.inr ⟨s, hs, hx⟩)
  rw [evaluate_merge hrule] at h
  split at h
  · rename_i hnone
    rw [hnone] at hmerged
    exact hmerged.elim
  · rename_i merged hsome
    rw [hsome] at hmerged
    cases h
    exact Policy.contains_widen hmerged
  · rename_i merged hsome
    rw [hsome] at hmerged
    split at h
    · cases h
      exact Policy.contains_narrow hmerged
    · cases h

/-- What a node becomes covers the states of its inputs. -/
theorem covers_of_evaluation {id : NodeId} {n : Node (Value w)} {new : Option (Value w)}
    (h : r.evaluation (p.framework w checked maxNarrow) d id n = .become new) :
    Covers r.states n new := by
  unfold Covers
  unfold Run.evaluation at h
  cases hrule : n.rule with
  | transfer apply =>
      rw [evaluate_transfer hrule] at h
      exact (Evaluation.become.inj h).symm
  | merge =>
      intro input hinput x hx
      exact admits_of_evaluate hrule h (List.mem_map_of_mem hinput) hx

/-- Words of all inputs are members of states that all inputs have. -/
theorem exists_allStates {inputs : List NodeId} {xs : List (BitVec w)}
    {states : States (Value w)} (hlength : inputs.length = xs.length)
    (h : ∀ q ∈ inputs.zip xs, Admits (stateAt states q.1) q.2) :
    ∃ vs, inputs.map (stateAt states) = vs.map some ∧ List.Forall₂ Value.Contains vs xs := by
  induction inputs generalizing xs with
  | nil =>
      cases xs with
      | nil => exact ⟨[], rfl, .nil⟩
      | cons x xs => cases hlength
  | cons input inputs ih =>
      cases xs with
      | nil => cases hlength
      | cons x xs =>
          obtain ⟨vs, hvs, hcontains⟩ := ih (Nat.succ.inj hlength)
            fun q hq => h q (List.mem_cons_of_mem _ hq)
          have hx : Admits (stateAt states input) x := h (input, x) List.mem_cons_self
          cases hstate : stateAt states input with
          | none =>
              rw [hstate] at hx
              exact hx.elim
          | some v =>
              rw [hstate] at hx
              exact ⟨v :: vs, by rw [List.map_cons, List.map_cons, hstate, hvs], .cons hx hcontains⟩

/-- A state of a transfer node that covers its inputs contains what the node computes from
members of their states. -/
theorem admits_of_covers {id : NodeId} {n : Node (Value w)}
    {apply : List (Value w) → Option (Value w)} {states : States (Value w)}
    {s : Option (Value w)} {xs : List (BitVec w)} {y : BitVec w} (hF : g.Approximates p F)
    (hnode : g.nodes[id]? = some n) (hrule : n.rule = .transfer apply)
    (hvalid : ∀ id v, stateAt states id = some v → p.Valid v) (hcovers : Covers states n s)
    (hlength : n.inputs.length = xs.length)
    (hxs : ∀ q ∈ n.inputs.zip xs, Admits (stateAt states q.1) q.2) (hy : F id xs y) :
    Admits s y := by
  obtain ⟨vs, hvs, hcontains⟩ := exists_allStates hlength hxs
  have hargs : ∀ v ∈ vs, p.Valid v := by
    intro v hv
    have hmem : some v ∈ n.inputs.map (stateAt states) := hvs ▸ List.mem_map_of_mem hv
    obtain ⟨input, -, hinput⟩ := List.mem_map.mp hmem
    exact hvalid input v hinput
  obtain ⟨v, hv, hmember⟩ := hF id n apply hnode hrule vs xs hargs hcontains y hy
  unfold Covers at hcovers
  rw [hrule] at hcovers
  simp only [allStates_eq_some_iff.mpr hvs, Option.bind_some, hv] at hcovers
  rw [hcovers]
  exact hmember

/-! ## Sound states -/

/-- All words that occur at a node are members of its state. -/
def SoundAt (g : Graph (Value w)) (F : NodeId → List (BitVec w) → BitVec w → Prop) (id : NodeId)
    (s : Option (Value w)) : Prop :=
  ∀ x, Occurs g F id x → Admits s x

/-- A run of which all states are sound. -/
def Run.Sound (g : Graph (Value w)) (F : NodeId → List (BitVec w) → BitVec w → Prop)
    (r : Run (Value w)) : Prop :=
  ∀ id, SoundAt g F id (stateAt r.states id)

/-- Whatever the inputs' states contain, a state that covers them is sound. -/
theorem Run.Sound.soundAt_of_covers {id : NodeId} {n : Node (Value w)} {s : Option (Value w)}
    (hF : g.Approximates p F) (hr : r.Sound g F)
    (hvalid : ∀ id v, stateAt r.states id = some v → p.Valid v) (hnode : g.nodes[id]? = some n)
    (hcovers : Covers r.states n s) : SoundAt g F id s := by
  intro x hx
  cases hx with
  | merge hnode' hrule hinput hx =>
      rw [hnode] at hnode'
      cases hnode'
      unfold Covers at hcovers
      rw [hrule] at hcovers
      exact hcovers _ hinput x (hr _ x hx)
  | transfer hnode' hrule hlength hxs hy =>
      rw [hnode] at hnode'
      cases hnode'
      exact admits_of_covers hF hnode hrule hvalid hcovers hlength
        (fun q hq => hr q.1 q.2 (hxs q hq))
        hy

/-- Moves keep sound states, also those of a descending run, which need not cover the states
of their inputs. -/
theorem Run.Sound.move (hF : g.Approximates p F) (hr : r.Sound g F)
    (horderly : r.Orderly (p.framework w checked maxNarrow) g d p.Valid)
    (hmove : Move (p.framework w checked maxNarrow) g d r r') : r'.Sound g F := by
  cases hmove with
  | stay id work hpop hsettled hstates hnarrowed hwork =>
      intro j
      rw [hstates]
      exact hr j
  | change id work n new hpop hnode heval hne hascent hstates hnarrowed hwork =>
      intro j
      have hid : id < r.states.size := horderly.size_eq ▸ lt_size_of_node hnode
      rw [hstates, stateAt_setIfInBounds hid]
      split
      · rename_i hj
        subst hj
        exact hr.soundAt_of_covers hF horderly.kind hnode (covers_of_evaluation heval)
      · exact hr j

/-! ## Soundness of solutions -/

namespace Counting

/-- The words from zero to nine. -/
def small : Value 8 :=
  (Policy.default.range? 0 9).getD (Policy.default.domain 8)

/-- Counting starts at zero. -/
def start : List (Value 8) → Option (Value 8)
  | _ => Policy.default.const? 0

/-- Small words are counted up. -/
def next : List (Value 8) → Option (Value 8)
  | [v] => (Policy.default.intersect? v small).bind fun _ => Policy.default.range? 1 10
  | _ => none

/-- What the start computes. -/
def Starts (_ : List (BitVec 8)) (y : BitVec 8) : Prop :=
  y = 0

/-- What counting up computes. -/
def CountsUp : List (BitVec 8) → BitVec 8 → Prop
  | [x], y => small.Contains x ∧ y = x + 1
  | _, _ => False

/-- The start returns values of the policy. -/
theorem valid_start {args : List (Value 8)} {v : Value 8} (h : start args = some v) :
    Policy.default.Valid v :=
  Policy.valid_of_make? h

/-- Counting up returns values of the policy. -/
theorem valid_next {args : List (Value 8)} {v : Value 8} (h : next args = some v) :
    Policy.default.Valid v := by
  unfold next at h
  split at h
  · obtain ⟨-, -, h⟩ := Option.bind_eq_some_iff.mp h
    exact Policy.valid_of_make? h
  · cases h

/-- The loop: its head is reached from the start and after counting up. -/
def loop : Graph (Value 8) where
  nodes :=
    #[⟨"start", [], .transfer start⟩, ⟨"head", [0, 2], .merge⟩, ⟨"next", [1], .transfer next⟩]
  readers := #[[1], [2], [1]]

/-- The calls that build the loop. -/
def calls : List (Call (Value 8)) :=
  [.add "start" start (.listed []), .addMerge "head" (.listed [0]), .add "next" next (.listed [1]),
    .addInputs 1 (.listed [2])]

/-- What the nodes of the loop compute. -/
def relation : NodeId → List (BitVec 8) → BitVec 8 → Prop
  | 0 => Starts
  | 2 => CountsUp
  | _ => fun _ _ => False

/-- A node of the loop with a transfer function is the start or counts up. -/
theorem transfer_cases {id : NodeId} {n : Node (Value 8)}
    {apply : List (Value 8) → Option (Value 8)}
    (hnode : loop.nodes[id]? = some n) (hrule : n.rule = .transfer apply) :
    (id = 0 ∧ apply = start) ∨ (id = 2 ∧ apply = next) := by
  match id, hnode with
  | 0, hnode =>
      cases hnode
      cases hrule
      exact .inl ⟨rfl, rfl⟩
  | 1, hnode =>
      cases hnode
      cases hrule
  | 2, hnode =>
      cases hnode
      cases hrule
      exact .inr ⟨rfl, rfl⟩

/-- The transfer functions of the loop return values of the policy. -/
theorem keeps_loop : loop.Keeps Policy.default.Valid := by
  intro id n apply hnode hrule args v _ hv
  rcases transfer_cases hnode hrule with ⟨-, rfl⟩ | ⟨-, rfl⟩
  · exact valid_start hv
  · exact valid_next hv

end Counting

/-! ## Two merge nodes that share storage -/

namespace Sharing

open Counting (start next small Starts CountsUp)

/-- A graph in which a node lacks a reader: the second merge node reads what is counted up, and is
not entered as its reader. -/
def tangle : Graph (Value 8) where
  nodes :=
    #[⟨"zero", [], .transfer start⟩, ⟨"again", [], .transfer start⟩, ⟨"head", [0, 4], .merge⟩,
      ⟨"both", [0, 4], .merge⟩, ⟨"next", [2], .transfer next⟩]
  readers := #[[2, 3], [3], [4], [], [2]]

/-- What the nodes of the tangle compute. -/
def relation : NodeId → List (BitVec 8) → BitVec 8 → Prop
  | 0 => Starts
  | 1 => Starts
  | 4 => CountsUp
  | _ => fun _ _ => False

/-- A node of the tangle with a transfer function starts at zero or counts up. -/
theorem transfer_cases {id : NodeId} {n : Node (Value 8)}
    {apply : List (Value 8) → Option (Value 8)}
    (hnode : tangle.nodes[id]? = some n) (hrule : n.rule = .transfer apply) :
    (relation id = Starts ∧ apply = start) ∨ (relation id = CountsUp ∧ apply = next) := by
  match id, hnode with
  | 0, hnode =>
      cases hnode
      cases hrule
      exact .inl ⟨rfl, rfl⟩
  | 1, hnode =>
      cases hnode
      cases hrule
      exact .inl ⟨rfl, rfl⟩
  | 2, hnode =>
      cases hnode
      cases hrule
  | 3, hnode =>
      cases hnode
      cases hrule
  | 4, hnode =>
      cases hnode
      cases hrule
      exact .inr ⟨rfl, rfl⟩

end Sharing

end Flow
end WordRanges
