import WordRanges.Flow.Graph

/-!
# Data-flow frameworks

A framework supplies the operations on abstract states that solving a graph needs.
Every use of such an operation, and of a transfer function, is an event; the events of a
run tell how its result came about.

Main definitions:

- {lit}`Framework`: the operations on states.
- {lit}`Event` and {lit}`Event.text`: what happened during a run.
-/

namespace WordRanges
namespace Flow

/-- The operations on abstract states.  The old state is absent when a node had none. -/
structure Framework (σ : Type) where
  /-- Combines the states of two inputs of a merge node. -/
  join : σ → σ → σ
  /-- Takes a merge node's state up, so that ascending runs end. -/
  widen : σ → Option σ → σ
  /-- Takes a merge node's state down. -/
  narrow : σ → Option σ → σ
  /-- The order of states, if ascending runs are to be checked against it. -/
  leq? : Option (σ → σ → Bool)
  /-- How often the state of one merge node may be narrowed; no descending run if none. -/
  maxNarrow : Int

/-- One use of a transfer function or of an operation of the framework. -/
inductive Event (σ : Type) where
  | transfer (name : String) (inputs : List σ) (result : Option σ)
  | join (a b result : σ)
  | widen (new : σ) (old : Option σ) (result : σ)
  | narrow (new : σ) (old : Option σ) (result : σ)
deriving DecidableEq, Repr

/-- The mark of an unreachable node. -/
def bottom : String := "⊥"

/-- The text of an event, given the text of states. -/
def Event.text {σ : Type} (show_ : σ → String) : Event σ → String
  | .transfer name inputs result =>
    name ++ "(" ++ "; ".intercalate (inputs.map show_) ++ ") = " ++ (result.map show_).getD bottom
  | .join a b result => "join(" ++ show_ a ++ "; " ++ show_ b ++ ") = " ++ show_ result
  | .widen new old result =>
    "widen(" ++ show_ new ++ "; " ++ (old.map show_).getD "nil" ++ ") = " ++ show_ result
  | .narrow new old result =>
    "narrow(" ++ show_ new ++ "; " ++ (old.map show_).getD "nil" ++ ") = " ++ show_ result

end Flow
end WordRanges
