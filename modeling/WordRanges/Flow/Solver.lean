import WordRanges.Flow.Framework
import WordRanges.Flow.States
import WordRanges.Flow.Worklist

/-!
# Solving data-flow graphs

A run evaluates the waiting nodes one after the other.  When the state of a node
changes, its readers wait again; the run ends when no node waits.  Ascending, merge nodes
are widened; descending, they are narrowed, each a limited number of times.  A transfer
function that is not monotone is found out while ascending and stops the run.

Main definitions:

- {lit}`evaluate`: the state of one node from the states of its inputs.
- {lit}`step`: take a node from the work list and evaluate it.
- {lit}`Framework.forward`: an ascending run and, if narrowing is allowed, a descending one.
-/

namespace WordRanges
namespace Flow

variable {σ : Type}

/-! ## Runs and their states -/

/-- The direction of a run. -/
inductive Direction where
  | ascending
  | descending
deriving DecidableEq, Repr

/-- Where a run stands. -/
structure Run (σ : Type) where
  states : States σ
  /-- How often each node was narrowed. -/
  narrowed : Array Nat
  work : Worklist
  /-- How many nodes were evaluated, over all runs. -/
  evaluations : Nat
  /-- What happened, over all runs, the latest event first. -/
  events : List (Event σ)
deriving DecidableEq, Repr

/-- Why a run stops early: a transfer function is not monotone. -/
inductive Fault (σ : Type) where
  | becameUnreachable (name : String)
  | notAscending (name : String) (old new : σ)
deriving DecidableEq, Repr

/-- The wording of a fault, given the text of states. -/
def Fault.message (show_ : σ → String) : Fault σ → String
  | .becameUnreachable name =>
    "transfer function isn't monotonic; " ++ name ++ " became unreachable"
  | .notAscending name old new =>
    "transfer function isn't monotonic; " ++ name ++ " went from " ++ show_ old ++ " to "
      ++ show_ new

/-! ## Evaluating a node -/

/-- The combined state of the reachable inputs of a merge node, and the events of
combining them.  Inputs equal to what was combined so far are passed over. -/
def mergeStates [DecidableEq σ] (fw : Framework σ) :
    Option σ → List (Option σ) → Option σ × List (Event σ)
  | acc, [] => (acc, [])
  | acc, none :: rest => mergeStates fw acc rest
  | none, some s :: rest => mergeStates fw (some s) rest
  | some a, some s :: rest =>
    if s = a then
      mergeStates fw (some a) rest
    else
      let joined := fw.join a s
      let (result, events) := mergeStates fw (some joined) rest
      (result, .join a s joined :: events)

/-- The states of all inputs; nothing if one of them is unreachable. -/
def allStates : List (Option σ) → Option (List σ)
  | [] => some []
  | none :: _ => none
  | some s :: rest => (allStates rest).map (s :: ·)

/-- What evaluating a node leads to. -/
inductive Evaluation (σ : Type) where
  /-- The state of the node is kept because it must not be narrowed any more. -/
  | keep
  /-- The node gets a state or becomes unreachable. -/
  | become (state : Option σ)
deriving DecidableEq, Repr

/-- The state of a node from the states of its inputs, and the events of computing it, in
order. -/
def evaluate [DecidableEq σ] (fw : Framework σ) (direction : Direction) (n : Node σ)
    (old : Option σ) (narrowed : Nat) (inputs : List (Option σ)) :
    Evaluation σ × List (Event σ) :=
  match n.rule with
  | .transfer apply =>
    match allStates inputs with
    | none => (.become none, [])
    | some states => (.become (apply states), [.transfer n.name states (apply states)])
  | .merge =>
    match mergeStates fw none inputs with
    | (none, events) => (.become none, events)
    | (some new, events) =>
      match direction with
      | .ascending =>
        let state := fw.widen new old
        (.become (some state), events ++ [.widen new old state])
      | .descending =>
        if (narrowed : Int) < fw.maxNarrow then
          let state := fw.narrow new old
          (.become (some state), events ++ [.narrow new old state])
        else
          (.keep, events)

/-! ## Stepping through a run -/

/-- A change of an ascending run that only a transfer function that is not monotone makes. -/
def ascentFault? (fw : Framework σ) (name : String) (old new : Option σ) : Option (Fault σ) :=
  match old, new with
  | none, _ => none
  | some _, none => some (.becameUnreachable name)
  | some old, some new =>
    match fw.leq? with
    | none => none
    | some leq => if leq old new then none else some (.notAscending name old new)

/-- Where one step leads. -/
inductive Progress (σ : Type) where
  /-- No node waits. -/
  | finished (run : Run σ)
  /-- A node was evaluated. -/
  | running (run : Run σ)
  /-- A node was evaluated and a transfer function turned out not to be monotone. -/
  | failed (fault : Fault σ) (run : Run σ)
deriving DecidableEq, Repr

/-- Give a node a new state and let its readers wait. -/
def setState [Inhabited σ] (g : Graph σ) (direction : Direction) (n : Node σ) (id : NodeId)
    (new : Option σ) (r : Run σ) : Run σ where
  states := r.states.setIfInBounds id new
  narrowed :=
    if direction = .descending ∧ n.rule.isMerge then
      r.narrowed.setIfInBounds id (r.narrowed.getD id 0 + 1)
    else
      r.narrowed
  work := r.work.pushAll (g.readersOf id)
  evaluations := r.evaluations
  events := r.events

/-- Take the first waiting node and evaluate it. -/
def step [DecidableEq σ] [Inhabited σ] (fw : Framework σ) (g : Graph σ) (direction : Direction)
    (r : Run σ) : Progress σ :=
  match r.work.pop? with
  | none => .finished r
  | some (id, work) =>
    match g.nodes[id]? with
    | none => .running { r with work := work, evaluations := r.evaluations + 1 }
    | some n =>
      let old := stateAt r.states id
      let (evaluation, events) :=
        evaluate fw direction n old (r.narrowed.getD id 0) (n.inputs.map (stateAt r.states))
      let r : Run σ :=
        { r with
          work := work
          evaluations := r.evaluations + 1
          events := events.reverse ++ r.events }
      match evaluation with
      | .keep => .running r
      | .become new =>
        if new = old then
          .running r
        else
          match direction, ascentFault? fw n.name old new with
          | .ascending, some fault => .failed fault r
          | _, _ => .running (setState g direction n id new r)

/-- Steps repeated until no node waits or a fault is found, within a limit on their number. -/
def steps [DecidableEq σ] [Inhabited σ] (fw : Framework σ) (g : Graph σ) (direction : Direction) :
    Nat → Run σ → Option (Except (Fault σ × Run σ) (Run σ))
  | 0, _ => none
  | limit + 1, r =>
    match step fw g direction r with
    | .finished r => some (.ok r)
    | .failed fault r => some (.error (fault, r))
    | .running r => steps fw g direction limit r

/-! ## The solution -/

/-- What solving a graph leads to. -/
structure Outcome (σ : Type) where
  /-- The states of the nodes, or the fault that stopped the run. -/
  result : Except (Fault σ) (States σ)
  /-- How many nodes were evaluated. -/
  evaluations : Nat
  /-- What happened, in order. -/
  events : List (Event σ)

/-- The outcome of a run that ended. -/
def Outcome.ofRun : Except (Fault σ × Run σ) (Run σ) → Outcome σ
  | .ok r => ⟨.ok r.states, r.evaluations, r.events.reverse⟩
  | .error (fault, r) => ⟨.error fault, r.evaluations, r.events.reverse⟩

/-- The first run: every node waits and none is reachable. -/
def Run.initial [Inhabited σ] (g : Graph σ) : Run σ where
  states := .unreachable g.size
  narrowed := Array.replicate g.size 0
  work := .full g.size
  evaluations := 0
  events := []

/-- The next run on the same states: every node waits and none was narrowed. -/
def Run.again (g : Graph σ) (r : Run σ) : Run σ :=
  { r with narrowed := Array.replicate g.size 0, work := .full g.size }

/-- Solve a graph: ascend to states that satisfy its equations, then descend from them if
narrowing is allowed.  There is no outcome if either run needs more steps than the limit. -/
def Framework.forward [DecidableEq σ] [Inhabited σ] (fw : Framework σ) (g : Graph σ) (limit : Nat) :
    Option (Outcome σ) :=
  match steps fw g .ascending limit (.initial g) with
  | none => none
  | some (.error e) => some (.ofRun (.error e))
  | some (.ok r) =>
    if 0 < fw.maxNarrow then
      (steps fw g .descending limit (r.again g)).map .ofRun
    else
      some (.ofRun (.ok r))

end Flow
end WordRanges
