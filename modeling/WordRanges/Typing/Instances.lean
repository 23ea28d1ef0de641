import WordRanges.Typing.State

/-!
# Instances without end

A generic function or type that uses itself with ever larger type arguments would have
instances without end.  Every use of type arguments is a step from the type parameters
that occur in an argument to the parameter that it is for; the step grows if the argument
is more than the parameter itself.  No way of steps may lead back to its start if one of
its steps grows.  A type declared within a generic function depends on the type
parameters of the function.

Main definitions:

- {lit}`Step`: what an instance is made from.
- {lit}`instancesEnd`: no instances without end.
-/

namespace WordRanges
namespace Typing

open Source

/-! ## Parts of type arguments -/

/-- What can change with the instance of a generic function or type. -/
inductive Part where
  | param (id : Nat)
  | named (id : Nat)
deriving DecidableEq, Repr

mutual

/-- The type parameters and declared types that occur in a type. -/
def partsOf : Ty → List Part
  | .basic _ => []
  | .named id args => .named id :: partsOfAll args
  | .param id => [.param id]
  | .pointer a => partsOf a
  | .slice a => partsOf a
  | .array _ a => partsOf a
  | .chan _ a => partsOf a
  | .map k a => partsOf k ++ partsOf a
  | .struct _ ts => partsOfAll ts
  | .func _ _ ps rs _ => partsOfAll ps ++ partsOfAll rs
  | .interface _ ms es _ => partsOfAll ms ++ partsOfAll es
  | .union _ ts => partsOfAll ts
  | .tuple ts => partsOfAll ts
  | .alias _ _ t => partsOf t

/-- The type parameters and declared types that occur in types. -/
def partsOfAll : List Ty → List Part
  | [] => []
  | t :: ts => partsOf t ++ partsOfAll ts

end

/-- The part that a type is, if it is nothing more. -/
def wholePart? : Ty → Option Part
  | .named id _ => some (.named id)
  | .param id => some (.param id)
  | _ => none

/-- A part as it is declared: parameters of receivers are those of the type. -/
def Part.declared (env : TypeEnv) : Part → Part
  | .param id => .param (((env.params[id]?).bind (·.origin?)).getD id)
  | .named id => .named id

/-! ## Steps -/

/-- One part changes with another one; it grows if it is more than this one. -/
structure Step where
  source : Part
  target : Part
  grows : Bool

/-- The steps that a type argument makes for a type parameter. -/
def argumentSteps (env : TypeEnv) (param : Nat) (arg : Ty) : List Step :=
  (partsOf arg).map fun p =>
    ⟨p.declared env, (Part.param param).declared env, wholePart? arg != some p⟩

/-- The steps that a condition on type arguments makes. -/
def conditionSteps (env : TypeEnv) : Condition → List Step
  | .satisfy params args true => (params.zip args).flatMap fun (p, t) => argumentSteps env p t
  | _ => []

/-- The steps from the type parameters around declared types. -/
def declaredSteps (env : TypeEnv) : List Step :=
  env.named.toList.zipIdx.flatMap fun (d, id) =>
    d.around.map fun p => ⟨(Part.param p).declared env, .named id, true⟩

/-! ## Growth -/

/-- How often a part has grown; nothing is said of parts that have not. -/
abbrev Growth := List (Part × Nat)

/-- How often a part has grown. -/
def Growth.of (g : Growth) (p : Part) : Nat :=
  (g.lookup p).getD 0

/-- How often the target of a step has grown, if it is reached by the step. -/
def Step.reached (s : Step) (g : Growth) : Nat :=
  g.of s.source + if s.grows then 1 else 0

/-- Take all steps once. -/
def takeSteps (steps : List Step) (g : Growth) : Growth :=
  steps.foldl (fun g s =>
    if g.of s.target < s.reached g then
      (s.target, s.reached g) :: g.filter fun p => p.1 != s.target
    else g) g

/-- No part grows any more after as many rounds as there can be steps on a way that does not
cross itself. -/
def stepsEnd (steps : List Step) : Bool :=
  let g := (steps.length + 1).repeat (takeSteps steps) []
  steps.all fun s => s.reached g ≤ g.of s.target

/-- No generic function or type has instances without end. -/
def instancesEnd (env : TypeEnv) (conditions : List Condition) : Bool :=
  stepsEnd (conditions.flatMap (conditionSteps env) ++ declaredSteps env)

end Typing
end WordRanges
