import WordRanges.Typing.Declaration
import WordRanges.Typing.Instances

/-!
# Checking a package

All declarations are resolved, types first, then the bodies of functions are checked, and
last what could only be told at the end: the conditions on types, that variables of
functions are used, and that no variable needs its own value to get one.

Main definitions:

- {lit}`Condition.holds`: conditions on types.
- {lit}`checker`: the checks for a depth of nesting.
- {lit}`checkPackage?`: what is known of a package that has no fault.
-/

namespace WordRanges
namespace Typing

open Source

/-! ## Conditions -/

/-- A term can stand in a union of several terms. -/
def termFits (env : TypeEnv) (x : Term) : Bool :=
  if env.isInterface x.type then
    !x.tilde && (env.methodsOf x.type).isEmpty && !env.isComparableSet x.type
  else !x.tilde || env.same (env.under x.type) x.type

/-- No two terms have a type in common, interfaces apart. -/
def termsDisjoint (env : TypeEnv) : List Term → Bool
  | [] => true
  | x :: xs =>
    (env.isInterface x.type ||
      xs.all fun y => env.isInterface y.type || x.disjointBy env.same env y)
      && termsDisjoint env xs

/-- Methods of the same name have the same type. -/
def methodsAgree (env : TypeEnv) : List (String × Ty) → Bool
  | [] => true
  | (name, t) :: rest => (rest.all fun m => m.1 != name || env.same m.2 t) && methodsAgree env rest

/-- A condition holds. -/
def Condition.holds (env : TypeEnv) : Condition → Bool
  | .isKey t => env.isComparable t
  | .isOrdinary t => !env.isOrdinaryInterface t || env.isMethodSet t
  | .isEmbeddable t pointer =>
    match env.under t with
    | .pointer _ | .basic .unsafePointer => false
    | .interface .. => !TypeEnv.isParam t && !pointer
    | _ => true
  | .isUnion terms =>
    terms.length ≤ TypeSet.maxTerms && terms.all (termFits env) && termsDisjoint env terms
  | .isInterface t => (env.writtenSet? t).isSome && methodsAgree env (env.methodsOf t)
  | .satisfy params args _ => env.satisfy params args

/-! ## Declared types -/

/-- A type does not contain itself; {lit}`path` are the declared types around it. -/
def finiteWithin (env : TypeEnv) : Nat → List Ty → Ty → Bool
  | 0, _, _ => false
  | fuel + 1, path, t =>
    match t.unalias with
    | .named id args =>
      let t := Ty.named id args
      !path.any (env.same t) &&
        (match env.next? t with
          | some u => finiteWithin env fuel (t :: path) u
          | none => false)
    | .array _ elem => finiteWithin env fuel path elem
    | .struct _ types => types.all (finiteWithin env fuel path)
    | .interface _ _ embeds _ => embeds.all (finiteWithin env fuel path)
    | .union _ types => types.all (finiteWithin env fuel path)
    | _ => true

/-- A declared type has no method with the name of a field, and does not contain itself. -/
def namedFits (env : TypeEnv) (id : Nat) (d : NamedDef) : Bool :=
  let self := Ty.named id (d.params.map .param)
  let fields : List String :=
    match env.under self with
    | .struct labels _ => labels.map FieldLabel.name
    | _ => []
  let isInvalid :=
    match env.under self with
    | .basic .invalid => true
    | _ => false
  !isInvalid && !(d.methods.any fun m => fields.contains m.name)
    && finiteWithin env (env.depth self + 1) [] self

/-- All declared types are in order. -/
def typesFit (env : TypeEnv) : Bool :=
  (env.named.toList.zipIdx).all fun (d, id) => namedFits env id d

/-! ## Order of values -/

/-- The objects that can be reached from some objects. -/
def reachable (uses : Std.HashMap Nat (List Nat)) : Nat → List Nat → List Nat → List Nat
  | 0, seen, _ => seen
  | _ + 1, seen, [] => seen
  | fuel + 1, seen, frontier =>
    let next := (frontier.flatMap fun id => (uses[id]?).getD []).eraseDups
    let fresh := next.filter fun id => !seen.contains id
    reachable uses fuel (fresh ++ seen) fresh

/-- No constant or variable of the package needs its own value. -/
def valuesOrdered (s : State) : Bool :=
  let isGlobal (id : Nat) : Bool := ((s.objects[id]?).map fun o => o.declaration?.isSome).getD false
  let uses := s.uses.foldl (fun (m : Std.HashMap Nat (List Nat)) (a, b) =>
    if isGlobal b then m.insert a (b :: (m[a]?).getD []) else m) ∅
  (s.objects.toList.zipIdx).all fun (o, id) =>
    match o.declaration? with
    | some d => !d.hasValue || !(reachable uses (s.objects.size + 1) [] [id]).contains id
    | none => true

/-! ## The whole package -/

/-- The checks for one more level of nesting. -/
def Checker.deeper (c : Checker) : Checker where
  judge := Typing.judge c
  type := typeOf c
  statements := Typing.statements c
  body := checkBody c
  resolve := resolveObject c

/-- The checks for a depth of nesting. -/
def checker : Nat → Checker
  | 0 => .bottom
  | n + 1 => (checker n).deeper

/-- In which turn a declaration is resolved: types before their further names, then everything
else. -/
def Declaration.turn : Declaration → Nat
  | .type _ false _ => 0
  | .type _ true _ => 1
  | .function .. | .method .. | .constant .. | .variable .. => 2

/-- Resolve the declarations whose turn it is. -/
def resolveTurn (c : Checker) (turn : Nat) : Check Unit := do
  let objects := (← get).objects.toList.zipIdx
  objects.forM fun (o, id) =>
    match o.declaration? with
    | some d => if d.turn = turn then c.resolve id else pure ()
    | none => pure ()

/-- Check a package: collect its names, resolve them, check all bodies, and check what is left. -/
def checkUnits (c : Checker) (units : List SourceUnit) : Check Unit := do
  match units with
  | [] => return
  | first :: _ =>
    units.forM (collect first.package.name)
    attachMethods
    [0, 1].forM (resolveTurn c)
    reconstrain (List.range (← types).params.size)
    resolveTurn c 2
    (← get).bodies.toList.forM c.body
    let s ← get
    require (s.conditions.all (Condition.holds s.env))
    require (typesFit s.env && instancesEnd s.env s.conditions)
    require (s.objects.all fun o => !o.mustUse || o.used)
    require (valuesOrdered s)

/-- What is known of a package that has no fault; its files have {lit}`size` lexemes together, which
bounds the depth of nesting. -/
def checkPackage? (path : String) (units : List SourceUnit) (size : Nat) : Option State :=
  ((checkUnits (checker (4 * size + 100)) units).run (.initial path)).map (·.2)

end Typing
end WordRanges
