import WordRanges.Source.TypeSet

/-!
# Comparable types

Whether the values of a type can be compared for equality.  An interface can demand that
they can; then its types are the comparable ones among those that it lists.

Main definitions:

- {lit}`TypeEnv.isComparable`, {lit}`TypeEnv.isStrictlyComparable`: values can be compared.
- {lit}`TypeEnv.typeSet?`: the types that belong to an interface.
-/

namespace WordRanges
namespace Source
namespace TypeEnv

/-- A type parameter. -/
def isParam (t : Ty) : Bool :=
  match t.unalias with
  | .param _ => true
  | _ => false

/-- An interface that is no type parameter. -/
def isOrdinaryInterface (env : TypeEnv) (t : Ty) : Bool :=
  !isParam t && env.isInterface t

/-- An interface demands that values can be compared; {lit}`fuel` bounds the length of the way
through declarations. -/
def demandsWithin (env : TypeEnv) : Nat → Ty → Bool
  | 0, _ => false
  | fuel + 1, t =>
    match t.unalias with
    | .param id =>
      ((env.params[id]?).map fun d => env.demandsWithin fuel d.constraint).getD false
    | .named id args =>
      id = comparableId ||
        (match env.under (.named id args) with
          | .interface _ _ embeds _ => embeds.any (env.demandsWithin fuel)
          | _ => false)
    | .interface _ _ embeds _ => embeds.any (env.demandsWithin fuel)
    | _ => false

/-- How many declarations a way through embedded types can pass. -/
def embedDepth (env : TypeEnv) : Nat :=
  env.named.size + env.params.size + 8

/-- An interface demands that values can be compared. -/
def demandsComparable (env : TypeEnv) (t : Ty) : Bool :=
  env.demandsWithin env.embedDepth t

/-- Values of a type can be compared for equality.  Unless {lit}`strict`, interfaces count as
comparable, though comparing them may fail at run time; {lit}`fuel` bounds the length of the way
through declarations. -/
def comparableWithin (env : TypeEnv) : Nat → Bool → Ty → Bool
  | 0, _, _ => false
  | fuel + 1, strict, t =>
    match env.under t with
    | .basic .untypedNil | .basic .invalid => false
    | .basic _ | .pointer _ | .chan .. => true
    | .interface .. =>
      (!strict && !isParam t) ||
        (match env.writtenSet? t with
          | some .all => env.demandsComparable t
          | some (.terms ts) =>
            let isComparable (x : Term) : Bool := env.comparableWithin fuel true x.type
            ts.any isComparable && (env.demandsComparable t || ts.all isComparable)
          | none => false)
    | .struct _ types => types.all (env.comparableWithin fuel strict)
    | .array _ elem => env.comparableWithin fuel strict elem
    | _ => false

/-- Values of a type can be compared for equality, if need be at the risk of a failure at run
time. -/
def isComparable (env : TypeEnv) (t : Ty) : Bool :=
  env.comparableWithin (env.depth t + 1) false t

/-- Values of a type can always be compared for equality. -/
def isStrictlyComparable (env : TypeEnv) (t : Ty) : Bool :=
  env.comparableWithin (env.depth t + 1) true t

/-- The types that belong to an interface, its methods apart: of those that it lists, the
comparable ones if it demands that. -/
def typeSet? (env : TypeEnv) (t : Ty) : Option TypeSet :=
  (env.writtenSet? t).map fun
    | .all => .all
    | .terms ts =>
      if env.demandsComparable t then .terms (ts.filter fun x => env.isStrictlyComparable x.type)
      else .terms ts

/-- The types of an interface are not listed. -/
def allTypes (env : TypeEnv) (t : Ty) : Bool :=
  match env.writtenSet? t with
  | some .all => true
  | _ => false

/-- All comparable types belong to an interface, its methods apart, and no others. -/
def isComparableSet (env : TypeEnv) (t : Ty) : Bool :=
  env.allTypes t && env.demandsComparable t

/-- An interface that only asks for methods, so that variables can have it as their type. -/
def isMethodSet (env : TypeEnv) (t : Ty) : Bool :=
  env.allTypes t && !env.demandsComparable t

end TypeEnv
end Source
end WordRanges
