import WordRanges.Source.Types

/-!
# Type sets

The types that a type parameter can stand for, as a normalised list of terms.  A term is
a single type or, marked with a tilde, all types with a given underlying type.  The set of
an interface is the intersection of the sets that it embeds, the set of a union is the
union of the sets of its terms.  A normalised list has no term that is contained in
another one; of two equal terms the first stays.

Main definitions:

- {lit}`TypeSet.union` and {lit}`TypeSet.inter`: the two operations.
- {lit}`TypeEnv.writtenSet?`: the set of an interface or union.
- {lit}`TypeEnv.integerTerms`: the integer types that values of a type can have.
-/

namespace WordRanges
namespace Source

/-- A type, or all types with that underlying type. -/
structure Term where
  tilde : Bool
  type : Ty

/-- All types, or those of some terms. -/
inductive TypeSet where
  | all
  | terms (ts : List Term)

namespace Term

/-- Two terms have no type in common, given which types are identical. -/
def disjointBy (same : Ty → Ty → Bool) (env : TypeEnv) (x y : Term) : Bool :=
  let ux := if y.tilde then env.under x.type else x.type
  let uy := if x.tilde then env.under y.type else y.type
  !same ux uy

/-- Two terms have no type in common, as far as identical types are written alike. -/
def disjoint (env : TypeEnv) (x y : Term) : Bool :=
  disjointBy Ty.alike env x y

/-- The larger of two terms that are not disjoint. -/
def join (x y : Term) : Term :=
  if x.tilde || !y.tilde then x else y

/-- All types of a term belong to another one, given which types are identical. -/
def isWithinBy (same : Ty → Ty → Bool) (env : TypeEnv) (x y : Term) : Bool :=
  !disjointBy same env x y && (y.tilde || !x.tilde)

/-- All types of a term belong to another one, as far as identical types are written alike. -/
def isWithin (env : TypeEnv) (x y : Term) : Bool :=
  isWithinBy Ty.alike env x y

/-- The smaller of two terms that are not disjoint. -/
def meet (x y : Term) : Term :=
  if !x.tilde || y.tilde then x else y

/-- A term joined with all terms of a list that it is not disjoint from, and the other
terms of the list. -/
def absorb (env : TypeEnv) : Term → List Term → Term × List Term
  | x, [] => (x, [])
  | x, y :: ys =>
    if x.disjoint env y then
      let (x, rest) := absorb env x ys
      (x, y :: rest)
    else
      absorb env (x.join y) ys

/-- Absorbing terms leaves no more of them. -/
theorem length_absorb_le (env : TypeEnv) (x : Term) (ys : List Term) :
    (absorb env x ys).2.length ≤ ys.length := by
  induction ys generalizing x with
  | nil => simp [absorb]
  | cons y ys ih =>
    unfold absorb
    split
    · simpa using ih x
    · exact Nat.le_succ_of_le (ih _)

/-- A list of terms in which no two are equal or contain each other. -/
def normal (env : TypeEnv) : List Term → List Term
  | [] => []
  | x :: xs =>
    have := length_absorb_le env x xs
    (absorb env x xs).1 :: normal env (absorb env x xs).2
termination_by xs => xs.length

end Term

namespace TypeSet

/-- The types of either set. -/
def union (env : TypeEnv) : TypeSet → TypeSet → TypeSet
  | .all, _ => .all
  | _, .all => .all
  | .terms xs, .terms ys => .terms (Term.normal env (xs ++ ys))

/-- The types of both sets. -/
def inter (env : TypeEnv) : TypeSet → TypeSet → TypeSet
  | .all, y => y
  | x, .all => x
  | .terms xs, .terms ys =>
    .terms (Term.normal env (xs.flatMap fun x =>
      ys.filterMap fun y => if x.disjoint env y then none else some (x.meet y)))

/-- The types of a set all belong to another one. -/
def isWithin (env : TypeEnv) : TypeSet → TypeSet → Bool
  | _, .all => true
  | .all, _ => false
  | .terms xs, .terms ys => xs.all fun x => ys.any (x.isWithin env)

/-- Two sets have the same types. -/
def same (env : TypeEnv) (x y : TypeSet) : Bool :=
  x.isWithin env y && y.isWithin env x

/-- The largest number of terms that a union may have. -/
def maxTerms : Nat := 100

/-- A set with too many terms. -/
def isLarge : TypeSet → Bool
  | .all => false
  | .terms ts => maxTerms < ts.length

end TypeSet

namespace TypeEnv

/-- An interface as the underlying type. -/
def isInterface (env : TypeEnv) (t : Ty) : Bool :=
  match env.under t with
  | .interface .. => true
  | _ => false

/-- The set of types of a term, given the set of types of any interface. -/
def termSet (env : TypeEnv) (ofInterface : Ty → Option TypeSet) (x : Term) : Option TypeSet :=
  match x.type.unalias with
  | .param _ | .union .. => none
  | t =>
    if env.isInterface t then ofInterface t
    else
      match t with
      | .basic .invalid => some (.terms [])
      | t => some (.terms [⟨x.tilde, t⟩])

/-- The set of types of a type: intersections for interfaces, unions for unions, and else
the type itself.  There is none for sets that are too large or defined by themselves; {lit}`fuel`
bounds the length of the way through declarations. -/
def typeSetWithin (env : TypeEnv) : Nat → Ty → Option TypeSet
  | 0, _ => none
  | fuel + 1, t =>
    match env.under t with
    | .interface _ _ embeds _ =>
      embeds.foldlM (fun set e =>
        match e.unalias with
        | .param _ => none
        | e => (typeSetWithin env fuel e).map (set.inter env)) .all
    | .union tildes types =>
      (tildes.zipWith Term.mk types).foldlM (fun set x => do
        let set := set.union env (← env.termSet (typeSetWithin env fuel) x)
        if set.isLarge then none else some set) (.terms [])
    | .basic .invalid => some (.terms [])
    | _ => some (.terms [⟨false, t⟩])

/-- The set of types of a type, as its terms are written. -/
def writtenSet? (env : TypeEnv) (t : Ty) : Option TypeSet :=
  env.typeSetWithin (env.depth t + 1) t

/-- The integer type that underlies a type. -/
def integerType? (env : TypeEnv) (t : Ty) : Option BasicType :=
  match env.basic? t with
  | some b => if b.isInteger then some b else none
  | none => none

/-- The integer types that values of a type can have: for a type parameter the underlying
types of all terms of its constraint.  There are none if a value may be no integer, and none
for a further name of a type parameter. -/
def integerTerms (env : TypeEnv) (t : Ty) : List BasicType :=
  match t with
  | .param id =>
    match env.params[id]? with
    | none => []
    | some d =>
      match env.writtenSet? d.constraint with
      | some (.terms ts) => (ts.mapM fun x => env.integerType? x.type).getD []
      | _ => []
  | t => (env.integerType? t).toList

end TypeEnv
end Source
end WordRanges
