import WordRanges.Source.Identity

/-!
# Properties of types

What can be done with the values of a type depends on its underlying type or, for a type
parameter, on the underlying types of all types that it can stand for.

Main definitions:

- {lit}`TypeEnv.underAll`: a property of all underlying types.
- {lit}`TypeEnv.core?`: the one underlying type that all of them have.
- {lit}`TypeEnv.hasNil`: values can be nil.
-/

namespace WordRanges
namespace Source
namespace TypeEnv

/-! ## Underlying types -/

/-- The type and all types that it can stand for; nothing if these are not given one by one. -/
def alternatives? (env : TypeEnv) (t : Ty) : Option (List Term) :=
  if isParam t then
    match env.typeSet? t with
    | some (.terms (x :: xs)) => some (x :: xs)
    | _ => none
  else some [⟨false, t⟩]

/-- All types that a type can stand for have a property; there must be some. -/
def typeAll (env : TypeEnv) (t : Ty) (p : Ty → Bool) : Bool :=
  match env.alternatives? t with
  | some xs => xs.all fun x => p x.type
  | none => false

/-- The underlying types of all types that a type can stand for have a property. -/
def underAll (env : TypeEnv) (t : Ty) (p : Ty → Bool) : Bool :=
  env.typeAll t fun u => p (env.under u)

/-- All types that a type can stand for are basic types with a property. -/
def basicAll (env : TypeEnv) (t : Ty) (p : BasicType → Bool) : Bool :=
  env.underAll t fun
    | .basic b => p b
    | _ => false

/-- The underlying type is a basic type with a property. -/
def basicIs (env : TypeEnv) (t : Ty) (p : BasicType → Bool) : Bool :=
  match env.basic? t with
  | some b => p b
  | none => false

/-- The type of an untyped expression. -/
def untyped? (t : Ty) : Option BasicType :=
  match t.unalias with
  | .basic b => if b.isUntyped then some b else none
  | _ => none

/-- The type of an untyped expression. -/
def isUntyped (t : Ty) : Bool :=
  (untyped? t).isSome

/-- The type of the constant without a type that pointers and the like can be. -/
def isNil (t : Ty) : Bool :=
  untyped? t == some .untypedNil

/-- A type that constants can have. -/
def isConstType (env : TypeEnv) (t : Ty) : Bool :=
  !isParam t && env.basicIs t (·.isConstType)

/-- A type with a name of its own, so that it differs from all types written out. -/
def hasName (t : Ty) : Bool :=
  match t.unalias with
  | .basic _ | .named .. | .param _ => true
  | _ => false

/-- The type that an untyped expression gets if nothing else tells its type. -/
def defaultType (t : Ty) : Ty :=
  match untyped? t with
  | some .untypedBool => .basic .bool
  | some .untypedInt => .basic .int
  | some .untypedRune => .basic .rune
  | some .untypedFloat => .basic .float64
  | some .untypedComplex => .basic .complex128
  | some .untypedString => .basic .string
  | _ => t

/-- Two channel types that differ in direction at most, as one of them: the one with the
narrower direction. -/
def commonType? (env : TypeEnv) (a b : Ty) : Option Ty :=
  match a, b with
  | .chan d x, .chan e y =>
    if !env.same x y then none
    else if d = e || e = .both then some a
    else if d = .both then some b
    else none
  | _, _ => if env.same a b then some a else none

/-- The underlying type that all types have which a type can stand for. -/
def core? (env : TypeEnv) (t : Ty) : Option Ty := do
  match ← env.alternatives? t with
  | [] => none
  | x :: xs => xs.foldlM (fun u y => env.commonType? u (env.under y.type)) (env.under x.type)

/-- The text type, if all types that a type can stand for are texts or lists of bytes and
some are texts, and else the common underlying type. -/
def coreText? (env : TypeEnv) (t : Ty) : Option Ty := do
  let xs ← env.alternatives? t
  let unders := xs.map fun x => env.under x.type
  let isText : Ty → Bool
    | .basic b => b.isString
    | _ => false
  let isBytes : Ty → Bool
    | .slice e => env.same e (.basic .byte)
    | _ => false
  if unders.any isText && unders.all fun u => isText u || isBytes u then some (.basic .string)
  else env.core? t

/-- The type that a pointer type points to. -/
def pointee? (env : TypeEnv) (t : Ty) : Option Ty :=
  match env.under t with
  | .pointer e => some e
  | _ => none

/-- Values of the type can be nil. -/
def hasNil (env : TypeEnv) (t : Ty) : Bool :=
  let isNilable : Ty → Bool
    | .basic .unsafePointer => true
    | .slice _ | .pointer _ | .func .. | .map .. | .chan .. | .interface .. => true
    | _ => false
  !isUntyped t && env.underAll t isNilable

/-! ## Interfaces -/

/-- An interface to which all types belong. -/
def isEmptyInterface (env : TypeEnv) (t : Ty) : Bool :=
  env.isMethodSet t && (env.methodsOf t).isEmpty

end TypeEnv
end Source
end WordRanges
