import WordRanges.Typing.Property

/-!
# Fields and methods

A selector finds the field or method of a name at the least depth of embedding.  A type
belongs to an interface if it has the methods, is one of the types, and is comparable as
the interface asks.

Main definitions:

- {lit}`TypeEnv.member?`: the field or method of a name.
- {lit}`TypeEnv.implements`: a type belongs to an interface.
-/

namespace WordRanges
namespace Typing

open Source

/-- A method of a type. -/
structure Method where
  /-- The function without the receiver. -/
  type : Ty
  /-- The receiver is a pointer. -/
  pointer : Bool
  /-- The number of its declaration, if it is one of a declared type. -/
  object? : Option Nat
  /-- The type parameters of a generic method. -/
  typeParams : List Nat
  /-- What the type parameters of the receiver stand for. -/
  bindings : List (Nat × Ty)

/-- What a selector can select. -/
inductive Member where
  | field (type : Ty)
  | method (m : Method)

/-- A member that was found. -/
structure Found where
  member : Member
  /-- The way to it goes through a pointer. -/
  indirect : Bool

/-- A type to be looked into at some depth of embedding. -/
structure Embedded where
  type : Ty
  /-- The way to it goes through a pointer. -/
  indirect : Bool
  /-- It is met more than once at its depth. -/
  multiple : Bool

/-- A type without the star of a pointer type written out, and whether there was one. -/
def strip (t : Ty) : Ty × Bool :=
  match t.unalias with
  | .pointer e => (e, true)
  | _ => (t, false)

end Typing

namespace Source
namespace TypeEnv

open Typing

/-- The method of a name that a declared type has itself. -/
def ownMethod? (env : TypeEnv) (t : Ty) (name : String) : Option Member :=
  match t.unalias with
  | .named id args => do
    let d ← env.named[id]?
    let m ← d.methods.find? (·.name == name)
    return .method ⟨m.type.subst (lookupArg m.params args), m.pointer, some m.object, m.typeParams,
      m.params.zip args⟩
  | _ => none

/-- The field or method of a name in a type, without those of embedded fields. -/
def direct? (env : TypeEnv) (t : Ty) (name : String) : Option Member :=
  match env.ownMethod? t name with
  | some m => some m
  | none =>
    match env.under t with
    | .struct names types =>
      ((names.zip types).find? fun p => p.1.name == name).map fun p => .field p.2
    | .interface .. =>
      ((env.methodsOf t).find? fun p => p.1 == name).map fun p =>
        .method ⟨p.2, false, none, [], []⟩
    | _ => none

/-- The types of the embedded fields of a type. -/
def embeddedIn (env : TypeEnv) (e : Embedded) : List Embedded :=
  match env.under e.type with
  | .struct names types =>
    (names.zip types).filterMap fun (n, t) =>
      if n.embedded then
        let (t, isPointer) := strip t
        some ⟨t, e.indirect || isPointer, e.multiple⟩
      else none
  | _ => []

/-- One entry for each type; types met more than once are marked. -/
def consolidate (env : TypeEnv) : List Embedded → List Embedded
  | [] => []
  | e :: es =>
    let rest := env.consolidate es
    let others := rest.filter fun x => !env.same x.type e.type
    if others.length = rest.length then e :: rest
    else { e with multiple := true } :: others

/-- Look for a member at one depth after the other; {lit}`seen` are the declared types of lesser
depths, which hide those found again. -/
def memberWithin (env : TypeEnv) (name : String) :
    Nat → List Ty → List Embedded → Option Found
  | 0, _, _ => none
  | _ + 1, _, [] => none
  | fuel + 1, seen, current =>
    let fresh := current.filter fun e => !(seen.any fun t => hasName t && env.same t e.type)
    let hits := fresh.filterMap fun e => (env.direct? e.type name).map fun m => (e, m)
    match hits with
    | [] =>
      env.memberWithin name fuel (fresh.map (·.type) ++ seen)
        (env.consolidate (fresh.flatMap env.embeddedIn))
    | [(e, m)] => if e.multiple then none else some ⟨m, e.indirect⟩
    | _ => none

/-- The field or method of a name.  Methods of pointers can be selected on what a pointer
leads to or on what has an address. -/
def member? (env : TypeEnv) (t : Ty) (addressable : Bool) (name : String) : Option Found := do
  let start (t : Ty) : Option Found :=
    let (base, isPointer) := strip t
    if isPointer && env.isInterface base then none
    else env.memberWithin name (env.embedDepth + 1) [] [⟨base, isPointer, false⟩]
  let named :=
    match t.unalias with
    | .named .. => true
    | _ => false
  match named, env.under t with
  | true, .pointer e =>
    let found ← start (.pointer e)
    match found.member with
    | .field _ => return found
    | .method _ => none
  | _, _ =>
    let found ← start t
    match found.member with
    | .method m => if !m.pointer || found.indirect || addressable then return found else none
    | .field _ => return found

/-! ## Interfaces -/

/-- A type has all methods of an interface. -/
def hasMethods (env : TypeEnv) (t interface : Ty) : Bool :=
  (env.methodsOf interface).all fun (name, type) =>
    match env.member? t false name with
    | some ⟨.method m, _⟩ => m.typeParams.isEmpty && env.same m.type type
    | _ => false

/-- No type belongs to the interface. -/
def isEmptySet (env : TypeEnv) (t : Ty) : Bool :=
  match env.typeSet? t with
  | some (.terms []) => true
  | _ => false

/-- A type, or each type of an interface, is among the types of an interface. -/
def inTypes (env : TypeEnv) (t interface : Ty) : Bool :=
  match env.typeSet? interface with
  | none => false
  | some .all => true
  | some (.terms ys) =>
    if env.isInterface t then
      match env.typeSet? t with
      | some (.terms xs) => xs.all fun x => ys.any (x.isWithinBy env.same env)
      | _ => false
    else ys.any (Term.isWithinBy env.same env ⟨false, t⟩)

/-- A type is comparable as an interface asks; as an argument for a type parameter an
interface counts as comparable. -/
def comparableAs (env : TypeEnv) (asArgument : Bool) (t interface : Ty) : Bool :=
  !env.demandsComparable interface || env.isStrictlyComparable t
    || (asArgument && env.isComparable t)

/-- A type belongs to an interface; {lit}`asArgument` if it is to be a type argument. -/
def implements (env : TypeEnv) (asArgument : Bool) (t interface : Ty) : Bool :=
  env.isInterface interface &&
    (env.isEmptyInterface interface
      || (env.isInterface t && env.isEmptySet t)
      || (!env.isEmptySet interface && env.hasMethods t interface && env.inTypes t interface
        && env.comparableAs asArgument t interface))

/-- Type arguments satisfy the constraints of type parameters. -/
def satisfy (env : TypeEnv) (params : List Nat) (args : List Ty) : Bool :=
  params.length == args.length &&
    (params.zip args).all fun (p, t) =>
      match env.params[p]? with
      | some d => env.implements true t (d.constraint.subst (lookupArg params args))
      | none => false

end TypeEnv
end Source
end WordRanges
