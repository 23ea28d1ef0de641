import WordRanges.Typing.Conversion

/-!
# Inference of type arguments

The type arguments of a generic function that are not written follow from the arguments
of a call or from the type of the variable that the function is assigned to, from the
constraints of the type parameters, and last from the default types of untyped arguments.

Main definitions:

- {lit}`Bindings`: what is known of type parameters.
- {lit}`unify`: match two types, binding type parameters.
- {lit}`infer?`: the type arguments that are not written.
-/

namespace WordRanges
namespace Typing

open Source

/-! ## Bindings -/

/-- What is known of the type parameters to be bound: which of them stand for the same type, and
the types found for them. -/
structure Bindings where
  /-- Parameters with those that stand for them. -/
  joined : List (Nat × Nat)
  types : List (Nat × Ty)

namespace Bindings

/-- The parameter that stands for a parameter. -/
def root (b : Bindings) (id : Nat) : Nat :=
  (b.joined.lookup id).getD id

/-- The type found for a parameter. -/
def type? (b : Bindings) (id : Nat) : Option Ty :=
  b.types.lookup (b.root id)

/-- Bind a parameter, anew if need be. -/
def bind (b : Bindings) (id : Nat) (t : Ty) : Bindings :=
  { b with types := (b.root id, t) :: b.types.filter fun p => p.1 != b.root id }

/-- One parameter stands for another one and for all that this one stands for. -/
def redirect (b : Bindings) (source target : Nat) : Bindings :=
  let moved := b.joined.map fun (id, root) => (id, if root = source then target else root)
  { b with joined := (source, target) :: moved }

/-- Two parameters stand for the same type.  This cannot be told if a type was found for each of
them. -/
def join? (b : Bindings) (x y : Nat) : Option Bindings :=
  let (x, y) := (b.root x, b.root y)
  if x = y then some b
  else
    match b.types.lookup x, b.types.lookup y with
    | some _, some _ => none
    | some _, none => some (b.redirect y x)
    | none, _ => some (b.redirect x y)

/-- The number of parameters without a type. -/
def unknowns (b : Bindings) (ids : List Nat) : Nat :=
  (ids.filter fun id => (b.type? id).isNone).length

end Bindings

/-! ## Matching types -/

/-- How types are matched. -/
structure MatchMode where
  /-- Values of one type are assigned to variables of the other, so that the types of their
  elements match exactly. -/
  assigned : Bool
  /-- Declared types match only themselves, and the directions of channels count. -/
  exact : Bool

/-- Types that must be identical once all parameters are bound. -/
def MatchMode.identical : MatchMode := ⟨false, true⟩

/-- Types of values and of the variables that they are assigned to. -/
def MatchMode.assignment : MatchMode := ⟨true, false⟩

/-- Types of which one may be a declared type and the other what it is declared as. -/
def MatchMode.loose : MatchMode := ⟨false, false⟩

/-- How the types of elements are matched. -/
def MatchMode.elements (m : MatchMode) : MatchMode :=
  { m with exact := m.exact || m.assigned }

/-- The parameter to be bound that a type is; these are numbered from {lit}`first` on. -/
def boundParam? (first : Nat) (t : Ty) : Option Nat :=
  match t.unalias with
  | .param id => if first ≤ id then some id else none
  | _ => none

/-- A declared type. -/
def isDeclared (t : Ty) : Bool :=
  match t.unalias with
  | .named .. => true
  | _ => false

/-- A type that is neither a declared type nor a type parameter. -/
def isWritten (t : Ty) : Bool :=
  !isDeclared t && !TypeEnv.isParam t

/-- A channel type with a direction. -/
def isDirected (t : Ty) : Bool :=
  match t.unalias with
  | .chan .both _ => false
  | .chan .. => true
  | _ => false

/-- One of two types that match can be chosen for a parameter.  It is not clear which one if only
one of them is an interface, or if they are different declared interfaces or ones with different
methods. -/
def canChoose (env : TypeEnv) (x y : Ty) : Bool :=
  match env.isOrdinaryInterface x, env.isOrdinaryInterface y with
  | true, true =>
    if isDeclared x && isDeclared y then env.same x y
    else (env.methodTable x).length == (env.methodTable y).length
  | isInterface, other => isInterface == other

/-- A type found for a parameter gives way to another one that it matches unless it is declared:
to a declared type or to a directed channel type. -/
def givesWay (mode : MatchMode) (old new : Ty) : Bool :=
  !mode.exact && !isDeclared old && (isDeclared new || isDirected new)

/-- The greatest depth of types that are matched. -/
def unifyDepth : Nat := 50

/-- Match two types.  The parameters to be bound are numbered from {lit}`first` on; {lit}`met` are
the pairs of interfaces that are being matched, and {lit}`fuel` bounds the depth of types. -/
def unify (env : TypeEnv) (first : Nat) :
    Nat → MatchMode → List (Ty × Ty) → Ty → Ty → Bindings → Option Bindings
  | 0, _, _, _, _, _ => none
  | fuel + 1, mode, met, x, y, b =>
    let swapped := isDeclared x || (boundParam? first y).isSome
    let (x, y) := if swapped then (y, x) else (x, y)
    let opens := !mode.exact && isDeclared y && isWritten x && !env.isInterface x
    let y := if opens then env.under y else y
    let all (mode : MatchMode) (xs ys : List Ty) (b : Bindings) : Option Bindings :=
      if xs.length = ys.length then
        (xs.zip ys).foldlM (fun b p => unify env first fuel mode met p.1 p.2 b) b
      else none
    let methods (xs ys : List (String × Ty)) : Option Bindings :=
      xs.foldlM (fun b (name, t) => do
        unify env first fuel .identical ((x, y) :: met) t (← ys.lookup name) b) b
    if x.alike y then some b
    else
      match boundParam? first x, boundParam? first y with
      | some p, some q =>
        match b.join? p q, b.type? p, b.type? q with
        | some b, _, _ => some b
        | none, some t, some u => unify env first fuel mode met t u b
        | _, _, _ => none
      | some p, none =>
        match b.type? p with
        | none => some (b.bind p y)
        | some t => do
          let b ← unify env first fuel mode met t y b
          if !canChoose env t y then none
          return if givesWay mode t y then b.bind p y else b
      | none, _ =>
        match mode.exact, env.isOrdinaryInterface x, env.isOrdinaryInterface y with
        | false, true, true =>
          if !env.sameTypes x y then none
          else if met.any fun p => p.1.alike x && p.2.alike y then some b
          else
            let xs := env.methodTable x
            let ys := env.methodTable y
            if xs.length ≤ ys.length then methods xs ys else methods ys xs
        | false, true, false | false, false, true =>
          let (i, t) := if env.isOrdinaryInterface x then (x, y) else (y, x)
          (env.methodTable i).foldlM (fun b (name, u) =>
            match env.member? t false name with
            | some ⟨.method m, _⟩ =>
              if m.typeParams.isEmpty then unify env first fuel .identical met u m.type b else none
            | _ => none) b
        | _, _, _ =>
          let (x, y) := if TypeEnv.isParam y then (y, x) else (x, y)
          let inner := mode.elements
          match x.unalias, y.unalias with
          | .param id, _ => do
            unify env first fuel .assignment met (← env.core? (.param id)) y b
          | .basic x, .basic y => if x.canonical = y.canonical then some b else none
          | .named m xs, .named n ys => if m = n then all mode xs ys b else none
          | .pointer x, .pointer y => unify env first fuel inner met x y b
          | .slice x, .slice y => unify env first fuel inner met x y b
          | .array m x, .array n y => if m = n then unify env first fuel inner met x y b else none
          | .map k x, .map l y => all inner [k, x] [l, y] b
          | .chan d x, .chan e y =>
            if !mode.exact || d = e then unify env first fuel inner met x y b else none
          | .func _ _ ps rs v, .func _ _ qs ss w =>
            if v = w then (all inner ps qs b).bind (all inner rs ss) else none
          | .struct ms xs, .struct ns ys => if ms = ns then all inner xs ys b else none
          | .interface .., .interface .. =>
            let xs := env.methodTable x
            let ys := env.methodTable y
            if met.any fun p => p.1.alike x && p.2.alike y then some b
            else if env.sameTypes x y && xs.length == ys.length then methods xs ys
            else none
          | _, _ => none

/-! ## Constraints -/

/-- A type parameter to be bound. -/
structure Unknown where
  /-- Its number, which is none of those that are declared. -/
  id : Nat
  /-- Its constraint, over the parameters to be bound. -/
  constraint : Ty
  /-- The argument that is written for it. -/
  given? : Option Ty

/-- The type that all types of a constraint have in common, and whether it is the only one. -/
structure CoreTerm where
  type : Ty
  single : Bool

/-- The common type of the types of a constraint. -/
def coreTerm? (env : TypeEnv) (constraint : Ty) : Option CoreTerm := do
  match env.typeSet? constraint with
  | some (.terms [x]) => return ⟨x.type, !x.tilde⟩
  | some (.terms (x :: xs)) =>
    let u ← xs.foldlM (fun u y => env.commonType? u (env.under y.type)) (env.under x.type)
    return ⟨u, false⟩
  | _ => none

/-- Use the constraint of one parameter: the type found for it matches the common type of the
constraint, which it becomes if it is not known yet, and its methods match those of the
constraint. -/
def useConstraint (env : TypeEnv) (first : Nat) (b : Bindings) (u : Unknown) : Option Bindings := do
  let found? := b.type? u.id
  let b ←
    match found?, coreTerm? env u.constraint with
    | some t, some core => unify env first unifyDepth .loose [] t core.type b
    | none, some core => some (if core.single then b.bind u.id core.type else b)
    | _, none => some b
  match found? with
  | none => return b
  | some t =>
    (env.methodTable u.constraint).foldlM (fun b (name, type) =>
      match env.member? t false name with
      | some ⟨.method m, _⟩ =>
        if m.typeParams.isEmpty then unify env first unifyDepth .identical [] m.type type b
        else none
      | _ => none) b

/-- Use the constraints of all parameters, again as long as more types are found; {lit}`fuel` bounds
the number of rounds. -/
def useConstraints (env : TypeEnv) (first : Nat) (us : List Unknown) :
    Nat → Bindings → Option Bindings
  | 0, b => some b
  | fuel + 1, b => do
    let more ← us.foldlM (useConstraint env first) b
    let ids := us.map (·.id)
    if more.unknowns ids = b.unknowns ids then return more
    else useConstraints env first us fuel more

/-! ## Type arguments -/

/-- A type that mentions a parameter to be bound. -/
def mentions (first : Nat) (t : Ty) : Bool :=
  (t.subst fun id => if first ≤ id then some .invalid else none) != t

/-- Use the type of an argument for a parameter. -/
def useArgument (env : TypeEnv) (first : Nat) (b : Bindings) (p : Ty × Judgment) :
    Option Bindings :=
  let (t, x) := p
  if TypeEnv.isUntyped x.type || !(mentions first t || mentions first x.type) then some b
  else unify env first unifyDepth .assignment [] t x.type b

/-- The largest default type of the untyped arguments for a parameter that has no type yet; there
is a fault if they do not fit together. -/
def useUntyped (pairs : List (Ty × Judgment)) (b : Bindings) (u : Unknown) : Option Bindings :=
  let isOwn : Ty → Bool
    | .param id => id == u.id
    | _ => false
  let kinds := pairs.filterMap fun (t, x) =>
    if isOwn t && !x.isNil then TypeEnv.untyped? x.type else none
  match b.type? u.id, kinds with
  | none, k :: ks =>
    (ks.foldlM BasicType.larger? k).map fun k => b.bind u.id (TypeEnv.defaultType (.basic k))
  | _, _ => some b

/-- Put the types found into each other, as often as there are parameters. -/
def closeBindings (us : List Unknown) (b : Bindings) : List (Nat × Ty) :=
  let found := us.filterMap fun u => (b.type? u.id).map fun t => (u.id, t)
  us.length.repeat (fun found => found.map fun (id, t) => (id, t.subst (found.lookup ·))) found

/-- The type arguments for parameters to be bound, which are numbered from {lit}`first` on, given
arguments and the types that these are for. -/
def infer? (env : TypeEnv) (first : Nat) (us : List Unknown) (pairs : List (Ty × Judgment)) :
    Option (List Ty) := do
  match us.mapM (·.given?) with
  | some ts => return ts
  | none =>
    let given := us.filterMap fun u => u.given?.map fun t => (u.id, t)
    let pairs := pairs.map fun (t, x) => (t.subst (given.lookup ·), x)
    let b ← pairs.foldlM (useArgument env first) ⟨[], given⟩
    let b ← useConstraints env first us (us.length + 1) b
    let b ← us.foldlM (useUntyped pairs) b
    let found := closeBindings us b
    us.mapM fun u => do
      let t ← found.lookup u.id
      if mentions first t then none else return t

end Typing
end WordRanges
