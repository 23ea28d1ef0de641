import Std.Data.HashMap
import WordRanges.Typing.Judgment

/-!
# The state of checking a package

Checking a package finds out what its names stand for and what its expressions are.  Any
fault ends it.  Declarations of the package are resolved when they are needed first, so
their order does not matter; what can only be told when all types are known is kept as
conditions for the end.

Main definitions:

- {lit}`Object`, {lit}`Record`: what is known of a name and of an expression.
- {lit}`State`, {lit}`Check`: the state, and computations that change it and can fail.
- {lit}`Checker`: the checks for nested parts.
-/

namespace WordRanges
namespace Typing

open Source

/-- How a name of the package is declared. -/
inductive Declaration where
  | constant (type? value? : Option Exp) (iota : Int)
  /-- A variable; {lit}`group` are all variables that the value initializes. -/
  | variable (group : List Nat) (type? value? : Option Exp)
  | type (params? : Option FieldList) (isAlias : Bool) (type : Exp)
  | function (signature : Exp) (body? : Option Block)
  | method (receiver : FieldList) (signature : Exp) (body? : Option Block)

/-- How far a declaration is resolved. -/
inductive Progress where
  | waiting | started | done
deriving DecidableEq

/-- A declared name. -/
structure Object where
  name : String
  /-- What it stands for, as far as that is known. -/
  entity? : Option Entity
  declaration? : Option Declaration
  progress : Progress
  /-- It has to be used: a variable of a function. -/
  mustUse : Bool
  used : Bool
  /-- The version of the language that it is declared in, if its file tells. -/
  version? : Option Nat := none

/-- What is known of an expression. -/
structure Record where
  exp : Exp
  type : Ty
  value? : Option Constant
  isType : Bool
  /-- It is an untyped operand of a shift whose number of bits is not constant, so that it must
  turn out to be an integer. -/
  isShifted : Bool

/-- Names and the numbers of their declarations. -/
abbrev Scope := List (String × Nat)

/-- A result of a function. -/
structure Result where
  name : String
  type : Ty
  /-- The number of the declaration of its name. -/
  object? : Option Nat

/-- Where checking stands. -/
structure Place where
  /-- The scopes within a function, the innermost first. -/
  scopes : List Scope
  /-- The index of the constant that is declared. -/
  iota? : Option Int
  /-- The declaration of the package that is checked. -/
  owner? : Option Nat
  /-- The results of the function around. -/
  results : List Result
  /-- There was a call or a receive operation. -/
  hasCall : Bool
  /-- The version of the language, if the file tells. -/
  version? : Option Nat

/-- Outside of all functions. -/
def Place.outside : Place := ⟨[], none, none, [], false, none⟩

/-- The body of a function to be checked. -/
structure Body where
  /-- The index of the constant around it. -/
  iota? : Option Int
  version? : Option Nat
  owner? : Option Nat
  scope : Scope
  results : List Result
  block : Block

/-- What must hold once all types are known. -/
inductive Condition where
  /-- The type is one of keys of a map. -/
  | isKey (t : Ty)
  /-- The type is one of variables. -/
  | isOrdinary (t : Ty)
  /-- The type can be embedded in a struct; {lit}`pointer` if as a pointer. -/
  | isEmbeddable (t : Ty) (pointer : Bool)
  /-- The terms make a union. -/
  | isUnion (terms : List Term)
  /-- The methods of an interface have different names, or the same type if they are embedded. -/
  | isInterface (t : Ty)
  /-- The arguments satisfy the constraints of the parameters; {lit}`followed` if they count where
  instances of generic functions and types are followed. -/
  | satisfy (params : List Nat) (args : List Ty) (followed : Bool)

/-- What is known of a package. -/
structure State where
  path : String
  env : TypeEnv
  objects : Array Object
  package : Std.HashMap String Nat
  records : Std.HashMap Span Record
  /-- Which declaration uses which other one. -/
  uses : Array (Nat × Nat)
  /-- The calls that never return. -/
  panics : List Span
  bodies : Array Body
  conditions : List Condition
  /-- The types that are to be resolved later, while a further name of a type is resolved. -/
  deferred? : Option (List Nat)
  place : Place

/-- A package of which nothing is known. -/
def State.initial (path : String) : State where
  path := path
  env := predeclaredTypes
  objects := #[]
  package := ∅
  records := ∅
  uses := #[]
  panics := []
  bodies := #[]
  conditions := []
  deferred? := none
  place := .outside

/-- A computation that may find a fault in the package. -/
abbrev Check := StateT State Option

/-- Fail unless something holds. -/
def require (holds : Bool) : Check Unit :=
  if holds then return else failure

/-- What must be there. -/
def must {α : Type} : Option α → Check α
  | some a => return a
  | none => failure

/-- The declared types. -/
def types : Check TypeEnv :=
  return (← get).env

/-- Leave a condition for the end. -/
def await (c : Condition) : Check Unit :=
  modify fun s => { s with conditions := c :: s.conditions }

/-- The body of a function is to be checked later. -/
def postponeBody (b : Body) : Check Unit :=
  modify fun s => { s with bodies := s.bodies.push b }

/-! ## Places -/

/-- Where checking stands. -/
def here : Check Place :=
  return (← get).place

/-- Change where checking stands. -/
def move (f : Place → Place) : Check Unit :=
  modify fun s => { s with place := f s.place }

/-- Check something elsewhere and come back. -/
def elsewhere {α : Type} (p : Place) (x : Check α) : Check α := do
  let before ← here
  move fun _ => p
  let a ← x
  move fun _ => before
  return a

/-- Check something in a new scope with some names. -/
def inScope {α : Type} (scope : Scope) (x : Check α) : Check α := do
  let before := (← here).scopes
  move fun p => { p with scopes := scope :: p.scopes }
  let a ← x
  move fun p => { p with scopes := before }
  return a

/-- Something is part of the language only from a version on. -/
def needVersion (version : Nat) : Check Unit := do
  require ((← here).version?.all (version ≤ ·))

/-- There was a call or a receive operation. -/
def noteCall : Check Unit :=
  move fun p => { p with hasCall := true }

/-- Whether something contains a call or a receive operation. -/
def observingCalls {α : Type} (x : Check α) : Check (α × Bool) := do
  let before := (← here).hasCall
  move fun p => { p with hasCall := false }
  let a ← x
  let seen := (← here).hasCall
  move fun p => { p with hasCall := before || seen }
  return (a, seen)

/-- Check something that needs to know what declared types stand for. -/
def undeferred {α : Type} (x : Check α) : Check α := do
  let before := (← get).deferred?
  modify fun s => { s with deferred? := none }
  let a ← x
  modify fun s => { s with deferred? := before }
  return a

/-! ## Names -/

/-- A new object, which belongs to no scope. -/
def newObject (o : Object) : Check Nat :=
  modifyGet fun s => (s.objects.size, { s with objects := s.objects.push o })

/-- Change an object. -/
def updateObject (id : Nat) (f : Object → Object) : Check Unit :=
  modify fun s => { s with objects := s.objects.modify id f }

/-- A new object of a function. -/
def newLocal (name : String) (e : Entity) (mustUse : Bool) : Check Nat :=
  newObject ⟨name, some e, none, .done, mustUse, false, none⟩

/-- Add a name to the innermost scope, where it must be new; the blank name is not added. -/
def addName (name : String) (id : Nat) : Check Unit := do
  if name = "_" then return
  match (← here).scopes with
  | [] => failure
  | scope :: scopes =>
    require (scope.lookup name).isNone
    move fun p => { p with scopes := ((name, id) :: scope) :: scopes }

/-- Declare a name in the innermost scope; the blank name need not be used. -/
def declare (name : String) (e : Entity) (mustUse : Bool) : Check Nat := do
  let id ← newLocal name e (mustUse && name != "_")
  addName name id
  return id

/-- What a name may refer to. -/
inductive Reference where
  | object (id : Nat) (o : Object)
  | predeclared (e : Entity)

/-- What a name refers to: the innermost declaration counts. -/
def refer? (name : String) : Check (Option Reference) := do
  let s ← get
  match s.place.scopes.findSome? fun scope => scope.lookup name with
  | some id => return (s.objects[id]?).map (.object id)
  | none =>
    match s.package[name]? with
    | some id => return (s.objects[id]?).map (.object id)
    | none => return (predeclared? name).map .predeclared

/-- The declaration of the package that is checked uses another one. -/
def noteUse (id : Nat) : Check Unit := do
  updateObject id fun o => { o with used := true }
  match (← here).owner? with
  | some owner => modify fun s => { s with uses := s.uses.push (owner, id) }
  | none => return

/-! ## Types -/

/-- Declare a type that is not known yet. -/
def newNamed (name : String) : Check Nat :=
  modifyGet fun s =>
    (s.env.named.size,
      { s with env := { s.env with
        named := s.env.named.push ⟨s.path ++ "." ++ name, [], .invalid, [], []⟩ } })

/-- Change the declaration of a type. -/
def updateNamed (id : Nat) (f : NamedDef → NamedDef) : Check Unit :=
  modify fun s => { s with env := { s.env with named := s.env.named.modify id f } }

/-- Declare a type parameter whose constraint is not known yet; it may stand for another one. -/
def newParam (name : String) (pos : Nat) (origin? : Option Nat) : Check Nat :=
  modifyGet fun s =>
    let d : ParamDef := ⟨name, .invalid, pos, (predeclared? name).isSome, origin?⟩
    (s.env.params.size, { s with env := { s.env with params := s.env.params.push d } })

/-- Give a type parameter its constraint. -/
def constrain (id : Nat) (constraint : Ty) : Check Unit :=
  modify fun s =>
    { s with env := { s.env with params := s.env.params.modify id fun d => { d with constraint } } }

/-! ## Records -/

/-- What is known of an expression. -/
def recordOf? (e : Exp) : Check (Option Record) :=
  return (← get).records[e.span]?

/-- Record what is known of an expression. -/
def putRecord (r : Record) : Check Unit :=
  modify fun s => { s with records := s.records.insert r.exp.span r }

/-- Record a judgment, if it is one of a value or a type. -/
def record (j : Judgment) : Check Unit :=
  match j.mode with
  | .nothing | .builtin _ => return
  | _ => putRecord ⟨j.exp, j.type, j.constant?, j.isType, false⟩

/-! ## Nested parts -/

/-- What a statement may do because of the statements around it. -/
structure Surroundings where
  /-- It may break out of a statement around it. -/
  breaks : Bool
  /-- It may continue a loop around it. -/
  continues : Bool
  /-- It may fall through to the next clause. -/
  falls : Bool

/-- No statements around. -/
def Surroundings.none : Surroundings := ⟨false, false, false⟩

/-- The checks for nested parts. -/
structure Checker where
  /-- An expression or type; elements of composite literals may take their type from around. -/
  judge : Option Ty → Exp → Check Judgment
  /-- A type. -/
  type : Exp → Check Ty
  /-- Statements, in the innermost scope. -/
  statements : Surroundings → List Stm → Check Unit
  /-- The body of a function. -/
  body : Body → Check Unit
  /-- A declaration of the package. -/
  resolve : Nat → Check Unit

/-- The checks at no depth, which fail. -/
def Checker.bottom : Checker where
  judge _ _ := failure
  type _ := failure
  statements _ _ := failure
  body _ := failure
  resolve _ := failure

end Typing
end WordRanges
