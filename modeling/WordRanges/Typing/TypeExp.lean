import WordRanges.Source.Literal
import WordRanges.Text.Capital
import WordRanges.Typing.Inference
import WordRanges.Typing.Operator

/-!
# Types as they are written

Types are written as expressions.  A name may stand for a type that is still being
declared; so what needs its underlying type is left as a condition.

Main definitions:

- {lit}`typeOf`: the type that an expression writes.
- {lit}`signatureOf`: the type of a function with the names that it declares.
- {lit}`declareTypeParams`: type parameters and their constraints.
-/

namespace WordRanges
namespace Typing

open Source

/-! ## Names and values -/

/-- The declaration of a type that is not generic, so that its name can be used before it is
resolved. -/
def Object.isPlainType (o : Object) : Bool :=
  match o.declaration? with
  | some (.type none false _) => true
  | _ => false

/-- What a name stands for.  A name of the package is resolved first, or later if possible. -/
def entityOf (c : Checker) (name : String) : Check Entity := do
  match ← refer? name with
  | none => failure
  | some (.predeclared e) => return e
  | some (.object id o) =>
    if o.progress = .waiting then
      match (← get).deferred?, o.isPlainType with
      | some ids, true => modify fun s => { s with deferred? := some (id :: ids) }
      | _, _ => c.resolve id
    let o ← must (← get).objects[id]?
    let e ← must o.entity?
    match e with
    | .constant .. | .variable _ | .function .. => noteUse id
    | _ => pure ()
    return e

/-- A generic type without its arguments. -/
def isGeneric (env : TypeEnv) (t : Ty) : Bool :=
  match t.unalias with
  | .named id [] => ((env.named[id]?).map fun d => !d.params.isEmpty).getD false
  | _ => false

/-- The results of a call that has several. -/
def isTuple (t : Ty) : Bool :=
  match t with
  | .tuple _ => true
  | _ => false

/-- Type parameters as parameters to be bound, which are numbered from {lit}`first` on. -/
def unknownsFor (env : TypeEnv) (first : Nat) (params : List (Nat × Option Ty)) : List Unknown :=
  let fresh := (List.range params.length).map (· + first)
  let renamed : Ty → Ty := Ty.subst (TypeEnv.lookupArg (params.map (·.1)) (fresh.map .param))
  (fresh.zip params).map fun (id, p, given?) =>
    ⟨id, renamed (((env.params[p]?).map (·.constraint)).getD .invalid), given?⟩

/-- A type with parameters to be bound in place of type parameters. -/
def unbound (us : List Unknown) (params : List (Nat × Option Ty)) : Ty → Ty :=
  Ty.subst (TypeEnv.lookupArg (params.map (·.1)) (us.map fun u => .param u.id))

/-- Resolve the methods of declared types that inference may look at: those with the names of
methods of constraints and of some types. -/
def settleNamed (c : Checker) (params : List Nat) (ts : List Ty) : Check Unit := do
  let env ← types
  let constraints := params.filterMap fun p => (env.params[p]?).map (·.constraint)
  let names := (constraints ++ ts).flatMap fun t => (env.methodsOf t).map (·.1)
  env.named.toList.forM fun d =>
    d.methods.forM fun m => if names.contains m.name then c.resolve m.object else pure ()

/-- A generic function with its type arguments. -/
def withArguments (j : Judgment) (args : List Ty) (followed : Bool) : Check Judgment := do
  let params := j.typeParams.map (·.1)
  await (.satisfy params args followed)
  let j := { j with type := j.type.subst (TypeEnv.lookupArg params args), typeParams := [] }
  record j
  return j

/-- A generic function with its type arguments.  Those that are not written follow from the type
of functions that is asked for; without one, some have to be written. -/
def instantiated (c : Checker) (target? : Option Ty) (j : Judgment) : Check Judgment := do
  if j.typeParams.isEmpty then return j
  let env ← types
  let goals := (target?.map env.under).toList.filter fun
    | .func .. => true
    | _ => false
  require (j.isValue && (!goals.isEmpty || j.typeParams.any fun p => p.2.isSome))
  settleNamed c (j.typeParams.map (·.1)) (j.type :: goals)
  let env ← types
  let us := unknownsFor env env.params.size j.typeParams
  let pairs := goals.map fun t => (unbound us j.typeParams j.type, { j with type := t })
  withArguments j (← must (infer? env env.params.size us pairs)) true

/-- An expression that has a single value.  Elements of composite literals may take their type
from {lit}`hint?`, and generic functions their type arguments from {lit}`target?`. -/
def valueWith (c : Checker) (hint? target? : Option Ty) (e : Exp) : Check Judgment := do
  let j ← instantiated c target? (← c.judge hint? e)
  require (j.isValue && !isTuple j.type)
  return j

/-- An expression that has a single value. -/
def valueOf (c : Checker) (e : Exp) : Check Judgment :=
  valueWith c none none e

/-- An expression that has a single value, for a variable of a type. -/
def valueFor (c : Checker) (target? : Option Ty) (e : Exp) : Check Judgment :=
  valueWith c none target? e

/-- The type from which a generic function takes its type arguments where it is neither assigned
nor passed nor returned. -/
def inferenceTarget? (t : Ty) : Check (Option Ty) := do
  return if (← here).version?.all (27 ≤ ·) then some t else none

/-- The length of an array type. -/
def arrayLength (c : Checker) (e : Exp) : Check Int := do
  let x ← undeferred (valueOf c e)
  let v ← must x.constant?
  require (TypeEnv.isUntyped x.type || (← types).basicIs x.type (·.isInteger))
  let n ← must v.toInt?
  require (0 ≤ n && ((Constant.int n).represent? .int).isSome)
  return n

/-- The type of a variable. -/
def varType (c : Checker) (e : Exp) : Check Ty := do
  let t ← c.type e
  await (.isOrdinary t)
  return t

/-! ## Structs -/

/-- The name of an embedded field. -/
def embeddedName? : Exp → Option String
  | .ident id => some id.name
  | .star _ (.ident id) => some id.name
  | .star _ (.index _ (.ident id) _) => some id.name
  | .index _ (.ident id) _ => some id.name
  | _ => none

/-- The text of a tag. -/
def tagText (tag? : Option Tag) : List UInt8 :=
  match tag?.bind fun tag => literalValue? .string tag.text with
  | some (.string bytes) => bytes
  | _ => []

/-- The labels and types of a field. -/
def fieldTypes (c : Checker) : Field → Check (List (FieldLabel × Ty))
  | .mk _ [] e tag? => do
    let name ← must (embeddedName? e)
    let t ← varType c e
    let (base, isPointer) := strip t
    await (.isEmbeddable base isPointer)
    return [(⟨name, true, tagText tag?⟩, t)]
  | .mk _ names e tag? => do
    let t ← varType c e
    return names.map fun n => (⟨n.name, false, tagText tag?⟩, t)

/-- No name but the blank one occurs twice. -/
def distinct (names : List String) : Bool :=
  let names := names.filter (· != "_")
  names.eraseDups.length == names.length

/-- The type of a struct. -/
def structType (c : Checker) (fields : FieldList) : Check Ty := do
  let parts := (← fields.fields.mapM (fieldTypes c)).flatten
  require (distinct (parts.map (·.1.name)))
  return .struct (parts.map (·.1)) (parts.map (·.2))

/-! ## Unions and constraints -/

/-- The terms of a union. -/
def unionTerms (c : Checker) : Exp → Check (List Term)
  | .binary _ .bitOr x y => do return (← unionTerms c x) ++ (← unionTerms c y)
  | .unary _ .tilde x => do
    let t ← c.type x
    require !TypeEnv.isParam t
    return [⟨true, t⟩]
  | e => do
    let t ← c.type e
    require !TypeEnv.isParam t
    return [⟨false, t⟩]

/-- The type that an element of an interface writes: a union, or a type alone. -/
def elementType (c : Checker) (e : Exp) : Check Ty := do
  let terms ← unionTerms c e
  match terms with
  | [⟨false, t⟩] => return t
  | terms =>
    await (.isUnion terms)
    return .union (terms.map (·.tilde)) (terms.map (·.type))

/-- A type as a constraint: one that is no interface stands for the interface that consists of
it.  This cannot be told of a type that is being declared. -/
def asConstraint (env : TypeEnv) (t : Ty) : Ty :=
  match env.under t with
  | .interface .. | .basic .invalid => t
  | _ => .interface [] [] [t] true

/-- The constraint of a type parameter.  A union stands for the interface that consists of it. -/
def constraintType (c : Checker) (e : Exp) : Check Ty := do
  match e with
  | .binary _ .bitOr _ _ | .unary _ .tilde _ => do
    let t := Ty.interface [] [] [← elementType c e] true
    await (.isInterface t)
    return t
  | _ =>
    let t ← c.type e
    require !TypeEnv.isParam t
    return asConstraint (← types) t

/-- Declare type parameters in the innermost scope, first their names and then their
constraints, which may mention all of them and what is declared with them; {lit}`announce` tells
of the parameters in between. -/
def declareTypeParams (c : Checker) (fields : List Field)
    (announce : List Nat → Check Unit) : Check (List Nat) := do
  let groups ← fields.mapM fun (.mk _ names e _) => do
    let ids ← names.mapM fun n => do
      let id ← newParam n.name n.pos none
      discard (declare n.name (.type (.param id)) false)
      return id
    return (ids, e)
  announce (groups.map (·.1)).flatten
  for (ids, e) in groups do
    let constraint ← undeferred (constraintType c e)
    for id in ids do constrain id constraint
  return (groups.map (·.1)).flatten

/-! ## Functions -/

/-- A function type with the names that it declares. -/
structure Signature where
  typeParams : List Nat
  type : Ty
  scope : Scope
  results : List Result

/-- Names and types of parameters or results; the last parameter may be variadic. -/
def parameterTypes (c : Checker) (variadicOk : Bool) :
    List Field → Check (List (String × Ty) × Bool)
  | [] => return ([], false)
  | .mk _ names e _ :: rest => do
    let (t, variadic) ←
      match e with
      | .ellipsis _ (some elem) => do
        require (variadicOk && rest.isEmpty && names.length ≤ 1)
        pure (Ty.slice (← varType c elem), true)
      | .ellipsis _ none => failure
      | _ => do pure (← varType c e, false)
    let here := if names.isEmpty then [("", t)] else names.map fun n => (n.name, t)
    let (there, v) ← parameterTypes c variadicOk rest
    return (here ++ there, variadic || v)

/-- Declare a parameter or result. -/
def declareParam (name : String) (t : Ty) : Check (Option Nat) := do
  if name.isEmpty || name == "_" then return none
  else return some (← declare name (.variable t) false)

/-- The parameters and results of a function whose type parameters are declared in the innermost
scope.  Their names are declared after all types, with the name of the receiver. -/
def signatureIn (c : Checker) (typeParams : List Nat) (receiver : List (String × Ty))
    (params : FieldList) (results? : Option FieldList) : Check Signature := do
  let (ps, variadic) ← parameterTypes c true params.fields
  let (rs, _) ← parameterTypes c false ((results?.map (·.fields)).getD [])
  for (name, t) in receiver ++ ps do discard (declareParam name t)
  let results ← rs.mapM fun (name, t) => do return Result.mk name t (← declareParam name t)
  return {
    typeParams
    type := .func (ps.map (·.1)) (rs.map (·.1)) (ps.map (·.2)) (rs.map (·.2)) variadic
    scope := (← here).scopes.headD []
    results }

/-- The type of a function with the names that it declares. -/
def signatureOf (c : Checker) (e : Exp) : Check Signature :=
  match e with
  | .func _ typeParams? params results? => inScope [] do
    let ids ← declareTypeParams c ((typeParams?.map (·.fields)).getD []) fun _ => pure ()
    signatureIn c ids [] params results?
  | _ => failure

/-! ## Interfaces -/

/-- The methods and the embedded types of an interface. -/
def interfaceParts (c : Checker) : List Field → Check (List (String × Ty) × List Ty)
  | [] => return ([], [])
  | .mk _ [name] e _ :: rest => do
    require (name.name != "_")
    let s ← signatureOf c e
    require s.typeParams.isEmpty
    let (methods, embeds) ← interfaceParts c rest
    return ((name.name, s.type) :: methods, embeds)
  | .mk _ _ e _ :: rest => do
    let t ← elementType c e
    require !TypeEnv.isParam t
    let (methods, embeds) ← interfaceParts c rest
    return (methods, t :: embeds)

/-- The type of an interface. -/
def interfaceType (c : Checker) (elems : FieldList) : Check Ty := do
  let (methods, embeds) ← interfaceParts c elems.fields
  require (distinct (methods.map (·.1)))
  let methods := methods.mergeSort fun a b => Text.exportedFirst a.1 b.1
  let t := Ty.interface (methods.map (·.1)) (methods.map (·.2)) embeds false
  await (.isInterface t)
  return t

/-! ## Generic types -/

/-- The type that a generic type gives for type arguments. -/
def instantiate (c : Checker) (generic : Exp) (args : List Exp) : Check Ty := do
  match generic with
  | .ident id =>
    match ← entityOf c id.name with
    | .type t =>
      require (isGeneric (← types) t)
      match t with
      | .named n _ =>
        let d ← must (← types).named[n]?
        let args ← args.mapM (varType c)
        require (args.length == d.params.length)
        await (.satisfy d.params args true)
        return .named n args
      | _ => failure
    | .genericAlias name params target =>
      let args ← args.mapM (varType c)
      require (args.length == params.length)
      await (.satisfy params args true)
      return .alias name args (target.subst (TypeEnv.lookupArg params args))
    | _ => failure
  | _ => failure

/-! ## All types -/

/-- The type that an expression writes, which may be a generic one. -/
def rawType (c : Checker) (e : Exp) : Check Ty := do
  match e with
  | .ident id =>
    match ← entityOf c id.name with
    | .type t => return t
    | _ => failure
  | .paren _ x => c.type x
  | .index _ x args => instantiate c x args
  | .array _ none elem => return .slice (← varType c elem)
  | .array _ (some (.ellipsis ..)) _ => failure
  | .array _ (some n) elem => do
    let n ← arrayLength c n
    return .array n (← varType c elem)
  | .star _ x => return .pointer (← varType c x)
  | .struct _ fields => structType c fields
  | .func _ none _ _ => return (← signatureOf c e).type
  | .interface _ elems => interfaceType c elems
  | .map _ key elem => do
    let key ← varType c key
    await (.isKey key)
    return .map key (← varType c elem)
  | .chan _ dir elem => return .chan dir (← varType c elem)
  | _ => failure

/-- The type that an expression writes. -/
def typeOf (c : Checker) (e : Exp) : Check Ty := do
  let t ← rawType c e
  require !isGeneric (← types) t
  putRecord ⟨e, t, none, true, false⟩
  return t

end Typing
end WordRanges
