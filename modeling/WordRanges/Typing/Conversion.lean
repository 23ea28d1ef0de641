import WordRanges.Typing.State

/-!
# Conversions between types

An untyped expression takes the type that its context asks for, if its values fit.  Values
can be assigned to variables of some other types, and converted to yet more types.

Main definitions:

- {lit}`TypeEnv.implicit?`: the type that an untyped expression takes.
- {lit}`TypeEnv.assignable`, {lit}`TypeEnv.convertible`: assignment and conversion.
- {lit}`convertUntyped`, {lit}`assign`: the same with what it means for the parts of an
  expression.
-/

namespace WordRanges
namespace Source

open Typing

/-- The place of an untyped number type in the order in which they absorb each other. -/
def BasicType.untypedRank? : BasicType → Option Nat
  | .untypedInt => some 0
  | .untypedRune => some 1
  | .untypedFloat => some 2
  | .untypedComplex => some 3
  | _ => none

/-- The untyped type of an operation on operands of two untyped types. -/
def BasicType.larger? (a b : BasicType) : Option BasicType :=
  if a = b then some a
  else
    match a.untypedRank?, b.untypedRank? with
    | some m, some n => some (if m < n then b else a)
    | _, _ => none

namespace TypeEnv

/-! ## Types of untyped expressions -/

/-- The type that an untyped expression takes where a type is asked for that is no type
parameter and has a given underlying type, and its value as one of that type. -/
def implicitUnder? (env : TypeEnv) (x : Judgment) (target under : Ty) :
    Option (Ty × Option Constant) :=
  let nilType : Option (Ty × Option Constant) :=
    if x.isNil then some (.basic .untypedNil, none) else none
  match under with
  | .basic b =>
    match x.mode, untyped? x.type with
    | .constant v, _ => (v.represent? b).map fun v => (target, some v)
    | _, some .untypedBool => if b.isBoolean then some (target, none) else none
    | _, some .untypedString => if b.isString then some (target, none) else none
    | _, some .untypedNil => if b = .unsafePointer then nilType else none
    | _, some _ => if b.isNumeric then some (target, none) else none
    | _, none => none
  | .interface .. =>
    if x.isNil then nilType
    else if env.isEmptyInterface target then some (defaultType x.type, none)
    else none
  | .pointer _ | .func .. | .slice _ | .map .. | .chan .. => nilType
  | _ => none

/-- The type that an untyped expression takes where a type is asked for, and its value as
one of that type.  Where a type parameter is asked for, it must fit all types that this can
stand for.  The type of any other expression stays. -/
def implicit? (env : TypeEnv) (x : Judgment) (target : Ty) : Option (Ty × Option Constant) :=
  match untyped? x.type with
  | none => some (x.type, none)
  | some a =>
    match untyped? target with
    | some b => (a.larger? b).map fun c => (.basic c, none)
    | none =>
      if isParam target then
        if env.underAll target fun u => (env.implicitUnder? x u u).isSome then
          some (if x.isNil then x.type else target, none)
        else none
      else env.implicitUnder? x target (env.under target)

/-! ## Assignment -/

/-- Values of a type can be assigned to variables of another type, which is known without
looking at what type parameters can stand for. -/
def assignableType (env : TypeEnv) (v t : Ty) : Bool :=
  let vu := env.under v
  let tu := env.under t
  let params := isParam v || isParam t
  if env.same v t then true
  else if env.same vu tu && (!hasName v || !hasName t) && !params then true
  else if env.isOrdinaryInterface t then env.implements false v t
  else
    match vu, tu with
    | .chan .both a, .chan _ b => env.same a b && (!hasName v || !hasName t)
    | _, _ => false

/-- An expression can be assigned to variables of a type. -/
def assignable (env : TypeEnv) (x : Judgment) (t : Ty) : Bool :=
  let v := x.type
  if env.same v t then true
  else if isUntyped v then
    if isParam t then env.typeAll t fun t => (env.implicit? x t).isSome
    else (env.implicit? x t).isSome
  else
    env.assignableType v t
      || (isParam t && !hasName v && env.typeAll t fun t => env.assignableType v t)
      || (isParam v && !hasName t && env.typeAll v fun v => env.assignableType v t)

/-! ## Conversion -/

/-- A list of bytes or of code points. -/
def isTextList (env : TypeEnv) : Ty → Bool
  | .slice e => env.basicIs e fun b => b.canonical == .uint8 || b.canonical == .int32
  | _ => false

/-- Values of a type can be converted to another type; neither is a type parameter. -/
def convertibleType (env : TypeEnv) (v t : Ty) : Bool :=
  let vu := env.under v
  let tu := env.under t
  let isBasic (p : BasicType → Bool) (u : Ty) : Bool :=
    match u with
    | .basic b => p b
    | _ => false
  let isReal := isBasic fun b => b.isInteger || b.isFloat
  let isComplex := isBasic (·.isComplex)
  let isString := isBasic (·.isString)
  let isInteger := isBasic (·.isInteger)
  env.sameUntagged vu tu
    || (isReal vu && isReal tu)
    || (isComplex vu && isComplex tu)
    || ((isInteger vu || env.isTextList vu) && isString tu)
    || (isString vu && env.isTextList tu)
    || (match v.unalias, t.unalias with
      | .pointer a, .pointer b =>
        env.sameUntagged (env.under a) (env.under b) && !isParam a && !isParam b
      | _, _ => false)
    || (match vu, tu with
      | .slice a, .array _ b => env.same a b
      | .slice a, .pointer p =>
        match env.under p with
        | .array _ b => env.same a b
        | _ => false
      | _, _ => false)

/-- An expression can be converted to a type. -/
def convertible (env : TypeEnv) (x : Judgment) (t : Ty) : Bool :=
  env.assignable x t
    || (if isParam x.type || isParam t then
          env.typeAll x.type fun v => env.typeAll t fun t =>
            env.assignable { x with type := v } t || env.convertibleType v t
        else env.convertibleType x.type t)

end TypeEnv
end Source

namespace Typing

open Source

/-! ## Methods that get their types -/

/-- Resolve the method of a name that a type has, if any, so that its type is known. -/
def settleMethod (c : Checker) (t : Ty) (name : String) : Check Unit := do
  match (← types).member? t true name with
  | some ⟨.method m, _⟩ => m.object?.forM c.resolve
  | _ => return

/-- Resolve the methods of a type that an interface asks for. -/
def settleMethods (c : Checker) (t interface : Ty) : Check Unit := do
  let env ← types
  if env.isOrdinaryInterface interface then
    (env.methodsOf interface).forM fun m => settleMethod c t m.1

/-! ## Expressions that get their types -/

/-- The type of an untyped expression becomes known, and with it the types of those parts
of it whose values are those of the whole.  Unless {lit}`final`, it may still be an untyped one. -/
def updateType (t : Ty) (final : Bool) (e : Exp) : Check Unit := do
  match ← recordOf? e with
  | none => return
  | some r =>
    if !TypeEnv.isUntyped r.type then return
    match e with
    | .paren _ x => updateType t final x
    | .unary _ _ x => if r.value?.isNone then updateType t final x
    | .binary _ op x y =>
      if r.value?.isNone then
        match op with
        | .eq | .ne | .lt | .le | .gt | .ge => pure ()
        | .shl | .shr => updateType t final x
        | _ =>
          updateType t final x
          updateType t final y
    | _ => pure ()
    if !final && TypeEnv.isUntyped t then
      putRecord { r with type := t }
    else
      let env ← types
      if r.isShifted then require (env.basicAll t (·.isInteger))
      match r.value? with
      | some v => discard (must (env.implicit? ⟨e, .constant v, r.type, [], false⟩ t))
      | none => pure ()
      putRecord { r with type := t }

/-- The value of an untyped constant changes with its type. -/
def updateValue (e : Exp) (v : Constant) : Check Unit := do
  match ← recordOf? e with
  | some r => if TypeEnv.isUntyped r.type then putRecord { r with value? := some v }
  | none => return

/-- An untyped expression takes the type that is asked for. -/
def convertUntyped (x : Judgment) (target : Ty) : Check Judgment := do
  if !TypeEnv.isUntyped x.type then return x
  let (t, v?) ← must ((← types).implicit? x target)
  let x ← match v? with
    | some v =>
      updateValue x.exp v
      pure { x with mode := .constant v }
    | none => pure x
  if x.type == t then return x
  updateType t false x.exp
  return { x with type := t }

/-- A constant as a value of a basic type. -/
def represent (x : Judgment) (b : BasicType) : Check Judgment := do
  match x.mode with
  | .constant v => return { x with mode := .constant (← must (v.represent? b)) }
  | _ => return x

/-- Assign an expression to a variable of a type, or to the blank name. -/
def assign (c : Checker) (x : Judgment) (target? : Option Ty) : Check Judgment := do
  require (x.isValue && x.typeParams.isEmpty)
  let env ← types
  let x ←
    if TypeEnv.isUntyped x.type then
      match target? with
      | none =>
        require !x.isNil
        convertUntyped x (TypeEnv.defaultType x.type)
      | some t =>
        convertUntyped x (if env.isOrdinaryInterface t then TypeEnv.defaultType x.type else t)
    else pure x
  match target? with
  | none => return x
  | some t =>
    settleMethods c x.type t
    require ((← types).assignable x t)
    return x

end Typing
end WordRanges
