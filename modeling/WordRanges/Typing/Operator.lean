import WordRanges.Typing.Conversion

/-!
# Operators

Operands of a binary operator are brought to one type, of which the operator must be
defined.  Operations on constants are done at once and exactly.  Shifts and comparisons
have rules of their own: the types of their operands are independent of each other, or of
the type of the result.

Main definitions:

- {lit}`unaryJudgment`: prefix operators.
- {lit}`binaryJudgment`: binary operators.
-/

namespace WordRanges
namespace Typing

open Source

/-! ## Constants -/

/-- The largest number of bits of an untyped integer constant. -/
def maxConstantBits : Nat := 512

/-- The largest number of bits by which a constant can be shifted to a constant. -/
def maxConstantShift : Nat := 1074

/-- A constant result has to be a value of its type; untyped integers must not grow without
limit. -/
def checkOverflow (x : Judgment) : Check Judgment := do
  match x.mode with
  | .constant v =>
    if TypeEnv.isUntyped x.type then
      match v with
      | .number (.int n) => require (Number.bitLength n ≤ maxConstantBits)
      | _ => pure ()
      return x
    else
      represent x (← must ((← types).basic? x.type))
  | _ => return x

/-! ## Prefix operators -/

/-- A type on whose values a prefix operator is defined. -/
def unaryDefined (env : TypeEnv) (op : Token) (t : Ty) : Bool :=
  match op with
  | .add | .sub => env.basicAll t (·.isNumeric)
  | .bitXor => env.basicAll t (·.isInteger)
  | .not => env.basicAll t (·.isBoolean)
  | _ => false

/-- The type of the elements that can be received from values of a type. -/
def receivedType? (env : TypeEnv) (t : Ty) : Option Ty :=
  match env.core? t with
  | some (.chan .send _) => none
  | some (.chan _ elem) => some elem
  | _ => none

/-- The judgment on a prefix operator, given the one on its operand. -/
def unaryJudgment (e : Exp) (op : Token) (x : Judgment) : Check Judgment := do
  let env ← types
  match op with
  | .bitAnd =>
    let isLiteral :=
      match x.exp.unparen with
      | .composite .. => true
      | _ => false
    require (isLiteral || x.isVariable)
    return ⟨e, .value, .pointer x.type, [], false⟩
  | .arrow =>
    let elem ← must (receivedType? env x.type)
    noteCall
    return ⟨e, .commaOk, elem, [], true⟩
  | _ =>
    require (unaryDefined env op x.type)
    match x.mode with
    | .constant v =>
      let width? :=
        match env.basic? x.type with
        | some b =>
          match b.integer? with
          | some shape => if shape.unsigned then some shape.width else none
          | none => none
        | none => none
      checkOverflow { x with exp := e, mode := .constant (← must (v.unary? op width?)) }
    | _ => return { x with exp := e, mode := .value }

/-! ## Shifts -/

/-- The judgment on a shift. -/
def shiftJudgment (e : Exp) (op : Token) (x y : Judgment) : Check Judgment := do
  let env ← types
  let whole? := x.constant?.bind Constant.toInt?
  require (env.basicAll x.type (·.isInteger) || (TypeEnv.isUntyped x.type && whole?.isSome))
  let count? := y.constant?.bind Constant.toInt?
  match y.mode with
  | .constant _ =>
    match count? with
    | some n => require (0 ≤ n)
    | none => pure ()
    if TypeEnv.isUntyped y.type then discard (represent y .uint)
  | _ =>
    if !env.basicAll y.type (·.isInteger) then
      require (TypeEnv.isUntyped y.type)
      discard (convertUntyped y (.basic .uint))
  match x.mode, y.mode, whole? with
  | .constant _, .constant _, some n =>
    let count ← must count?
    require (count ≤ maxConstantShift)
    let type := if env.basicIs x.type (·.isInteger) then x.type else .basic .untypedInt
    checkOverflow ⟨e, .constant (← must (Constant.shift? op n count.toNat)), type, [], false⟩
  | .constant _, _, _ =>
    if TypeEnv.isUntyped x.type then
      match ← recordOf? x.exp with
      | some r => putRecord { r with isShifted := true }
      | none => pure ()
    return ⟨e, .value, x.type, [], false⟩
  | _, _, _ =>
    require (env.basicAll x.type (·.isInteger))
    return ⟨e, .value, x.type, [], false⟩

/-! ## Comparisons -/

/-- A comparison operator. -/
def isComparison : Token → Bool
  | .eq | .ne | .lt | .le | .gt | .ge => true
  | _ => false

/-- The judgment on a comparison, whose operands have been brought to one type if they can. -/
def compareJudgment (c : Checker) (e : Exp) (op : Token) (x y : Judgment) : Check Judgment := do
  settleMethods c x.type y.type
  settleMethods c y.type x.type
  let env ← types
  require (env.assignable x y.type || env.assignable y x.type)
  match op with
  | .eq | .ne =>
    if x.isNil then require (env.hasNil y.type)
    else if y.isNil then require (env.hasNil x.type)
    else require (env.isComparable x.type && env.isComparable y.type)
  | _ =>
    require (env.basicAll x.type (·.isOrdered) && env.basicAll y.type (·.isOrdered))
  match x.mode, y.mode with
  | .constant v, .constant w =>
    let outcome ← must (Constant.compare? op v w)
    return ⟨e, .constant (.bool outcome), .basic .untypedBool, [], false⟩
  | _, _ =>
    updateType (TypeEnv.defaultType x.type) true x.exp
    updateType (TypeEnv.defaultType y.type) true y.exp
    return ⟨e, .value, .basic .untypedBool, [], false⟩

/-! ## Binary operators -/

/-- One of two operands may take the type of the other. -/
def mayConvert (env : TypeEnv) (x y : Judgment) : Bool :=
  if !TypeEnv.isUntyped x.type && !TypeEnv.isUntyped y.type then false
  else if env.isOrdinaryInterface x.type || env.isOrdinaryInterface y.type then true
  else if env.basicAll x.type (·.isBoolean) != env.basicAll y.type (·.isBoolean) then false
  else if env.basicAll x.type (·.isString) != env.basicAll y.type (·.isString) then false
  else if x.isNil then env.hasNil y.type
  else if y.isNil then env.hasNil x.type
  else (env.pointee? x.type).isNone && (env.pointee? y.type).isNone

/-- Bring the operands of a binary operator to one type, if one of them is untyped. -/
def matchOperands (x y : Judgment) : Check (Judgment × Judgment) := do
  if mayConvert (← types) x y then
    let x ← convertUntyped x y.type
    let y ← convertUntyped y x.type
    return (x, y)
  else
    return (x, y)

/-- A type on whose values a binary operator is defined. -/
def binaryDefined (env : TypeEnv) (op : Token) (t : Ty) : Bool :=
  match op with
  | .add => env.basicAll t fun b => b.isNumeric || b.isString
  | .sub | .mul | .quo => env.basicAll t (·.isNumeric)
  | .rem | .bitAnd | .bitOr | .bitXor | .andNot => env.basicAll t (·.isInteger)
  | .logicalAnd | .logicalOr => env.basicAll t (·.isBoolean)
  | _ => false

/-- The divisor is not a constant zero, as far as that can be told. -/
def divisorFits (env : TypeEnv) (x y : Judgment) : Bool :=
  match y.mode with
  | .constant w => !(w.isZero && (x.constant?.isSome || env.basicAll x.type (·.isInteger)))
  | _ => true

/-- The judgment on a binary operator, given those on its operands. -/
def binaryJudgment (c : Checker) (e : Exp) (op : Token) (x y : Judgment) : Check Judgment := do
  if op = .shl ∨ op = .shr then shiftJudgment e op x y
  else
    let (x, y) ← matchOperands x y
    if isComparison op then compareJudgment c e op x y
    else
      let env ← types
      require (env.same x.type y.type && binaryDefined env op x.type)
      if op = .quo ∨ op = .rem then require (divisorFits env x y)
      match x.mode, y.mode with
      | .constant v, .constant w =>
        let whole := env.basicIs x.type (·.isInteger)
        checkOverflow { x with exp := e, mode := .constant (← must (v.binary? op whole w)) }
      | _, _ => return ⟨e, .value, x.type, [], false⟩

end Typing
end WordRanges
