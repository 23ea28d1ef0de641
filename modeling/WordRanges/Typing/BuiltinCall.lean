import WordRanges.Typing.Call

/-!
# Calls of the functions of the language

The functions that are part of the language have rules of their own: some take types, some
give constants for constants, and the types of their results depend on their arguments.

Main definitions:

- {lit}`callBuiltin`: the judgment on a call of such a function.
-/

namespace WordRanges
namespace Typing

open Source

/-- The type of values of any type. -/
def anyType : Ty := .interface [] [] [] false

/-- The array that a pointer to an array leads to; other types stay. -/
def throughArrayPointer (env : TypeEnv) (u : Ty) : Ty :=
  match u with
  | .pointer t =>
    match env.under t with
    | .array n elem => .array n elem
    | _ => u
  | _ => u

/-- Values of an underlying type have a length, or a capacity if {lit}`capacity`. -/
def hasLength (env : TypeEnv) (capacity : Bool) (u : Ty) : Bool :=
  match throughArrayPointer env u with
  | .basic b => b.isString && !capacity
  | .map .. => !capacity
  | .array .. | .slice _ | .chan .. => true
  | _ => false

/-- The length or capacity of a value; it is constant for constant texts, and for arrays unless
their expression contains calls. -/
def lengthJudgment (e : Exp) (capacity : Bool) (x : Judgment) (hasCall : Bool) :
    Check Judgment := do
  let env ← types
  require (env.underAll x.type (hasLength env capacity))
  let constant? :=
    match x.constant?, throughArrayPointer env (env.under x.type) with
    | some (.string bytes), _ => some (bytes.length : Int)
    | _, .array n _ => if hasCall then none else some n
    | _, _ => none
  match constant? with
  | some n => return ⟨e, .constant (.int n), .basic .int, [], false⟩
  | none => return ⟨e, .value, .basic .int, [], false⟩

/-! ## Complex numbers -/

/-- The complex type whose parts have a type. -/
def complexOf? : BasicType → Option BasicType
  | .float32 => some .complex64
  | .float64 => some .complex128
  | .untypedFloat => some .untypedComplex
  | _ => none

/-- The type of the parts of a complex type. -/
def partOf? : BasicType → Option BasicType
  | .complex64 => some .float32
  | .complex128 => some .float64
  | .untypedComplex => some .untypedFloat
  | _ => none

/-- An untyped constant without an imaginary part counts as an untyped real number. -/
def asUntypedFloat (x : Judgment) : Judgment :=
  match x.constant?.bind Constant.toFloat? with
  | some _ => { x with type := .basic .untypedFloat }
  | none => x

/-- A complex number made of its parts. -/
def complexJudgment (e : Exp) (x y : Judgment) : Check Judgment := do
  let (x, y) ←
    match TypeEnv.isUntyped x.type, TypeEnv.isUntyped y.type with
    | true, true =>
      if x.constant?.isSome && y.constant?.isSome then pure (asUntypedFloat x, asUntypedFloat y)
      else do pure (← convertUntyped x (.basic .float64), ← convertUntyped y (.basic .float64))
    | true, false => do pure (← convertUntyped x y.type, y)
    | false, true => do pure (x, ← convertUntyped y x.type)
    | false, false => pure (x, y)
  require ((← types).same x.type y.type)
  let b ← must ((← types).basic? x.type)
  let t ← must (complexOf? b)
  match x.constant?, y.constant? with
  | some v, some w =>
    let value := Constant.complex (← must v.toFloat?) (← must w.toFloat?)
    return ⟨e, .constant value, .basic t, [], false⟩
  | _, _ => return ⟨e, .value, .basic t, [], false⟩

/-- The real or imaginary part of a complex number. -/
def partJudgment (e : Exp) (imaginary : Bool) (x : Judgment) : Check Judgment := do
  let x ←
    if TypeEnv.isUntyped x.type then
      match x.constant?.bind Constant.parts? with
      | some _ => pure { x with type := .basic .untypedComplex }
      | none => convertUntyped x (.basic .complex128)
    else pure x
  let b ← must ((← types).basic? x.type)
  let t ← must (partOf? b)
  match x.constant?.bind Constant.parts? with
  | some (re, im) =>
    return ⟨e, .constant (.number (if imaginary then im else re)), .basic t, [], false⟩
  | none => return ⟨e, .value, .basic t, [], false⟩

/-! ## Lists and maps -/

/-- Append elements to a slice, or the bytes of a text to a slice of bytes. -/
def appendJudgment (c : Checker) (e : Exp) (spread : Bool) (x : Judgment) (rest : List Judgment) :
    Check Judgment := do
  let env ← types
  let isText :=
    match rest with
    | [y] =>
      spread && env.assignable x (.slice (.basic .byte)) &&
        (match env.coreText? y.type with
          | some (.basic b) => b.isString
          | _ => false)
    | _ => false
  if isText then
    rest.forM fun y => discard (assign c y none)
  else
    match env.core? x.type with
    | some (.slice elem) =>
      let wanted ← must (parametersFor? [.slice elem] true spread rest.length)
      passArguments c wanted rest
    | _ => failure
  return ⟨e, .value, x.type, [], false⟩

/-- Copy elements from one slice to another, or from a text to a slice of bytes. -/
def copyJudgment (c : Checker) (e : Exp) (x y : Judgment) : Check Judgment := do
  let env ← types
  match env.core? x.type, env.coreText? y.type with
  | some (.slice a), some (.slice b) => require (env.same a b)
  | some (.slice a), some (.basic b) =>
    require (b.isString && env.same a (.basic .byte))
    if TypeEnv.isUntyped y.type then discard (assign c y none)
  | _, _ => failure
  return ⟨e, .value, .basic .int, [], true⟩

/-- The type of the keys of a map; all types that the type can stand for are maps with it. -/
def keyType? (env : TypeEnv) (t : Ty) : Option Ty := do
  let keys ← (← env.alternatives? t).mapM fun x =>
    match env.under x.type with
    | .map key _ => some key
    | _ => none
  match keys with
  | [] => none
  | key :: rest => if rest.all (env.same key) then return key else none

/-- Make a slice, map or channel of some size. -/
def makeJudgment (c : Checker) (e : Exp) (args : List Exp) : Check Judgment := do
  match args with
  | [] => failure
  | type :: sizes =>
    let t ← varType c type
    let least ←
      match (← types).core? t with
      | some (.slice _) => pure 1
      | some (.map ..) | some (.chan ..) => pure 0
      | _ => failure
    require (least ≤ sizes.length && sizes.length ≤ least + 1)
    let ns ← sizes.mapM (indexBelow c none)
    require (ascending ns)
    return ⟨e, .value, t, [], false⟩

/-- Make a variable of a type, or one with a value. -/
def newJudgment (c : Checker) (e arg : Exp) : Check Judgment := do
  let j ← valueOrType c arg
  if j.isType then
    await (.isOrdinary j.type)
    return ⟨e, .value, .pointer j.type, [], false⟩
  else
    needVersion 26
    let x ← if TypeEnv.isUntyped j.type then assign c j none else pure j
    return ⟨e, .value, .pointer x.type, [], false⟩

/-! ## The least and the greatest -/

/-- The least or the greatest of two operands. -/
def extremum (op : Token) (x y : Judgment) : Check Judgment := do
  require ((← types).basicAll y.type (·.isOrdered))
  let (x, y) ← matchOperands x y
  require ((← types).same x.type y.type)
  match x.constant?, y.constant? with
  | some v, some w => if ← must (Constant.compare? op w v) then return y else return x
  | _, _ => return x.asValue

/-- The least or the greatest of all arguments. -/
def extremumJudgment (c : Checker) (e : Exp) (op : Token) (x : Judgment) (rest : List Judgment) :
    Check Judgment := do
  require ((← types).basicAll x.type (·.isOrdered))
  let y ← rest.foldlM (extremum op) x
  let y ← if y.constant?.isSome then pure y else assign c y.asValue (some anyType)
  (x :: rest).forM fun a => updateType y.type true a.exp
  return { y with exp := e }

/-! ## All functions -/

/-- The judgment on a call of a function of the language whose arguments are all values. -/
def callOnValues (c : Checker) (e : Exp) (b : Builtin) (spread hasCall : Bool)
    (xs : List Judgment) : Check Judgment := do
  require (!spread || b = .append)
  let env ← types
  let done : Judgment := ⟨e, .nothing, .tuple [], [], true⟩
  match b, xs with
  | .append, x :: rest => appendJudgment c e spread x rest
  | .cap, [x] => lengthJudgment e true x hasCall
  | .len, [x] => lengthJudgment e false x hasCall
  | .clear, [x] =>
    require (env.underAll x.type fun
      | .map .. | .slice _ => true
      | _ => false)
    return done
  | .close, [x] =>
    require (env.underAll x.type fun
      | .chan .receive _ => false
      | .chan .. => true
      | _ => false)
    return done
  | .complex, [x, y] => complexJudgment e x y
  | .copy, [x, y] => copyJudgment c e x y
  | .delete, [x, y] =>
    discard (assign c y (some (← must (keyType? env x.type))))
    return done
  | .imag, [x] => partJudgment e true x
  | .real, [x] => partJudgment e false x
  | .max, x :: rest => extremumJudgment c e .gt x rest
  | .min, x :: rest => extremumJudgment c e .lt x rest
  | .panic, [x] =>
    discard (assign c x (some anyType))
    modify fun s => { s with panics := e.span :: s.panics }
    return done
  | .print, xs | .println, xs =>
    xs.forM fun x => discard (assign c x none)
    return done
  | .recover, [] => return ⟨e, .value, anyType, [], true⟩
  | _, _ => failure

/-- The judgment on a call of a function of the language. -/
def callBuiltin (c : Checker) (e : Exp) (b : Builtin) (args : List Exp) (spread : Bool) :
    Check Judgment := do
  let j ←
    match b with
    | .make =>
      require !spread
      makeJudgment c e args
    | .new =>
      require !spread
      match args with
      | [arg] => newJudgment c e arg
      | _ => failure
    | _ =>
      let (xs, hasCall) ← observingCalls (arguments c args)
      callOnValues c e b spread hasCall (← xs.mapM (instantiated c none))
  if j.constant?.isNone then noteCall
  return { j with isStatement := b.isStatement }

end Typing
end WordRanges
