import WordRanges.Typing.Composite

/-!
# Conversions and calls

A call of a type is a conversion.  Other calls bind arguments to parameters; the type
arguments of a generic function may be left out if they can be inferred.

Main definitions:

- {lit}`conversionJudgment`: conversions.
- {lit}`callFunction`: calls of functions.
-/

namespace WordRanges
namespace Typing

open Source

/-! ## Conversions -/

/-- The code point that stands for those that do not exist. -/
def replacementChar : Char := '\uFFFD'

/-- The text of a code point, which is the last 32 bits of a word. -/
def codePointText (n : Int) : List UInt8 :=
  let code := (n % UInt32.size).toNat
  let c := if 0 ≤ n ∧ n < UInt64.size ∧ code.isValidChar then Char.ofNat code else replacementChar
  (String.singleton c).toUTF8.toList

/-- A constant converted to a basic type: represented in it, or the text of a code point. -/
def convertConstant? (env : TypeEnv) (x : Judgment) (v : Constant) (b : BasicType) :
    Option Constant :=
  match v.represent? b with
  | some w => some w
  | none =>
    if env.basicIs x.type (·.isInteger) && b.isString then
      v.toInt?.map fun n => .string (codePointText n)
    else none

/-- A constant can be converted to all types that a type parameter can stand for. -/
def constantFitsParam (env : TypeEnv) (x : Judgment) (v : Constant) (t : Ty) : Bool :=
  env.underAll t fun u =>
    match u with
    | .basic b => (convertConstant? env x v b).isSome
    | u => env.basicIs x.type (·.isString) && env.isTextList u

/-- The mode of a conversion: constants stay constant if the type allows it. -/
def conversionMode? (env : TypeEnv) (x : Judgment) (t : Ty) : Option Mode :=
  match x.constant?, env.isConstType t, env.basic? t with
  | some v, true, some b => (convertConstant? env x v b).map .constant
  | some v, _, _ =>
    if TypeEnv.isParam t then if constantFitsParam env x v t then some .value else none
    else if env.convertible x t then some .value
    else none
  | none, _, _ => if env.convertible x t then some .value else none

/-- The judgment on a conversion of an expression to a type.  The type of an untyped operand is
the one that it is converted to, unless that is no type of constants. -/
def conversionJudgment (c : Checker) (e : Exp) (x : Judgment) (t : Ty) : Check Judgment := do
  settleMethods c x.type t
  let env ← types
  if env.isOrdinaryInterface t then require (env.isMethodSet t)
  let mode ← must (conversionMode? env x t)
  if TypeEnv.isUntyped x.type then
    let isConstant :=
      match mode with
      | .constant _ => true
      | _ => false
    let final :=
      if env.isOrdinaryInterface t || (x.constant?.isSome && !env.isConstType t) || x.isNil then
        TypeEnv.defaultType x.type
      else if isConstant && env.basicIs x.type (·.isInteger) && env.basicAll t (·.isString) then
        x.type
      else t
    updateType final true x.exp
  return ⟨e, mode, t, [], false⟩

/-! ## Arguments -/

/-- The arguments of a call, which may be generic functions; a single call with several results
gives several of them. -/
def arguments (c : Checker) (args : List Exp) : Check (List Judgment) := do
  match args with
  | [arg] =>
    let j ← c.judge none arg
    require j.isValue
    match j.type with
    | .tuple ts => return ts.map fun t => ⟨arg, .value, t, [], false⟩
    | _ => return [j]
  | _ =>
    args.mapM fun arg => do
      let j ← c.judge none arg
      require (j.isValue && !isTuple j.type)
      return j

/-- The types of the parameters that a number of arguments are for. -/
def parametersFor? (params : List Ty) (variadic spread : Bool) (count : Nat) : Option (List Ty) :=
  if !variadic then
    if spread || count != params.length then none else some params
  else if spread then
    if count != params.length then none else some params
  else
    match params.getLast? with
    | some (.slice elem) =>
      let fixed := params.length - 1
      if count < fixed then none
      else some (params.take fixed ++ List.replicate (count - fixed) elem)
    | _ => none

/-- Assign arguments to parameters. -/
def passArguments (c : Checker) (params : List Ty) (args : List Judgment) : Check Unit :=
  (params.zip args).forM fun (t, x) => discard (assign c x (some t))

/-- The judgment on a call with results. -/
def resultJudgment (e : Exp) : List Ty → Judgment
  | [] => ⟨e, .nothing, .tuple [], [], true⟩
  | [t] => ⟨e, .value, t, [], true⟩
  | ts => ⟨e, .value, .tuple ts, [], true⟩

/-- Generic arguments with parameters to be bound in place of their type parameters; these are
numbered from {lit}`first` on. -/
def openArguments (env : TypeEnv) : Nat → List Judgment → List Unknown × List Judgment
  | _, [] => ([], [])
  | first, x :: xs =>
    let us := unknownsFor env first x.typeParams
    let (vs, ys) := openArguments env (first + us.length) xs
    (us ++ vs, { x with type := unbound us x.typeParams x.type } :: ys)

/-- Generic arguments with their type arguments, which are those that were found, in order. -/
def closeArguments : List Ty → List Judgment → Check (List Judgment)
  | _, [] => return []
  | found, x :: xs => do
    let n := x.typeParams.length
    let y ← if n = 0 then pure x else withArguments x (found.take n) false
    return y :: (← closeArguments (found.drop n) xs)

/-- Find the type arguments that a call leaves out: those of the function, and those of generic
functions among its arguments, which are for parameters of some types. -/
def inferCall (c : Checker) (f : Judgment) (wanted : List Ty) (xs : List Judgment) :
    Check (List Ty × List Judgment) := do
  if f.typeParams.isEmpty && xs.all fun x => x.typeParams.isEmpty then return ([], xs)
  let params := f.typeParams ++ xs.flatMap (·.typeParams)
  settleNamed c (params.map (·.1)) (wanted ++ xs.map (·.type))
  let env ← types
  let first := env.params.size
  let us := unknownsFor env first f.typeParams
  let (vs, ys) := openArguments env (first + us.length) xs
  let pairs := (wanted.map (unbound us f.typeParams)).zip ys
  let found ← must (infer? env first (us ++ vs) pairs)
  return (found.take us.length, ← closeArguments (found.drop us.length) xs)

/-- The judgment on a call of a function, some of whose type arguments may be written. -/
def callFunction (c : Checker) (e : Exp) (f : Judgment) (args : List Exp) (spread : Bool) :
    Check Judgment := do
  require f.isValue
  match (← types).core? f.type with
  | some (.func _ _ ps rs variadic) =>
    let xs ← arguments c args
    require !(spread && xs.length != args.length)
    let wanted ← must (parametersFor? ps variadic spread xs.length)
    let (found, xs) ← inferCall c f wanted xs
    if !f.typeParams.isEmpty then discard (withArguments f found true)
    let put : Ty → Ty := Ty.subst (TypeEnv.lookupArg (f.typeParams.map (·.1)) found)
    passArguments c (wanted.map put) xs
    noteCall
    return resultJudgment e (rs.map put)
  | _ => failure

end Typing
end WordRanges
