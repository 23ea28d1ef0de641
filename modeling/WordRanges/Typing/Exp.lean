import WordRanges.Typing.BuiltinCall

/-!
# Judgments on expressions

Every expression is judged once its parts are, and the judgment is recorded.

Main definitions:

- {lit}`judge`: the judgment on an expression.
-/

namespace WordRanges
namespace Typing

open Source

/-- The judgment on a name. -/
def nameJudgment (c : Checker) (e : Exp) (name : String) : Check Judgment := do
  match ← entityOf c name with
  | .constant t v => return ⟨e, .constant v, t, [], false⟩
  | .iota => return ⟨e, .constant (.int (← must (← here).iota?)), .basic .untypedInt, [], false⟩
  | .nil => return ⟨e, .value, .basic .untypedNil, [], false⟩
  | .type t => return ⟨e, .type, t, [], false⟩
  | .genericAlias name params t =>
    return ⟨e, .type, .alias name [] t, params.map fun p => (p, none), false⟩
  | .variable t => return ⟨e, .variable, t, [], false⟩
  | .function params t => return ⟨e, .value, t, params.map fun p => (p, none), false⟩
  | .builtin b => return ⟨e, .builtin b, .invalid, [], false⟩

/-- The type of a literal. -/
def literalType? : Token → Option BasicType
  | .int => some .untypedInt
  | .float => some .untypedFloat
  | .imag => some .untypedComplex
  | .char => some .untypedRune
  | .string => some .untypedString
  | _ => none

/-- The largest number of characters of a number. -/
def maxNumberLength : Nat := 10000

/-- A literal is a number. -/
def isNumberLiteral : Token → Bool
  | .int | .float | .imag => true
  | _ => false

/-- The judgment on a literal. -/
def literalJudgment (e : Exp) (kind : Token) (text : String) : Check Judgment := do
  let t ← must (literalType? kind)
  require (!isNumberLiteral kind || text.utf8ByteSize ≤ maxNumberLength)
  let v ← must (literalValue? kind text)
  checkOverflow ⟨e, .constant v, .basic t, [], false⟩

/-- The judgment on a call or conversion. -/
def callJudgment (c : Checker) (e fn : Exp) (args : List Exp) (spread : Bool) : Check Judgment := do
  let f ← c.judge none fn
  match f.mode, args with
  | .type, [arg] =>
    require (!spread && f.typeParams.isEmpty && !isGeneric (← types) f.type)
    conversionJudgment c e (← valueFor c (← inferenceTarget? f.type) arg) f.type
  | .type, _ => failure
  | .builtin b, args => callBuiltin c e b args spread
  | _, args => callFunction c e f args spread

/-- The judgment on a function literal.  Its body is checked at once if it is within a function,
where names change, and else after all declarations, to which it may refer. -/
def functionJudgment (c : Checker) (e signature : Exp) (block : Block) : Check Judgment := do
  let s ← signatureOf c signature
  require s.typeParams.isEmpty
  let around ← here
  let body : Body := ⟨around.iota?, around.version?, around.owner?, s.scope, s.results, block⟩
  if around.scopes.isEmpty then postponeBody body else c.body body
  return ⟨e, .value, s.type, [], false⟩

/-- The judgment on an expression, before it is recorded. -/
def rawJudgment (c : Checker) (hint? : Option Ty) (e : Exp) : Check Judgment := do
  match e with
  | .ident id => nameJudgment c e id.name
  | .literal _ kind text => literalJudgment e kind text
  | .composite _ type? elems => compositeJudgment c hint? e type? elems
  | .funcLit _ signature block => functionJudgment c e signature block
  | .paren _ x =>
    let j ← instantiated c none (← c.judge none x)
    require !(j.isType && isGeneric (← types) j.type)
    return { j with exp := e }
  | .selector _ x name => selectorJudgment c e x name
  | .index _ x indices => indexJudgment c e x indices
  | .slice _ x lo? hi? max? => sliceJudgment c e x lo? hi? max?
  | .typeAssert _ x (some type) => assertJudgment c e x type
  | .call _ fn args spread => callJudgment c e fn args spread
  | .star _ x => starJudgment c e x
  | .unary _ op x => unaryJudgment e op (← valueOf c x)
  | .binary _ op x y =>
    let a ← valueOf c x
    let b ← valueOf c y
    binaryJudgment c e op a b
  | .array .. | .struct .. | .func .. | .interface .. | .map .. | .chan .. =>
    return ⟨e, .type, ← c.type e, [], false⟩
  | .typeAssert _ _ none | .keyValue .. | .ellipsis .. => failure

/-- The judgment on an expression. -/
def judge (c : Checker) (hint? : Option Ty) (e : Exp) : Check Judgment := do
  let j ← rawJudgment c hint? e
  record j
  return j

end Typing
end WordRanges
