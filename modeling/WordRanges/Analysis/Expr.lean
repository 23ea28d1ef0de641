import WordRanges.Source.Constant
import WordRanges.Source.Layout.Operators
import WordRanges.Source.TypeSet

/-!
# Typed expressions

Expressions as the analysis sees them.  Each carries a note: which integer types its
values can have, which type parameter its type is, and its value if it is constant.
Operators, parentheses, conversions and calls are looked into.

Main definitions:

- {lit}`Note`, {lit}`Expr`: what is known of an expression, and expressions.
- {lit}`Expr.binaries`: the binary operators within an expression.
- {lit}`Expr.text`: how an expression is written on one line.
-/

namespace WordRanges

open Source

/-- The type parameter that an expression has as its type. -/
structure TypeParam where
  name : String
  /-- The text of the constraint. -/
  constraint : String
  /-- Where the parameter is declared. -/
  pos : Nat
deriving DecidableEq, Repr

/-- What is known of an expression. -/
structure Note where
  /-- The integer types that its values can have; none if a value may be no integer. -/
  terms : List BasicType
  param? : Option TypeParam
  /-- Its value if it is constant. -/
  value? : Option Constant
deriving DecidableEq, Repr

/-- The note on an expression of a type. -/
def Note.ofType (env : TypeEnv) (t : Ty) (value? : Option Constant) : Note where
  terms := env.integerTerms t
  param? :=
    match t with
    | .param id => (env.params[id]?).map fun d => ⟨d.name, env.text d.constraint, d.pos⟩
    | _ => none
  value? := value?

/-- An expression with notes. -/
inductive Expr where
  /-- A name, a literal, or any other expression that is not looked into. -/
  | atom (note : Note) (text : String)
  /-- A call of a function of some name. -/
  | call (note : Note) (fn : String) (args : List Expr)
  | unary (note : Note) (op : Token) (x : Expr)
  | binary (note : Note) (op : Token) (x y : Expr)
  | paren (x : Expr)
  /-- A conversion to the type of the expression, which is written as {lit}`target`. -/
  | conversion (note : Note) (target : String) (x : Expr)

instance : Inhabited Expr := ⟨.atom ⟨[], none, none⟩ ""⟩

namespace Expr

/-! ## Notes and parentheses -/

/-- The note on an expression; parentheses change nothing. -/
def note : Expr → Note
  | .atom n _ => n
  | .call n _ _ => n
  | .unary n _ _ => n
  | .binary n _ _ _ => n
  | .paren x => x.note
  | .conversion n _ _ => n

/-- The integer that a constant expression is. -/
def integer? (x : Expr) : Option Int :=
  x.note.value?.bind Constant.toInt?

/-! ## Operators -/

mutual

/-- The binary operators within an expression with their operands, outer ones first. -/
def binaries : Expr → List (Token × Expr × Expr)
  | .atom _ _ => []
  | .call _ _ args => allBinaries args
  | .unary _ _ x => x.binaries
  | .binary _ op x y => (op, x, y) :: (x.binaries ++ y.binaries)
  | .paren x => x.binaries
  | .conversion _ _ x => x.binaries

/-- The binary operators within expressions. -/
def allBinaries : List Expr → List (Token × Expr × Expr)
  | [] => []
  | x :: xs => x.binaries ++ allBinaries xs

end

/-- The binary operators of an expression that are not in parentheses. -/
def operators : Expr → OperatorTree
  | .binary _ op x y => .binary op x.operators y.operators
  | .unary _ op _ => .operand (some op)
  | _ => .operand none

/-! ## Text -/

/-- Two prefix operators that would be read as one token if nothing stood between them. -/
def runTogether (op : Token) : Expr → Bool
  | .unary _ next _ =>
    match op, next with
    | .add, .add | .sub, .sub | .bitAnd, .bitAnd | .bitAnd, .bitXor => true
    | _, _ => false
  | _ => false

mutual

/-- The text of an expression within another one: operators that bind less tightly than
{lit}`precedence` get parentheses, and {lit}`depth` tells how deep the expression stands. -/
def textAt (precedence depth : Nat) : Expr → String
  | .atom _ text => text
  | .call _ fn args =>
    fn ++ "(" ++ commaText (if 1 < args.length then depth + 1 else depth) args ++ ")"
  | .unary _ op x =>
    if unaryPrecedence < precedence then
      "(" ++ op.text ++ (if runTogether op x then " " else "") ++ textAt unaryPrecedence 1 x ++ ")"
    else
      op.text ++ (if runTogether op x then " " else "") ++ textAt unaryPrecedence depth x
  | .binary _ op x y =>
    let inner := if op.precedence < precedence then reduceDepth depth else depth
    let tree := OperatorTree.binary op x.operators y.operators
    let blank := if op.precedence < tree.cutoff inner then " " else ""
    let left := textAt op.precedence (inner + OperatorTree.leftDepth op x.operators) x
    let right := textAt (op.precedence + 1) (inner + 1) y
    let body := left ++ blank ++ op.text ++ blank ++ right
    if op.precedence < precedence then "(" ++ body ++ ")" else body
  | .paren x =>
    match x with
    | .paren _ => textAt 0 depth x
    | _ => "(" ++ textAt 0 (reduceDepth depth) x ++ ")"
  | .conversion _ target x => target ++ "(" ++ textAt 0 depth x ++ ")"

/-- The text of expressions between commas. -/
def commaText (depth : Nat) : List Expr → String
  | [] => ""
  | [x] => textAt 0 depth x
  | x :: y :: ys => textAt 0 depth x ++ ", " ++ commaText depth (y :: ys)

end

/-- The text of an expression on one line. -/
def text (x : Expr) : String :=
  textAt 0 1 x

end Expr
end WordRanges
