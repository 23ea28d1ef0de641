import WordRanges.Source.Token

/-!
# Blanks around operators

Binary operators get blanks around them or not depending on how tightly they bind and on
what else stands in the same expression, so that {lit}`a + b*2` shows its structure.

Main definitions:

- {lit}`OperatorTree`: the operators of an expression.
- {lit}`OperatorTree.cutoff`: which operators get blanks.
-/

namespace WordRanges
namespace Source

/-- The binary operators of an expression that are not in parentheses. -/
inductive OperatorTree where
  /-- An operand, with the prefix operator or star that it begins with. -/
  | operand (first? : Option Token)
  | binary (op : Token) (x y : OperatorTree)

/-- Which kinds of operators a tree of binary operators contains. -/
structure OperatorMix where
  /-- Operators like {lit}`+`. -/
  sums : Bool
  /-- Operators like {lit}`*`. -/
  products : Bool
  /-- The precedence of operators that need blanks because they would run into the prefix
  operator after them. -/
  clash : Nat

/-- No operators. -/
def OperatorMix.none : OperatorMix := ⟨false, false, 0⟩

namespace OperatorTree

/-- The precedence of the operator of a tree, if it is a binary one. -/
def precedence? : OperatorTree → Option Nat
  | .operand _ => none
  | .binary op _ _ => some op.precedence

/-- The clash of a binary operator with what the operand after it begins with. -/
def clash (op : Token) : OperatorTree → Nat
  | .operand (some first) =>
    match op, first with
    | .quo, .mul | .bitAnd, .bitAnd | .bitAnd, .bitXor => 5
    | .add, .add | .sub, .sub => 4
    | _, _ => 0
  | _ => 0

/-- The operators of a tree, without those for which parentheses have to be inserted. -/
def mix : OperatorTree → OperatorMix
  | .operand _ => .none
  | .binary op x y =>
    let left := if x.precedence?.any (· < op.precedence) then .none else x.mix
    let right := if y.precedence?.any (· ≤ op.precedence) then .none else y.mix
    { sums := op.precedence = 4 || left.sums || right.sums
      products := op.precedence = 5 || left.products || right.products
      clash := max (max left.clash right.clash) (clash op y) }

/-- The precedence from which on operators have no blanks around them, at some depth. -/
def cutoff (t : OperatorTree) (depth : Nat) : Nat :=
  let mix := t.mix
  if 0 < mix.clash then mix.clash + 1
  else if mix.sums && mix.products then (if depth = 1 then 5 else 4)
  else if depth = 1 then 6
  else 4

/-- How much deeper the left operand of an operator stands: not at all if its own
operator binds as tightly. -/
def leftDepth (op : Token) (x : OperatorTree) : Nat :=
  if x.precedence? = some op.precedence then 0 else 1

end OperatorTree

/-- Parentheses take back one level of depth. -/
def reduceDepth (depth : Nat) : Nat :=
  max 1 (depth - 1)

/-- The tightest binding, that of operands which are no operators. -/
def highestPrecedence : Nat := 7

/-- How tightly prefix operators bind. -/
def unaryPrecedence : Nat := 6

end Source
end WordRanges
