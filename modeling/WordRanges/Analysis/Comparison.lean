import WordRanges.Analysis.Integers
import WordRanges.Source.Token

/-!
# Comparisons

The six comparison operators, and the sets of integers that compare with a constant in
a given way.  A comparison of a set of integers with a constant is decided if all of
them, or none of them, compare in that way.

Main definitions:

- {lit}`Comparison.flip` and {lit}`Comparison.negate`: the same and the opposite statement.
- {lit}`Comparison.satisfying`: the integers for which a comparison with a constant holds.
- {lit}`Comparison.decide?`: the outcome that is the same for all members of a value.
-/

namespace WordRanges

open Source

/-- A comparison operator. -/
inductive Comparison where
  | eq | ne | lt | le | gt | ge
deriving DecidableEq, Repr

namespace Comparison

/-- The token of a comparison operator. -/
def token : Comparison → Token
  | .eq => .eq
  | .ne => .ne
  | .lt => .lt
  | .le => .le
  | .gt => .gt
  | .ge => .ge

/-- The comparison operator of a token. -/
def ofToken? : Token → Option Comparison
  | .eq => some .eq
  | .ne => some .ne
  | .lt => some .lt
  | .le => some .le
  | .gt => some .gt
  | .ge => some .ge
  | _ => none

/-- The operator that says the same with its operands exchanged. -/
def flip : Comparison → Comparison
  | .eq => .eq
  | .ne => .ne
  | .lt => .gt
  | .le => .ge
  | .gt => .lt
  | .ge => .le

/-- The operator that holds whenever this one does not. -/
def negate : Comparison → Comparison
  | .eq => .ne
  | .ne => .eq
  | .lt => .ge
  | .le => .gt
  | .gt => .le
  | .ge => .lt

/-- The outcome of a comparison in unsigned or in signed order. -/
def holds (op : Comparison) (unsigned : Bool) (x y : BitVec 64) : Bool :=
  let le (a b : BitVec 64) := if unsigned then a.ule b else a.sle b
  match op with
  | .eq => x == y
  | .ne => x != y
  | .lt => !le y x
  | .le => le x y
  | .gt => !le x y
  | .ge => le y x

/-- An operator for which something is not defined. -/
inductive Fault where
  | notComparison (op : Token)
  | unexpectedOperator (op : Token)
deriving DecidableEq, Repr

/-- The wording of a fault. -/
def Fault.message : Fault → String
  | .notComparison op => "not a comparison: " ++ op.text
  | .unexpectedOperator op => "unexpected operator " ++ op.text

end Comparison

/-- A comparison operator with its operands exchanged; any other token stays. -/
def Source.Token.flip (t : Token) : Token :=
  ((Comparison.ofToken? t).map fun op => op.flip.token).getD t

/-- The opposite comparison operator. -/
def Source.Token.negate (t : Token) : Except Comparison.Fault Token :=
  match Comparison.ofToken? t with
  | some op => .ok op.negate.token
  | none => .error (.notComparison t)

namespace Comparison

/-! ## Sets described by a comparison -/

/-- The integers below {lit}`k` in unsigned order. -/
def ubelow? (k : BitVec 64) : Option (Value 64) :=
  if k = 0 then none else integerPolicy.urange? 0 (k - 1)

/-- The integers above {lit}`k` in unsigned order. -/
def uabove? (k : BitVec 64) : Option (Value 64) :=
  if k = BitVec.allOnes 64 then none else integerPolicy.urange? (k + 1) (BitVec.allOnes 64)

/-- The integers below {lit}`k` in signed order. -/
def sbelow? (k : BitVec 64) : Option (Value 64) :=
  if k = BitVec.intMin 64 then none else integerPolicy.range? (BitVec.intMin 64) (k - 1)

/-- The integers above {lit}`k` in signed order. -/
def sabove? (k : BitVec 64) : Option (Value 64) :=
  if k = BitVec.intMax 64 then none else integerPolicy.range? (k + 1) (BitVec.intMax 64)

/-- The integers for which a comparison with {lit}`k` holds; nothing if there are none.
The integers that differ from {lit}`k` are no such set. -/
def satisfying (op : Comparison) (k : BitVec 64) (unsigned : Bool) :
    Except Fault (Option (Value 64)) :=
  match op, unsigned with
  | .eq, _ => .ok (some (integerPolicy.const k))
  | .lt, true => .ok (ubelow? k)
  | .le, true => .ok (integerPolicy.urange? 0 k)
  | .gt, true => .ok (uabove? k)
  | .ge, true => .ok (integerPolicy.urange? k (BitVec.allOnes 64))
  | .lt, false => .ok (sbelow? k)
  | .le, false => .ok (integerPolicy.range? (BitVec.intMin 64) k)
  | .gt, false => .ok (sabove? k)
  | .ge, false => .ok (integerPolicy.range? k (BitVec.intMax 64))
  | .ne, _ => .error (.unexpectedOperator op.token)

/-- Whether all members of a value, or none of them, lie in a set. -/
def decideIn (x : Value 64) (set : Option (Value 64)) : Option Bool :=
  match set with
  | none => some false
  | some set =>
    if (integerPolicy.intersect? x set).isNone then some false
    else if x.IsSubset set then some true
    else none

/-- The outcome of comparing with {lit}`k`, if it is the same for all members of a value.
Inequality is decided as the opposite of equality. -/
def decide? (x : Value 64) (unsigned : Bool) (op : Comparison) (k : BitVec 64) : Option Bool :=
  match op with
  | .ne => (decideIn x (some (integerPolicy.const k))).map not
  | op =>
    match op.satisfying k unsigned with
    | .ok set => decideIn x set
    | .error _ => none

end Comparison

/-- The integers for which an operator with {lit}`k` holds, for any token. -/
def Source.Token.satisfying (t : Token) (k : BitVec 64) (unsigned : Bool) :
    Except Comparison.Fault (Option (Value 64)) :=
  match Comparison.ofToken? t with
  | some op => op.satisfying k unsigned
  | none => .error (.unexpectedOperator t)

/-- The outcome of an operator with {lit}`k` that is the same for all members, for any token. -/
def Source.Token.decide? (t : Token) (x : Value 64) (unsigned : Bool) (k : BitVec 64) :
    Except Comparison.Fault (Option Bool) :=
  match Comparison.ofToken? t with
  | some op => .ok (op.decide? x unsigned k)
  | none => .error (.unexpectedOperator t)

end WordRanges
