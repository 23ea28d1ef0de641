import WordRanges.Source.Constant.Rounded
import WordRanges.Source.Token

/-!
# Numbers of constants

A real number of a constant is an integer of any size, an exact fraction, or a rounded
number.  Fractions whose parts become too large are rounded, and rounded numbers stay so.
Of two numbers of different kinds the simpler one is first brought to the kind of the
other.

Main definitions:

- {lit}`Number` and {lit}`Number.toInt?`: numbers, and those that are integers.
- {lit}`Number.binary?`, {lit}`Number.compare`: operators and comparisons.
-/

namespace WordRanges
namespace Source

/-- A real number of a constant. -/
inductive Number where
  | int (value : Int)
  | fraction (value : Rat)
  | rounded (value : Rounded)
deriving DecidableEq, Repr

namespace Number

/-! ## Kinds of numbers -/

/-- The integer that a rational number is. -/
def integral? (r : Rat) : Option Int :=
  if r.den = 1 then some r.num else none

/-- The integer that a number is. -/
def toInt? : Number → Option Int
  | .int n => some n
  | .fraction r => integral? r
  | .rounded x => x.toInt?

/-- A rational number as a constant; it is rounded if its parts are too large. -/
def ofRat? (r : Rat) : Option Number :=
  if bitCount r.num.natAbs < Rounded.fractionBits && bitCount r.den < Rounded.fractionBits then
    some (.fraction r)
  else (Rounded.ofRat? r).map .rounded

/-- A number as one that is no integer by its kind. -/
def toFloat? : Number → Option Number
  | .int n =>
    if bitCount n.natAbs < Rounded.fractionBits then some (.fraction n)
    else (Rounded.ofInt? n).map .rounded
  | .fraction r => some (.fraction r)
  | .rounded x => some (.rounded x)

/-- A number as a rounded one. -/
def toRounded? : Number → Option Rounded
  | .int n => Rounded.ofInt? n
  | .fraction r => Rounded.ofRat? r
  | .rounded x => some x

/-- A number is zero. -/
def isZero : Number → Bool
  | .int n => n == 0
  | .fraction r => r == 0
  | .rounded x => x.mantissa == 0

/-- The number with the opposite sign. -/
def neg? : Number → Option Number
  | .int n => some (.int (-n))
  | .fraction r => ofRat? (-r)
  | .rounded x => some (.rounded x.neg)

/-- The number of bits of the absolute value of an integer. -/
def bitLength (n : Int) : Nat :=
  bitCount n.natAbs

/-! ## Operators -/

/-- An operation on the bits of two integers of any size, negative ones being preceded by
ones without end. -/
def bitwise (f : (w : Nat) → BitVec w → BitVec w → BitVec w) (m n : Int) : Int :=
  let w := max (bitLength m) (bitLength n) + 1
  (f w (BitVec.ofInt w m) (BitVec.ofInt w n)).toInt

/-- A binary operator on integers; division is exact unless {lit}`whole` asks for that of
integers, which goes toward zero. -/
def binaryInt? (op : Token) (whole : Bool) (m n : Int) : Option Number :=
  match op with
  | .add => some (.int (m + n))
  | .sub => some (.int (m - n))
  | .mul => some (.int (m * n))
  | .quo =>
    if n = 0 then none
    else if whole then some (.int (m.tdiv n))
    else ofRat? ((m : Rat) / (n : Rat))
  | .rem => if n = 0 then none else some (.int (m.tmod n))
  | .bitAnd => some (.int (bitwise (fun _ a b => a &&& b) m n))
  | .bitOr => some (.int (bitwise (fun _ a b => a ||| b) m n))
  | .bitXor => some (.int (bitwise (fun _ a b => a ^^^ b) m n))
  | .andNot => some (.int (bitwise (fun _ a b => a &&& ~~~b) m n))
  | _ => none

/-- A binary operator on rational numbers. -/
def binaryRat? (op : Token) (a b : Rat) : Option Number :=
  match op with
  | .add => ofRat? (a + b)
  | .sub => ofRat? (a - b)
  | .mul => ofRat? (a * b)
  | .quo => if b = 0 then none else ofRat? (a / b)
  | _ => none

/-- A binary operator on rounded numbers. -/
def binaryRounded? (op : Token) (x y : Rounded) : Option Number :=
  match op with
  | .add => (x.add? y).map .rounded
  | .sub => (x.sub? y).map .rounded
  | .mul => (x.mul? y).map .rounded
  | .quo => (x.quo? y).map .rounded
  | _ => none

/-- A binary operator on numbers; {lit}`whole` asks for the division of integers. -/
def binary? (op : Token) (whole : Bool) : Number → Number → Option Number
  | .int m, .int n => binaryInt? op whole m n
  | .int m, .fraction b => binaryRat? op m b
  | .fraction a, .int n => binaryRat? op a n
  | .fraction a, .fraction b => binaryRat? op a b
  | .rounded x, y => y.toRounded?.bind fun y => binaryRounded? op x y
  | x, .rounded y => x.toRounded?.bind fun x => binaryRounded? op x y

/-- The order of two rational numbers. -/
def compareRat (a b : Rat) : Ordering :=
  if a < b then .lt else if b < a then .gt else .eq

/-- The order of two numbers. -/
def compare? : Number → Number → Option Ordering
  | .int m, .int n => some (Ord.compare m n)
  | .int m, .fraction b => some (compareRat m b)
  | .fraction a, .int n => some (compareRat a n)
  | .fraction a, .fraction b => some (compareRat a b)
  | .rounded x, y => y.toRounded?.map fun y => x.compare y
  | x, .rounded y => x.toRounded?.map fun x => x.compare y

end Number
end Source
end WordRanges
