/-!
# Rounded numbers

Numbers with 512 significant bits and a large range of exponents.  Operations are exact up
to rounding to the nearest such number; a tie goes to the even one.  Too large results do
not exist, and too small ones are zero.

Main definitions:

- {lit}`Rounded`: rounded numbers.
- {lit}`Rounded.make?`: rounding.
- {lit}`Rounded.add?`, {lit}`Rounded.mul?`, {lit}`Rounded.quo?`: arithmetic.
- {lit}`Rounded.ofScientific?`: the number of a literal.
- {lit}`Rounded.toInt?`: the integer that a number is.
-/

namespace WordRanges
namespace Source

/-- The number of bits of a natural number. -/
def bitCount (n : Nat) : Nat :=
  if n = 0 then 0 else n.log2 + 1

/-- A number {lit}`mantissa * 2 ^ exponent`, where the mantissa is odd unless both are zero. -/
structure Rounded where
  mantissa : Int
  exponent : Int
deriving DecidableEq, Repr

namespace Rounded

/-! ## Rounding -/

/-- The number of significant bits. -/
def precision : Nat := 512

/-- The magnitudes of all numbers are below two to this power. -/
def highest : Int := Nat.pow 2 31 - 1

/-- The magnitudes of all numbers but zero are at least half of two to this power. -/
def lowest : Int := -Nat.pow 2 31

/-- Which of two neighbours a magnitude is rounded to. -/
inductive Direction where
  | nearest | down | up
deriving DecidableEq, Repr

/-- Zero. -/
def zero : Rounded := ⟨0, 0⟩

/-- A magnitude without factors of two; {lit}`fuel` bounds their number. -/
def stripTwos : Nat → Nat → Int → Nat × Int
  | 0, m, e => (m, e)
  | fuel + 1, m, e => if m % 2 = 0 then stripTwos fuel (m / 2) (e + 1) else (m, e)

/-- The leading bits of a magnitude, rounded.  If {lit}`rest`, something smaller than its last bit
is to be added to the magnitude. -/
def leadingBits (bits : Nat) (d : Direction) (m : Nat) (rest : Bool) : Nat :=
  let extra := bitCount m - bits
  let q := m >>> extra
  let twice := 2 * (m % Nat.pow 2 extra)
  let up :=
    match d with
    | .down => false
    | .up => 0 < twice || rest
    | .nearest => Nat.pow 2 extra < twice || (Nat.pow 2 extra = twice && (rest || q % 2 = 1))
  if up then q + 1 else q

/-- The number {lit}`m * 2 ^ e` with some precision; nothing if it is too large. -/
def make? (bits : Nat) (d : Direction) (negative : Bool) (m : Nat) (rest : Bool) (e : Int) :
    Option Rounded :=
  if m = 0 then some zero
  else
    let q := leadingBits bits d m rest
    let (q, e) := stripTwos (bitCount q) q (e + (bitCount m - bits : Nat))
    let top := bitCount q + e
    if highest < top then none
    else if top < lowest then some zero
    else some ⟨if negative then -q else q, e⟩

/-- A number is negative. -/
def isNegative (x : Rounded) : Bool :=
  x.mantissa < 0

/-- The magnitude of the mantissa. -/
def magnitude (x : Rounded) : Nat :=
  x.mantissa.natAbs

/-- The exponent of the least power of two above the magnitude of a number; zero for zero. -/
def top (x : Rounded) : Int :=
  bitCount x.magnitude + x.exponent

/-- An integer, rounded. -/
def ofInt? (n : Int) : Option Rounded :=
  make? precision .nearest (n < 0) n.natAbs false 0

/-! ## Arithmetic -/

/-- The number with the opposite sign. -/
def neg (x : Rounded) : Rounded :=
  { x with mantissa := -x.mantissa }

/-- A product with some precision. -/
def mulWith? (bits : Nat) (x y : Rounded) : Option Rounded :=
  make? bits .nearest (x.isNegative != y.isNegative) (x.magnitude * y.magnitude) false
    (x.exponent + y.exponent)

/-- A product. -/
def mul? (x y : Rounded) : Option Rounded :=
  mulWith? precision x y

/-- A quotient. -/
def quo? (x y : Rounded) : Option Rounded :=
  if y.mantissa = 0 then none
  else
    let shift := precision + 2 + bitCount y.magnitude
    let n := x.magnitude <<< shift
    make? precision .nearest (x.isNegative != y.isNegative) (n / y.magnitude)
      (n % y.magnitude != 0) (x.exponent - y.exponent - shift)

/-- The distance of exponents beyond which the smaller number does not matter for a sum. -/
def maxDistance : Int := 4096

/-- A sum. -/
def add? (x y : Rounded) : Option Rounded :=
  if x.mantissa = 0 then some y
  else if y.mantissa = 0 then some x
  else if maxDistance < x.exponent - y.exponent then some x
  else if maxDistance < y.exponent - x.exponent then some y
  else
    let e := min x.exponent y.exponent
    let sum := x.mantissa * Nat.pow 2 (x.exponent - e).toNat
      + y.mantissa * Nat.pow 2 (y.exponent - e).toNat
    make? precision .nearest (sum < 0) sum.natAbs false e

/-- A difference. -/
def sub? (x y : Rounded) : Option Rounded :=
  x.add? y.neg

/-- A quotient of integers, rounded. -/
def ofRat? (r : Rat) : Option Rounded :=
  let wide (n : Int) : Option Rounded := make? (bitCount n.natAbs) .nearest (n < 0) n.natAbs false 0
  match wide r.num, wide r.den with
  | some x, some y => x.quo? y
  | _, _ => none

/-- The order of two numbers. -/
def compare (x y : Rounded) : Ordering :=
  if x.mantissa.sign != y.mantissa.sign then Ord.compare x.mantissa.sign y.mantissa.sign
  else
    match x.sub? y with
    | some d => Ord.compare d.mantissa 0
    | none => .eq

/-! ## Literals -/

/-- Powers of five up to this one have at most 64 bits. -/
def plainPower : Nat := 27

/-- Multiply a number by a power of another one, square by square.  The number has 64 bits more
than usual, and the other one 128 bits more; {lit}`fuel` bounds the number of squares. -/
def timesPower? : Nat → Rounded → Option Rounded → Nat → Option Rounded
  | 0, z, _, _ => some z
  | fuel + 1, z, f?, n =>
    if n = 0 then some z
    else do
      let z ← if n % 2 = 1 then mulWith? (precision + 64) z (← f?) else some z
      timesPower? fuel z (f?.bind fun f => mulWith? (precision + 128) f f) (n / 2)

/-- A power of five with 64 bits more than usual; nothing if it is too large. -/
def powerOfFive? (n : Nat) : Option Rounded :=
  let k := min n plainPower
  timesPower? (bitCount n) ⟨Nat.pow 5 k, 0⟩ (some ⟨5, 0⟩) (n - k)

/-- The number {lit}`m * 2 ^ e2 * 5 ^ e5`; nothing if it, or a part of it, is too large. -/
def ofScientific? (m : Nat) (e2 e5 : Int) : Option Rounded :=
  let top := bitCount m + e2
  if m = 0 then some zero
  else if top < lowest || highest < top then none
  else if e5 = 0 then make? precision .nearest false m false e2
  else
    let x : Rounded := ⟨m, e2⟩
    match powerOfFive? e5.natAbs with
    | some p => if 0 < e5 then x.mul? p else x.quo? p
    | none => if 0 < e5 then none else some zero

/-! ## Integers -/

/-- The exponents below which a number is taken for an integer or a fraction. -/
def fractionBits : Nat := 4096

/-- A number is of moderate size. -/
def isModerate (x : Rounded) : Bool :=
  x.top.natAbs < fractionBits

/-- The integer that a number is exactly. -/
def integral? (x : Rounded) : Option Int :=
  if 0 ≤ x.exponent then some (x.mantissa * Nat.pow 2 x.exponent.toNat) else none

/-- The number of last bits that may be wrong. -/
def slack : Nat := 4

/-- The integer that a number is, but for its last bits, if it is of moderate size. -/
def toInt? (x : Rounded) : Option Int :=
  let near? (d : Direction) : Option Int :=
    (make? (precision - slack) d x.isNegative x.magnitude false x.exponent).bind integral?
  if !x.isModerate then none
  else
    match x.integral?, near? .down with
    | some n, _ => some n
    | none, some n => some n
    | none, none => near? .up

end Rounded
end Source
end WordRanges
