import WordRanges.Source.BasicType
import WordRanges.Source.Constant
import WordRanges.Source.Token

/-!
# Arithmetic of constants

Operators on constants, part by part for complex numbers.  A constant of a type has to be
one of the values of the type; a floating-point constant is rounded to the nearest of them.

Main definitions:

- {lit}`Constant.unary?`, {lit}`Constant.binary?`, {lit}`Constant.shift?`: operators.
- {lit}`Constant.compare?`: comparisons.
- {lit}`Constant.represent?`: a constant as a value of a basic type.
-/

namespace WordRanges
namespace Source
namespace Constant

/-! ## Kinds of numbers -/

/-- The real and the imaginary part of a number. -/
def parts? : Constant → Option (Number × Number)
  | .number x => some (x, .int 0)
  | .complex re im => some (re, im)
  | .bool _ | .string _ => none

/-- An integer fits a signed or an unsigned word. -/
def fitsWord (n : Int) : Bool :=
  -Nat.pow 2 63 ≤ n && n < Nat.pow 2 64

/-- A number is zero. -/
def isZero (x : Constant) : Bool :=
  x.parts?.any fun (re, im) => re.isZero && im.isZero

/-! ## Operators -/

/-- A binary operator on complex numbers. -/
def binaryComplex? (op : Token) (a b c d : Number) : Option Constant := do
  let add := Number.binary? .add false
  let sub := Number.binary? .sub false
  let mul := Number.binary? .mul false
  let quo := Number.binary? .quo false
  match op with
  | .add => return .complex (← add a c) (← add b d)
  | .sub => return .complex (← sub a c) (← sub b d)
  | .mul => return .complex (← sub (← mul a c) (← mul b d)) (← add (← mul b c) (← mul a d))
  | .quo =>
    let s ← add (← mul c c) (← mul d d)
    let re ← add (← mul a c) (← mul b d)
    let im ← sub (← mul b c) (← mul a d)
    return .complex (← quo re s) (← quo im s)
  | _ => none

/-- A binary operator on constants, other than shifts and comparisons. -/
def binary? (op : Token) (whole : Bool) : Constant → Constant → Option Constant
  | .bool a, .bool b =>
    match op with
    | .logicalAnd => some (.bool (a && b))
    | .logicalOr => some (.bool (a || b))
    | _ => none
  | .string a, .string b => if op = .add then some (.string (a ++ b)) else none
  | .number x, .number y => (x.binary? op whole y).map .number
  | x, y =>
    match x.parts?, y.parts? with
    | some (a, b), some (c, d) => binaryComplex? op a b c d
    | _, _ => none

/-- A prefix operator on a constant; the complement of an unsigned integer has {lit}`width?`
bits. -/
def unary? (op : Token) (width? : Option Nat) (x : Constant) : Option Constant :=
  match op, x with
  | .not, .bool b => some (.bool !b)
  | .add, .number x => some (.number x)
  | .add, .complex re im => some (.complex re im)
  | .sub, .number x => x.neg?.map .number
  | .sub, .complex re im => do return .complex (← re.neg?) (← im.neg?)
  | .bitXor, .number (.int n) =>
    match width? with
    | some w => some (.int ((-n - 1) % Nat.pow 2 w))
    | none => some (.int (-n - 1))
  | _, _ => none

/-- An integer shifted by a number of bits. -/
def shift? (op : Token) (n : Int) (count : Nat) : Option Constant :=
  match op with
  | .shl => some (.int (n * Nat.pow 2 count))
  | .shr => some (.int (n.fdiv (Nat.pow 2 count)))
  | _ => none

/-! ## Comparisons -/

/-- The outcome of a comparison operator, given how its operands are ordered. -/
def ordered? (op : Token) : Ordering → Option Bool
  | .lt => match op with
    | .lt | .le | .ne => some true
    | .gt | .ge | .eq => some false
    | _ => none
  | .eq => match op with
    | .le | .ge | .eq => some true
    | .lt | .gt | .ne => some false
    | _ => none
  | .gt => match op with
    | .gt | .ge | .ne => some true
    | .lt | .le | .eq => some false
    | _ => none

/-- The outcome of an operator for operands without an order, given whether they are equal. -/
def equated? (op : Token) (equal : Bool) : Option Bool :=
  match op with
  | .eq => some equal
  | .ne => some !equal
  | _ => none

/-- The order of two texts, byte by byte. -/
def compareBytes : List UInt8 → List UInt8 → Ordering
  | [], [] => .eq
  | [], _ :: _ => .lt
  | _ :: _, [] => .gt
  | a :: as, b :: bs => if a < b then .lt else if b < a then .gt else compareBytes as bs

/-- The outcome of a comparison of constants. -/
def compare? (op : Token) : Constant → Constant → Option Bool
  | .bool a, .bool b => equated? op (a == b)
  | .string a, .string b => ordered? op (compareBytes a b)
  | .number x, .number y => (x.compare? y).bind (ordered? op)
  | x, y =>
    match x.parts?, y.parts? with
    | some (a, b), some (c, d) => do
      equated? op ((← a.compare? c) == .eq && (← b.compare? d) == .eq)
    | _, _ => none

/-! ## Values of types -/

/-- A binary floating-point format. -/
structure FloatFormat where
  /-- The number of significant bits. -/
  precision : Nat
  /-- The exponent of the smallest positive number. -/
  lowest : Int
  /-- All numbers are below two to this power. -/
  highest : Nat

/-- The format of 32 bits. -/
def FloatFormat.single : FloatFormat := ⟨24, -149, 128⟩

/-- The format of 64 bits. -/
def FloatFormat.double : FloatFormat := ⟨53, -1074, 1024⟩

/-- The integer nearest to a quotient; a tie goes to the even one. -/
def nearest (num den : Nat) : Nat :=
  let q := num / den
  let twice := 2 * (num % den)
  if twice < den then q
  else if den < twice then q + 1
  else if q % 2 = 0 then q else q + 1

/-- The exponent of the largest power of two that is not above a positive quotient. -/
def binaryExponent (num den : Nat) : Int :=
  let e : Int := (Nat.log2 num : Int) - Nat.log2 den
  let below := if 0 ≤ e then num < den * Nat.pow 2 e.toNat else num * Nat.pow 2 (-e).toNat < den
  if below then e - 1 else e

/-- The nearest number of a format; nothing if it is too large. -/
def FloatFormat.round? (f : FloatFormat) (r : Rat) : Option Rat :=
  if r = 0 then some 0
  else
    let num := r.num.natAbs
    let e := max (binaryExponent num r.den - (f.precision - 1)) f.lowest
    let digits :=
      if 0 ≤ e then nearest num (r.den * Nat.pow 2 e.toNat)
      else nearest (num * Nat.pow 2 (-e).toNat) r.den
    let size : Rat := (digits : Rat) * scale 2 e
    if size < scale 2 f.highest then some (if r.num < 0 then -size else size) else none

/-- Rounded numbers whose exponents are beyond this one are too large for every format, or zero. -/
def farExponent : Int := 2000

/-- The nearest number of a format to the number of a constant. -/
def FloatFormat.roundNumber? (f : FloatFormat) : Number → Option Rat
  | .int n => f.round? n
  | .fraction r => f.round? r
  | .rounded x =>
    if farExponent < x.top then none
    else if x.top < -farExponent then some 0
    else f.round? (x.mantissa * scale 2 x.exponent)

/-- The least and the greatest integer of an integer type; nothing for untyped integers,
which have no limits. -/
def limits? (b : BasicType) : Option (Int × Int) :=
  if b.isUntyped then none
  else b.integer?.map fun shape =>
    if shape.unsigned then (0, Nat.pow 2 shape.width - 1)
    else (-Nat.pow 2 (shape.width - 1), Nat.pow 2 (shape.width - 1) - 1)

/-- A constant as a value of a floating-point or complex type, part by part. -/
def representParts? (f : FloatFormat) (isComplex : Bool) (x : Constant) : Option Constant := do
  if isComplex then
    let (re, im) ← x.parts?
    return .complex (.fraction (← f.roundNumber? re)) (.fraction (← f.roundNumber? im))
  else
    return .number (.fraction (← f.roundNumber? (← x.toFloat?)))

/-- A constant as a value of a basic type; nothing if the type has no such value. -/
def represent? (b : BasicType) (x : Constant) : Option Constant :=
  if b.isInteger then
    match x.toInt?, limits? b with
    | some n, some (lo, hi) => if lo ≤ n ∧ n ≤ hi then some (.int n) else none
    | some n, none => some (.int n)
    | none, _ => none
  else
    match b, x with
    | .float32, x => representParts? .single false x
    | .float64, x => representParts? .double false x
    | .complex64, x => representParts? .single true x
    | .complex128, x => representParts? .double true x
    | .untypedFloat, x => if x.toFloat?.isSome then some x else none
    | .untypedComplex, x => if x.parts?.isSome then some x else none
    | .string, .string s => some (.string s)
    | .untypedString, .string s => some (.string s)
    | .bool, .bool v => some (.bool v)
    | .untypedBool, .bool v => some (.bool v)
    | _, _ => none

end Constant
end Source
end WordRanges
