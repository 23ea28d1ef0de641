import WordRanges.Source.Constant.Number
import WordRanges.Text.Numeral

/-!
# Constants

Constants of Go are exact as far as possible: integers of any size, fractions, and complex
numbers, texts and truth values.  A number of any kind that is integral counts as an
integer.

Main definitions:

- {lit}`Constant` and {lit}`Constant.toInt?`: constants, and those that are integers.
- {lit}`Constant.readInt?`, {lit}`Constant.readFloat?`: the numbers of literals.
-/

namespace WordRanges
namespace Source

/-- A constant. -/
inductive Constant where
  | bool (value : Bool)
  /-- A text, as the bytes of its encoding. -/
  | string (bytes : List UInt8)
  | number (value : Number)
  | complex (re im : Number)
deriving DecidableEq, Repr

namespace Constant

/-- An integer constant. -/
def int (n : Int) : Constant :=
  .number (.int n)

/-- A constant as a number that is no integer by its kind. -/
def toFloat? : Constant → Option Number
  | .number x => x.toFloat?
  | .complex re im => if im.isZero then re.toFloat? else none
  | .bool _ | .string _ => none

/-- The integer that a constant is: an integer, a number without a fraction, or such a
number without an imaginary part. -/
def toInt? : Constant → Option Int
  | .number x => x.toInt?
  | .complex re im => if im.isZero then re.toFloat?.bind Number.toInt? else none
  | .bool _ | .string _ => none

/-! ## Numbers of literals -/

/-- The number of an integer literal in any base. -/
def readInt? (cs : List Char) : Option Int :=
  match Numeral.readUnsigned (Nat.pow 36 cs.length) cs with
  | .ok n => some n
  | .error _ => none

/-- The number of an integer literal with an optional minus sign. -/
def readSignedInt? : List Char → Option Int
  | '-' :: cs => (readInt? cs).map fun n => -n
  | cs => readInt? cs

/-- The number of a run of digits, most significant first. -/
def digitsValue (base : Nat) (ds : List Nat) : Nat :=
  ds.foldl (fun n d => n * base + d) 0

/-- The digits of a run of characters in a base, without underscores. -/
def digits? (base : Nat) : List Char → Option (List Nat)
  | [] => some []
  | c :: cs =>
    if c = '_' then digits? base cs
    else
      match Numeral.digit? c with
      | none => none
      | some d => if d < base then (digits? base cs).map (d :: ·) else none

/-- A power with an exponent of either sign. -/
def scale (base : Nat) (e : Int) : Rat :=
  if 0 ≤ e then (Nat.pow base e.toNat : Rat) else mkRat 1 (Nat.pow base (-e).toNat)

/-- Exponents of literals are integers of a word. -/
def maxExponent : Nat := Nat.pow 2 63 - 1

/-- The exponent of a floating-point literal. -/
def readExponent? (cs : List Char) : Option Int :=
  let (negative, ds) :=
    match cs with
    | '+' :: ds => (false, ds)
    | '-' :: ds => (true, ds)
    | _ => (false, cs)
  match digits? 10 ds with
  | some (d :: ds) =>
    let n := digitsValue 10 (d :: ds)
    if maxExponent < n then none else some (if negative then -n else n)
  | _ => none

/-- The base of a floating-point literal, the power of two that it is unless it is ten, and the
digits after its sign of a base. -/
def floatBase : List Char → Nat × Nat × List Char
  | '0' :: c :: cs =>
    if c = 'x' ∨ c = 'X' then (16, 4, cs)
    else if c = 'o' ∨ c = 'O' then (8, 3, cs)
    else if c = 'b' ∨ c = 'B' then (2, 1, cs)
    else (10, 1, '0' :: c :: cs)
  | cs => (10, 1, cs)

/-- The number {lit}`m * 2 ^ e2 * 5 ^ e5` as a constant: an exact fraction if it is of moderate
size. -/
def scientific? (m : Nat) (e2 e5 : Int) : Option Number := do
  let x ← Rounded.ofScientific? m e2 e5
  if x = .zero then return .fraction 0
  else if x.isModerate then return .fraction (m * scale 2 e2 * scale 5 e5)
  else return .rounded x

/-- The number of a floating-point literal: digits with a point, and an exponent of ten
or, in base sixteen, of two. -/
def readFloat? (cs : List Char) : Option Number :=
  let (base, bits, body) := floatBase cs
  let isMark (c : Char) : Bool :=
    if base = 16 then c == 'p' || c == 'P' else c == 'e' || c == 'E'
  let mantissa := body.takeWhile fun c => !isMark c
  let exponent? :=
    match body.dropWhile fun c => !isMark c with
    | [] => some 0
    | _ :: ds => readExponent? ds
  let whole := mantissa.takeWhile (· != '.')
  let fraction := (mantissa.dropWhile (· != '.')).drop 1
  match digits? base whole, digits? base fraction, exponent? with
  | some ws, some fs, some e =>
    if ws.isEmpty ∧ fs.isEmpty then none
    else
      scientific? (digitsValue base (ws ++ fs)) (e - bits * fs.length)
        (if base = 10 then e - fs.length else 0)
  | _, _, _ => none

/-- The number of a floating-point literal with an optional minus sign. -/
def readSignedFloat? : List Char → Option Number
  | '-' :: cs => (readFloat? cs).bind Number.neg?
  | cs => readFloat? cs

end Constant
end Source
end WordRanges
