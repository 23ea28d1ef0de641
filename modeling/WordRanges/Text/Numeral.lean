/-!
# Numerals

Integers in the notation of source code: decimal, or with a prefix {lit}`0x`, {lit}`0o`,
{lit}`0b` or a plain leading {lit}`0` for octal.  An underscore may stand between two
digits and between the prefix and a digit.

Digits are read from the left, so a numeral that grows out of range is refused before a
wrong character that comes after it.

Main definitions:

- {lit}`Numeral.readUnsigned` and {lit}`Numeral.readSigned`: numerals in any base.
- {lit}`Numeral.readDecimal`: plain decimal numerals with a sign.
-/

namespace WordRanges
namespace Numeral

/-- Why a numeral is refused. -/
inductive Fault where
  | malformed
  | outOfRange
deriving DecidableEq, Repr

/-- The wording of a fault. -/
def Fault.message : Fault → String
  | .malformed => "invalid syntax"
  | .outOfRange => "value out of range"

/-- The value of a digit in bases up to thirty-six. -/
def digit? (c : Char) : Option Nat :=
  if '0' ≤ c ∧ c ≤ '9' then some (c.toNat - 48)
  else if 'a' ≤ c ∧ c ≤ 'z' then some (c.toNat - 97 + 10)
  else if 'A' ≤ c ∧ c ≤ 'Z' then some (c.toNat - 65 + 10)
  else none

/-- The base of a numeral and its digits without the prefix.  A prefix of two characters
needs a third one after it. -/
def splitBase : List Char → Nat × List Char
  | '0' :: c :: d :: cs =>
    if c = 'b' ∨ c = 'B' then (2, d :: cs)
    else if c = 'o' ∨ c = 'O' then (8, d :: cs)
    else if c = 'x' ∨ c = 'X' then (16, d :: cs)
    else (8, c :: d :: cs)
  | '0' :: cs => (8, cs)
  | cs => (10, cs)

/-- The number written by digits of a base, at most {lit}`bound`; {lit}`n` is the number
read so far.  Underscores are passed over if they are allowed at all. -/
def readDigits (base bound : Nat) (underscores : Bool) : Nat → List Char → Except Fault Nat
  | n, [] => .ok n
  | n, c :: cs =>
    if c = '_' ∧ underscores then readDigits base bound underscores n cs
    else
      match digit? c with
      | none => .error .malformed
      | some d =>
        if base ≤ d then .error .malformed
        else if bound < n * base + d then .error .outOfRange
        else readDigits base bound underscores (n * base + d) cs

/-- Every underscore stands after a digit and before one; {lit}`digit` tells whether a
digit came last. -/
def underscoresBetween (digit : Bool) : List Char → Bool
  | [] => true
  | '_' :: cs =>
    digit && match cs with
      | [] => false
      | '_' :: _ => false
      | _ :: _ => underscoresBetween false cs
  | _ :: cs => underscoresBetween true cs

/-- The underscores of a numeral, whose base prefix counts as a digit, are well placed. -/
def underscoresPlaced : List Char → Bool
  | '0' :: c :: cs =>
    if c ∈ ['b', 'B', 'o', 'O', 'x', 'X'] then underscoresBetween true cs
    else underscoresBetween true (c :: cs)
  | cs => underscoresBetween false cs

/-- A numeral without a sign, at most {lit}`bound`. -/
def readUnsigned (bound : Nat) (cs : List Char) : Except Fault Nat :=
  if cs.isEmpty then .error .malformed
  else
    match readDigits (splitBase cs).1 bound true 0 (splitBase cs).2 with
    | .error fault => .error fault
    | .ok n => if '_' ∈ cs ∧ ¬ underscoresPlaced cs then .error .malformed else .ok n

/-- The sign of a numeral, which is negative or not, and the text after it. -/
def splitSign : List Char → Bool × List Char
  | '+' :: cs => (false, cs)
  | '-' :: cs => (true, cs)
  | cs => (false, cs)

/-- A number with its sign, from {lit}`-limit` up to {lit}`limit - 1`. -/
def withSign (limit : Nat) (negative : Bool) (n : Nat) : Except Fault Int :=
  if negative then
    if limit < n then .error .outOfRange else .ok (-n)
  else
    if limit ≤ n then .error .outOfRange else .ok n

/-- A numeral with an optional sign, from {lit}`-2^(width - 1)` up to {lit}`2^(width - 1) - 1`. -/
def readSigned (width : Nat) (cs : List Char) : Except Fault Int :=
  match readUnsigned (Nat.pow 2 width - 1) (splitSign cs).2 with
  | .error fault => .error fault
  | .ok n => withSign (Nat.pow 2 (width - 1)) (splitSign cs).1 n

/-- A decimal numeral with an optional sign that fits 64 bits. -/
def readDecimal (cs : List Char) : Except Fault Int :=
  if (splitSign cs).2.isEmpty then .error .malformed
  else
    match readDigits 10 (Nat.pow 2 64 - 1) false 0 (splitSign cs).2 with
    | .error fault => .error fault
    | .ok n => withSign (Nat.pow 2 63) (splitSign cs).1 n

end Numeral
end WordRanges
