import WordRanges.Domain.Policy
import WordRanges.Source.BasicType
import WordRanges.Source.Constant

/-!
# Integers of source programs as values

Every integer of a source program is represented by a word of 64 bits: signed integers
are sign-extended and unsigned ones zero-extended.  So the values of every integer type
form a value of the 64-bit domain, and an integer constant of that type is a value with
one member.

Main definitions:

- {lit}`BasicType.values?`: all integers of a type.
- {lit}`Constant.word?` and {lit}`Constant.value?`: a constant as an integer of a type.
-/

namespace WordRanges

open Source

/-- The policy of all values that stand for integers of source programs. -/
def integerPolicy : Policy :=
  .default

namespace Source

/-- All integers of a type; nothing if it is not an integer type. -/
def BasicType.values? (b : BasicType) : Option (Value 64) :=
  match b.integer? with
  | none => none
  | some shape =>
    if shape.width = 64 then
      some (integerPolicy.domain 64)
    else if shape.unsigned then
      integerPolicy.urange? 0 (BitVec.ofNat 64 (Nat.pow 2 shape.width - 1))
    else
      integerPolicy.range? (BitVec.ofInt 64 (-Nat.pow 2 (shape.width - 1)))
        (BitVec.ofInt 64 (Nat.pow 2 (shape.width - 1) - 1))

/-- The word of a constant that is an integer of 64 bits, signed or unsigned. -/
def Constant.word? (k : Constant) (unsigned : Bool) : Option (BitVec 64) :=
  match k.toInt? with
  | none => none
  | some n =>
    if unsigned then
      if 0 ≤ n ∧ n < Nat.pow 2 64 then some (BitVec.ofInt 64 n) else none
    else
      if -Nat.pow 2 63 ≤ n ∧ n < Nat.pow 2 63 then some (BitVec.ofInt 64 n) else none

/-- A constant as a value of an integer type; nothing if the type cannot hold it. -/
def Constant.value? (k : Constant) (b : BasicType) : Option (Value 64) :=
  match b.values? with
  | none => none
  | some all =>
    match k.word? b.isUnsigned with
    | none => none
    | some x => if all.Contains x then some (integerPolicy.const x) else none

end Source
end WordRanges
