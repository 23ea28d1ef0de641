/-!
# Words

A word is a bit pattern of fixed width, read either as an unsigned or as a signed
number.  This module collects the few operations on words that the rest of the
domain needs beyond those of {lit}`BitVec`.

Main definitions:

- {lit}`Word.topBit`: the position of the most significant one.
- {lit}`Word.smin` and {lit}`Word.smax`: minimum and maximum in signed order.
-/

namespace WordRanges
namespace Word

variable {w : Nat}

/-- Position of the most significant one of a word; zero for the zero word. -/
def topBit (x : BitVec w) : Nat :=
  x.toNat.log2

/-- The lowest one of a word on its own; zero for the zero word. -/
def lowestOne (x : BitVec w) : BitVec w :=
  x &&& -x

/-- The mask of all positions from {lit}`i` upwards. -/
def maskFrom (w i : Nat) : BitVec w :=
  BitVec.allOnes w <<< i

/-- The smaller of two words in signed order. -/
def smin (x y : BitVec w) : BitVec w :=
  if x.sle y then x else y

/-- The larger of two words in signed order. -/
def smax (x y : BitVec w) : BitVec w :=
  if x.sle y then y else x

/-- The smaller of two words in unsigned order. -/
def umin (x y : BitVec w) : BitVec w :=
  if x ≤ y then x else y

/-- The larger of two words in unsigned order. -/
def umax (x y : BitVec w) : BitVec w :=
  if x ≤ y then y else x

/-- Decimal text of a word read as a signed number. -/
def signedText (x : BitVec w) : String :=
  x.toInt.repr

/-- Decimal text of a word read as an unsigned number. -/
def unsignedText (x : BitVec w) : String :=
  x.toNat.repr

end Word
end WordRanges
