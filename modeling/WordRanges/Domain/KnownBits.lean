import WordRanges.Domain.Word

/-!
# Known bits

Knowledge about the single bits of a word: two masks tell which bits are known to
be zero and which are known to be one.  A bit in neither mask is unknown.

The pattern text of known bits has one character for each bit, most significant
bit first: {lit}`0` and {lit}`1` for known bits and {lit}`*` for unknown ones.

Main definitions:

- {lit}`KnownBits.Satisfies`: which words agree with the known bits.
- {lit}`KnownBits.pattern`: the pattern text.
-/

namespace WordRanges

/-- Masks of the bits known to be zero and known to be one.  The masks may overlap,
in which case no word agrees with them. -/
structure KnownBits (w : Nat) where
  zeros : BitVec w
  ones : BitVec w
deriving DecidableEq, Repr

namespace KnownBits

variable {w : Nat}

/-- No bit is known. -/
def unknown (w : Nat) : KnownBits w :=
  ⟨0, 0⟩

/-- A word agrees with the known bits. -/
def Satisfies (k : KnownBits w) (x : BitVec w) : Prop :=
  x &&& k.zeros = 0 ∧ ~~~x &&& k.ones = 0

instance (k : KnownBits w) (x : BitVec w) : Decidable (k.Satisfies x) :=
  inferInstanceAs (Decidable (_ ∧ _))

/-- No bit is both known zero and known one. -/
def Disjoint (k : KnownBits w) : Prop :=
  k.zeros &&& k.ones = 0

instance (k : KnownBits w) : Decidable k.Disjoint :=
  inferInstanceAs (Decidable (_ = _))

/-- The mask of all known bits. -/
def known (k : KnownBits w) : BitVec w :=
  k.zeros ||| k.ones

/-- The bits known on both sides. -/
def common (k l : KnownBits w) : KnownBits w :=
  ⟨k.zeros &&& l.zeros, k.ones &&& l.ones⟩

/-- The bits known on either side. -/
def both (k l : KnownBits w) : KnownBits w :=
  ⟨k.zeros ||| l.zeros, k.ones ||| l.ones⟩

/-- The masks exchanged: what is known of the complement of a word. -/
def swap (k : KnownBits w) : KnownBits w :=
  ⟨k.ones, k.zeros⟩

/-- Everything that {lit}`l` knows is known to {lit}`k` too. -/
def Refines (k l : KnownBits w) : Prop :=
  l.zeros &&& ~~~k.zeros = 0 ∧ l.ones &&& ~~~k.ones = 0

instance (k l : KnownBits w) : Decidable (k.Refines l) :=
  inferInstanceAs (Decidable (_ ∧ _))

/-- The pattern character of bit {lit}`i`.  A bit in both masks is written as zero. -/
def patternChar (k : KnownBits w) (i : Nat) : Char :=
  if k.zeros.getLsbD i then '0' else if k.ones.getLsbD i then '1' else '*'

/-- The pattern characters, most significant bit first. -/
def patternChars (k : KnownBits w) : List Char :=
  (List.range w).reverse.map k.patternChar

/-- The pattern text, most significant bit first. -/
def pattern (k : KnownBits w) : String :=
  String.ofList k.patternChars

@[simp]
theorem length_patternChars (k : KnownBits w) : k.patternChars.length = w := by
  simp [patternChars]

end KnownBits
end WordRanges
