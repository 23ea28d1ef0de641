import WordRanges.Domain.Word

/-!
# Bounds

A pair of bounds is a closed interval of words.  The same pair can be read in
unsigned or in signed order; both readings are given here.

Main definitions:

- {lit}`Bounds.Contains` and {lit}`Bounds.SContains`: membership in the two orders.
- {lit}`Bounds.fullUnsigned` and {lit}`Bounds.fullSigned`: the bounds that allow every word.
-/

namespace WordRanges

/-- The closed interval from {lit}`lo` to {lit}`hi`.  Nothing forces {lit}`lo` to lie
below {lit}`hi`: inverted bounds contain no word. -/
structure Bounds (w : Nat) where
  lo : BitVec w
  hi : BitVec w
deriving DecidableEq, Repr

namespace Bounds

variable {w : Nat}

/-- Membership in unsigned order. -/
def Contains (b : Bounds w) (x : BitVec w) : Prop :=
  b.lo ≤ x ∧ x ≤ b.hi

/-- Membership in signed order. -/
def SContains (b : Bounds w) (x : BitVec w) : Prop :=
  b.lo.sle x = true ∧ x.sle b.hi = true

instance (b : Bounds w) (x : BitVec w) : Decidable (b.Contains x) :=
  inferInstanceAs (Decidable (_ ∧ _))

instance (b : Bounds w) (x : BitVec w) : Decidable (b.SContains x) :=
  inferInstanceAs (Decidable (_ ∧ _))

/-- The bounds that contain every word in unsigned order. -/
def fullUnsigned (w : Nat) : Bounds w :=
  ⟨0, BitVec.allOnes w⟩

/-- The bounds that contain every word in signed order. -/
def fullSigned (w : Nat) : Bounds w :=
  ⟨BitVec.intMin w, BitVec.intMax w⟩

/-- Text of the bounds read as unsigned numbers. -/
def unsignedText (b : Bounds w) : String :=
  Word.unsignedText b.lo ++ ".." ++ Word.unsignedText b.hi

/-- Text of the bounds read as signed numbers. -/
def signedText (b : Bounds w) : String :=
  Word.signedText b.lo ++ ".." ++ Word.signedText b.hi

/-- Every word lies within the full unsigned bounds. -/
@[simp]
theorem contains_fullUnsigned (x : BitVec w) : (fullUnsigned w).Contains x := by
  simp only [Contains, fullUnsigned, BitVec.le_def, BitVec.ofNat_eq_ofNat, BitVec.toNat_ofNat,
    Nat.zero_mod, Nat.zero_le, BitVec.toNat_allOnes, true_and]
  exact Nat.le_sub_one_of_lt x.isLt

end Bounds
end WordRanges
