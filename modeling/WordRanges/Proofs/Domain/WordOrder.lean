import Mathlib.Data.Nat.Bitwise
import WordRanges.Domain.Bounds

/-!
# The two orders of words

The signed and the unsigned reading of a word agree below the sign boundary and differ by
the number of all words above it.  With that link both orders, the bounds in them and their
extreme words become facts about numbers.

Main results:

- Theorem {lit}`Word.sign_cases`: how the two readings of a word relate.
- Theorems {lit}`Bounds.contains_iff` and {lit}`Bounds.sContains_iff`: bounds as numbers.
-/

namespace WordRanges
namespace Word

variable {w : Nat} {x y : BitVec w}

/-- A word is read as the same number in both ways, or it is negative and its readings
differ by the number of all words. -/
theorem sign_cases (x : BitVec w) :
    (x.toInt = x.toNat ∧ 2 * x.toNat < 2 ^ w) ∨
      (x.toInt = (x.toNat : Int) - (2 ^ w : Nat) ∧ 2 ^ w ≤ 2 * x.toNat) := by
  have hcond := BitVec.toInt_eq_toNat_cond x
  by_cases hlt : 2 * x.toNat < 2 ^ w
  · rw [if_pos hlt] at hcond
    exact Or.inl ⟨hcond, hlt⟩
  · rw [if_neg hlt] at hcond
    exact Or.inr ⟨hcond, Nat.le_of_not_lt hlt⟩

/-- Only words with bits can be negative. -/
theorem width_pos_of_neg (h : x.toInt < 0) : 0 < w := by
  rcases Nat.eq_zero_or_pos w with hzero | hpos
  · subst hzero
    simp [BitVec.eq_nil x] at h
  · exact hpos

/-- The least word in signed order, as an unsigned number. -/
theorem two_mul_toNat_intMin (hw : 0 < w) : 2 * (BitVec.intMin w).toNat = 2 ^ w := by
  rw [BitVec.toNat_intMin_of_pos hw, ← Nat.pow_add_one']
  congr 1
  omega

/-- The greatest word in signed order, as an unsigned number. -/
theorem two_mul_toNat_intMax (hw : 0 < w) : 2 * ((BitVec.intMax w).toNat + 1) = 2 ^ w := by
  have hpow : 2 * 2 ^ (w - 1) = 2 ^ w := by
    rw [← Nat.pow_add_one']
    congr 1
    omega
  have hpos : 0 < 2 ^ (w - 1) := Nat.two_pow_pos (w - 1)
  rw [BitVec.toNat_intMax]
  omega

/-! ## Signed order -/

theorem sle_refl (x : BitVec w) : x.sle x = true :=
  BitVec.sle_iff_toInt_le.mpr (Int.le_refl _)

theorem sle_trans {z : BitVec w} (hxy : x.sle y = true) (hyz : y.sle z = true) :
    x.sle z = true := by
  rw [BitVec.sle_iff_toInt_le] at *
  omega

theorem sle_antisymm (hxy : x.sle y = true) (hyx : y.sle x = true) : x = y := by
  rw [BitVec.sle_iff_toInt_le] at hxy hyx
  exact BitVec.eq_of_toInt_eq (Int.le_antisymm hxy hyx)

/-- Within words of one sign the two orders agree. -/
theorem sle_of_le_of_msb_eq (hsign : x.msb = y.msb) (h : x ≤ y) : x.sle y = true := by
  rw [BitVec.sle_eq_ule_of_msb_eq hsign]
  exact decide_eq_true h

/-- A negative word is below a non-negative one in signed order and above it in unsigned
order. -/
theorem sle_and_le_of_msb (hx : x.msb = true) (hy : y.msb = false) :
    x.sle y = true ∧ y ≤ x := by
  rw [BitVec.msb_eq_true_iff_two_mul_ge] at hx
  rw [BitVec.msb_eq_false_iff_two_mul_lt] at hy
  rw [BitVec.sle_iff_toInt_le, BitVec.le_def]
  have hxlt := x.isLt
  have hxs := sign_cases x
  have hys := sign_cases y
  omega

/-! ## Extremes of two words -/

@[simp]
theorem toInt_smin (x y : BitVec w) : (smin x y).toInt = min x.toInt y.toInt := by
  unfold smin
  split <;> rename_i h
  · rw [BitVec.sle_iff_toInt_le] at h
    omega
  · rw [BitVec.sle_iff_toInt_le] at h
    omega

@[simp]
theorem toInt_smax (x y : BitVec w) : (smax x y).toInt = max x.toInt y.toInt := by
  unfold smax
  split <;> rename_i h
  · rw [BitVec.sle_iff_toInt_le] at h
    omega
  · rw [BitVec.sle_iff_toInt_le] at h
    omega

@[simp]
theorem toNat_umin (x y : BitVec w) : (umin x y).toNat = min x.toNat y.toNat := by
  unfold umin
  split <;> rename_i h
  · rw [BitVec.le_def] at h
    omega
  · rw [BitVec.le_def] at h
    omega

@[simp]
theorem toNat_umax (x y : BitVec w) : (umax x y).toNat = max x.toNat y.toNat := by
  unfold umax
  split <;> rename_i h
  · rw [BitVec.le_def] at h
    omega
  · rw [BitVec.le_def] at h
    omega

end Word

namespace Bounds

variable {w : Nat} {b : Bounds w} {x : BitVec w}

/-- Membership in unsigned order, as numbers. -/
theorem contains_iff : b.Contains x ↔ b.lo.toNat ≤ x.toNat ∧ x.toNat ≤ b.hi.toNat := by
  rw [Contains, BitVec.le_def, BitVec.le_def]

/-- Membership in signed order, as numbers. -/
theorem sContains_iff : b.SContains x ↔ b.lo.toInt ≤ x.toInt ∧ x.toInt ≤ b.hi.toInt := by
  rw [SContains, BitVec.sle_iff_toInt_le, BitVec.sle_iff_toInt_le]

/-- Every word lies within the full signed bounds. -/
@[simp]
theorem sContains_fullSigned (x : BitVec w) : (fullSigned w).SContains x := by
  rw [sContains_iff]
  refine ⟨BitVec.toInt_intMin_le x, ?_⟩
  rw [fullSigned, BitVec.toInt_intMax]
  exact BitVec.toInt_le

end Bounds
end WordRanges
