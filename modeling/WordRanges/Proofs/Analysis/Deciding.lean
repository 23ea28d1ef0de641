import Mathlib.Data.Int.CharZero
import WordRanges.Analysis.Comparison
import WordRanges.Proofs.Analysis.Integers

/-!
# Deciding comparisons

The set of a comparison with a constant contains exactly the words that compare in that way.
So an outcome that is decided for a value is the outcome for each of its members.

Main results:

- Theorem {lit}`Comparison.exists_satisfying_contains`: the members of the set of a comparison.
- Theorem {lit}`Comparison.holds_of_decide?`: a decided outcome holds for all members.
- Theorem {lit}`Comparison.holds_eq_compare`: comparing words is comparing their integers.
-/

namespace WordRanges

open Source.BasicType

namespace Comparison

variable {op : Comparison} {unsigned outcome : Bool} {x : Value 64} {y k : BitVec 64} {a b : Int}

/-! ## Comparing integers -/

/-- The outcome of a comparison of integers. -/
def compare (op : Comparison) (a b : Int) : Bool :=
  match op with
  | .eq => a == b
  | .ne => a != b
  | .lt => a < b
  | .le => a ≤ b
  | .gt => b < a
  | .ge => b ≤ a

/-- Exchanging the operands of a comparison. -/
theorem compare_flip (op : Comparison) (a b : Int) : op.flip.compare a b = op.compare b a := by
  cases op with
  | eq => exact Bool.beq_comm
  | ne => exact bne_comm
  | _ => rfl

/-- Comparing words is comparing the integers that they stand for. -/
theorem holds_eq_compare (op : Comparison) (unsigned : Bool) (x y : BitVec 64) :
    op.holds unsigned x y =
      op.compare ((IntegerShape.mk 64 unsigned).decode x)
        ((IntegerShape.mk 64 unsigned).decode y) := by
  rw [Bool.eq_iff_iff]
  cases unsigned with
  | true =>
      cases op <;>
        simp [holds, compare, IntegerShape.decode, BitVec.toNat_eq, ← Bool.not_eq_true,
          BitVec.ule_iff_toNat_le]
  | false =>
      cases op <;>
        simp [holds, compare, IntegerShape.decode, BitVec.toInt_inj, ← Bool.not_eq_true,
          BitVec.sle_iff_toInt_le]

/-! ## The set of a comparison -/

/-- The words below a word in unsigned order. -/
theorem exists_ubelow?_contains : (∃ v ∈ ubelow? k, v.Contains y) ↔ y.toNat < k.toNat := by
  unfold ubelow?
  split
  · rename_i hzero
    subst hzero
    simp
  · rename_i hne
    have hpos : k.toNat ≠ 0 := fun h => hne (BitVec.eq_of_toNat_eq h)
    rw [Policy.exists_urange?_contains]
    bv_omega

/-- The words above a word in unsigned order. -/
theorem exists_uabove?_contains : (∃ v ∈ uabove? k, v.Contains y) ↔ k.toNat < y.toNat := by
  have hy := y.isLt
  unfold uabove?
  split
  · rename_i htop
    subst htop
    rw [BitVec.toNat_allOnes]
    simpa using Nat.le_of_lt_succ hy
  · rename_i hne
    have htop : k.toNat ≠ 2 ^ 64 - 1 := fun h => hne (BitVec.eq_of_toNat_eq (by simp [h]))
    rw [Policy.exists_urange?_contains, BitVec.toNat_allOnes]
    bv_omega

/-- The words below a word in signed order. -/
theorem exists_sbelow?_contains : (∃ v ∈ sbelow? k, v.Contains y) ↔ y.toInt < k.toInt := by
  have hy := toInt_mem_bounds y
  unfold sbelow?
  split
  · rename_i hmin
    subst hmin
    rw [toInt_intMin]
    simpa using hy.1
  · rename_i hne
    rw [Policy.exists_range?_contains, toInt_sub_one hne, toInt_intMin]
    omega

/-- The words above a word in signed order. -/
theorem exists_sabove?_contains : (∃ v ∈ sabove? k, v.Contains y) ↔ k.toInt < y.toInt := by
  have hy := toInt_mem_bounds y
  unfold sabove?
  split
  · rename_i hmax
    subst hmax
    rw [toInt_intMax]
    simpa using Int.le_of_lt_add_one hy.2
  · rename_i hne
    rw [Policy.exists_range?_contains, toInt_add_one hne, toInt_intMax]
    omega

/-- The members of the set of a comparison are the words for which it holds. -/
theorem exists_satisfying_contains {set : Option (Value 64)}
    (h : op.satisfying k unsigned = .ok set) :
    (∃ v ∈ set, v.Contains y) ↔ op.holds unsigned y k = true := by
  have hy := toInt_mem_bounds y
  have hlt := y.isLt
  unfold satisfying at h
  split at h <;> cases h
  · simp [holds, Policy.contains_const]
  all_goals
    simp only [holds_eq_compare, compare, IntegerShape.decode, decide_eq_true_eq, if_true,
      Bool.false_eq_true, if_false]
  · rw [exists_ubelow?_contains]
    omega
  · rw [Policy.exists_urange?_contains]
    exact ⟨fun h => by omega, fun h => ⟨Nat.zero_le _, by omega⟩⟩
  · rw [exists_uabove?_contains]
    omega
  · rw [Policy.exists_urange?_contains, BitVec.toNat_allOnes]
    omega
  · rw [exists_sbelow?_contains]
  · rw [Policy.exists_range?_contains, toInt_intMin]
    omega
  · rw [exists_sabove?_contains]
  · rw [Policy.exists_range?_contains, toInt_intMax]
    omega

/-! ## Decided outcomes -/

/-- Whether the members of a value lie in a set, as far as it is decided. -/
theorem exists_contains_of_decideIn {set : Option (Value 64)} (h : decideIn x set = some outcome)
    (hy : x.Contains y) : (∃ v ∈ set, v.Contains y) ↔ outcome = true := by
  unfold decideIn at h
  split at h
  · cases h
    simp
  · rename_i v
    split at h
    · rename_i hnone
      cases h
      have hapart := Policy.not_contains_of_intersect? (Option.isNone_iff_eq_none.mp hnone) hy
      simpa using hapart
    · split at h
      · rename_i hsubset
        cases h
        simpa using hsubset.contains hy
      · cases h

/-- A decided outcome holds for all members of a value. -/
theorem holds_of_decide? (h : decide? x unsigned op k = some outcome) (hy : x.Contains y) :
    op.holds unsigned y k = outcome := by
  unfold decide? at h
  split at h
  · obtain ⟨equal, hequal, rfl⟩ := Option.map_eq_some_iff.mp h
    have hmem := exists_contains_of_decideIn hequal hy
    simp only [Option.mem_some_iff, exists_eq_left', Policy.contains_const] at hmem
    rw [holds, bne, Bool.not_inj_iff]
    rw [Bool.eq_iff_iff, beq_iff_eq]
    exact hmem
  · split at h
    · rename_i set hset
      rw [Bool.eq_iff_iff, ← exists_satisfying_contains hset]
      exact exists_contains_of_decideIn h hy
    · cases h

end Comparison
end WordRanges
