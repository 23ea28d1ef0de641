import WordRanges.Proofs.Domain.Comparing

/-!
# Spans of canonical constraints

The span of a constraint is computed with words that wrap around.  For a canonical constraint
nothing is lost: its one interval or its two halves have at most as many words as there are,
so the span is the number of words within the bounds, less one, as a number.  A set of words
therefore never has a larger span than a set that includes it, and the spans are equal only if
the bounds are.

Main results:

- Theorems {lit}`Constraint.IsTightest.toNat_span` and
  {lit}`Constraint.IsTightest.toNat_span_of_split`: spans as numbers.
- Theorem {lit}`Constraint.IsTightest.span_le`: spans grow with the members.
- Theorem {lit}`Constraint.IsTightest.span_lt`: if the known bits stay, more members have a larger
  span.
-/

namespace WordRanges
namespace Constraint

variable {w : Nat} {c d : Constraint w}

/-- The span of an unsplit constraint in tightest form. -/
theorem IsTightest.toNat_span (h : c.IsTightest c.Contains)
    (hsplit : c.signed.lo = c.unsigned.lo) :
    c.span.toNat = c.unsigned.hi.toNat - c.unsigned.lo.toNat := by
  have hle : c.unsigned.lo ≤ c.unsigned.hi := h.unsigned_hi.2 _ h.unsigned_lo.1
  have hsplit' : c.isSplit = false := by simp [isSplit, hsplit]
  rw [span, hsplit', if_neg Bool.false_ne_true, BitVec.toNat_sub_of_le hle]

/-- The span of a split constraint in tightest form: both halves together. -/
theorem IsTightest.toNat_span_of_split (h : c.IsTightest c.Contains)
    (hsplit : c.signed.lo ≠ c.unsigned.lo) :
    c.span.toNat = (c.unsigned.hi.toNat - c.signed.lo.toNat) +
      (c.signed.hi.toNat - c.unsigned.lo.toNat) + 1 := by
  obtain ⟨hslo, huhi, hulo, hshi⟩ := h.separated hsplit
  have hneg : c.signed.lo ≤ c.unsigned.hi := h.unsigned_hi.2 _ h.signed_lo.1
  have hpos : c.unsigned.lo ≤ c.signed.hi := h.unsigned_lo.2 _ h.signed_hi.1
  rw [BitVec.msb_eq_true_iff_two_mul_ge] at hslo
  rw [BitVec.msb_eq_false_iff_two_mul_lt] at hshi
  have hsplit' : c.isSplit = true := by simp [isSplit, hsplit]
  have hlt := c.unsigned.hi.isLt
  have hw : 1 < 2 ^ w := by omega
  have hone : (1 : BitVec w).toNat = 1 := by
    rw [BitVec.ofNat_eq_ofNat, BitVec.toNat_ofNat, Nat.mod_eq_of_lt hw]
  -- Each half has at most half of all words, so no sum wraps around.
  have hsum : (c.unsigned.hi.toNat - c.signed.lo.toNat) +
      (c.signed.hi.toNat - c.unsigned.lo.toNat) + 1 < 2 ^ w := by omega
  rw [span, if_pos hsplit', BitVec.toNat_add, BitVec.toNat_add, BitVec.toNat_sub_of_le hneg,
    BitVec.toNat_sub_of_le hpos, hone, Nat.mod_add_mod, Nat.mod_eq_of_lt hsum]

/-- A canonical constraint has a smaller span than one that admits its members, unless both have
the same bounds. -/
theorem IsTightest.span_lt_or_bounds_eq (hc : c.IsTightest c.Contains)
    (hd : d.IsTightest d.Contains) (hsubset : ∀ x, c.Contains x → d.Contains x) :
    c.span.toNat < d.span.toNat ∨ c.signed = d.signed ∧ c.unsigned = d.unsigned := by
  -- The bounds of the first constraint are members of the second, in both orders.
  have hslo := hd.signed_lo.2 _ (hsubset _ hc.signed_lo.1)
  have hshi := hd.signed_hi.2 _ (hsubset _ hc.signed_hi.1)
  have hulo := hd.unsigned_lo.2 _ (hsubset _ hc.unsigned_lo.1)
  have huhi := hd.unsigned_hi.2 _ (hsubset _ hc.unsigned_hi.1)
  have hle := hc.unsigned_hi.2 _ hc.unsigned_lo.1
  rw [BitVec.sle_iff_toInt_le] at hslo hshi
  rw [BitVec.le_def] at hulo huhi hle
  have s1 := Word.sign_cases c.signed.lo
  have s2 := Word.sign_cases c.signed.hi
  have s3 := Word.sign_cases d.signed.lo
  have s4 := Word.sign_cases d.signed.hi
  by_cases hcsplit : c.signed.lo = c.unsigned.lo
  · have hchi := hc.signed_hi_eq hcsplit
    rw [hc.toNat_span hcsplit]
    by_cases hdsplit : d.signed.lo = d.unsigned.lo
    · rw [hd.toNat_span hdsplit, or_iff_not_imp_left]
      intro hspan
      have hlo : c.unsigned.lo = d.unsigned.lo := BitVec.eq_of_toNat_eq (by omega)
      have hhi : c.unsigned.hi = d.unsigned.hi := BitVec.eq_of_toNat_eq (by omega)
      have hdhi := hd.signed_hi_eq hdsplit
      exact ⟨congrArg₂ Bounds.mk (by rw [hcsplit, hdsplit, hlo]) (by rw [hchi, hdhi, hhi]),
        congrArg₂ Bounds.mk hlo hhi⟩
    · -- One interval lies within one of the two halves.
      left
      obtain ⟨hdslo, hduhi, hdulo, hdshi⟩ := hd.separated hdsplit
      have hsign := hc.msb_eq hcsplit hc.unsigned_hi.1
      rw [hd.toNat_span_of_split hdsplit]
      rw [BitVec.msb_eq_true_iff_two_mul_ge] at hdslo hduhi
      rw [BitVec.msb_eq_false_iff_two_mul_lt] at hdulo hdshi
      rw [hcsplit] at hslo s1
      rw [hchi] at hshi s2
      cases hm : c.unsigned.lo.msb with
      | false =>
          rw [hm, BitVec.msb_eq_false_iff_two_mul_lt] at hsign
          rw [BitVec.msb_eq_false_iff_two_mul_lt] at hm
          omega
      | true =>
          rw [hm, BitVec.msb_eq_true_iff_two_mul_ge] at hsign
          rw [BitVec.msb_eq_true_iff_two_mul_ge] at hm
          omega
  · obtain ⟨hcslo, hcuhi, hculo, hcshi⟩ := hc.separated hcsplit
    have hneg : c.signed.lo ≤ c.unsigned.hi := hc.unsigned_hi.2 _ hc.signed_lo.1
    have hpos : c.unsigned.lo ≤ c.signed.hi := hc.unsigned_lo.2 _ hc.signed_hi.1
    rw [BitVec.le_def] at hneg hpos
    rw [hc.toNat_span_of_split hcsplit]
    rw [BitVec.msb_eq_true_iff_two_mul_ge] at hcslo hcuhi
    rw [BitVec.msb_eq_false_iff_two_mul_lt] at hculo hcshi
    by_cases hdsplit : d.signed.lo = d.unsigned.lo
    · -- A split constraint has members on both sides of the sign boundary.
      have hneg := hd.msb_eq hdsplit (hsubset _ hc.signed_lo.1)
      have hpos := hd.msb_eq hdsplit (hsubset _ hc.signed_hi.1)
      have hsame : c.signed.lo.msb = c.signed.hi.msb := hneg.trans hpos.symm
      rw [BitVec.msb_eq_true_iff_two_mul_ge.mpr hcslo,
        BitVec.msb_eq_false_iff_two_mul_lt.mpr hcshi] at hsame
      cases hsame
    · obtain ⟨hdslo, hduhi, hdulo, hdshi⟩ := hd.separated hdsplit
      rw [hd.toNat_span_of_split hdsplit, or_iff_not_imp_left]
      rw [BitVec.msb_eq_true_iff_two_mul_ge] at hdslo hduhi
      rw [BitVec.msb_eq_false_iff_two_mul_lt] at hdulo hdshi
      intro hspan
      have hslo' : c.signed.lo = d.signed.lo := BitVec.eq_of_toNat_eq (by omega)
      have hshi' : c.signed.hi = d.signed.hi := BitVec.eq_of_toNat_eq (by omega)
      have hulo' : c.unsigned.lo = d.unsigned.lo := BitVec.eq_of_toNat_eq (by omega)
      have huhi' : c.unsigned.hi = d.unsigned.hi := BitVec.eq_of_toNat_eq (by omega)
      exact ⟨congrArg₂ Bounds.mk hslo' hshi', congrArg₂ Bounds.mk hulo' huhi'⟩

/-- A canonical constraint has no larger span than one that admits its members. -/
theorem IsTightest.span_le (hc : c.IsTightest c.Contains) (hd : d.IsTightest d.Contains)
    (hsubset : ∀ x, c.Contains x → d.Contains x) : c.span.toNat ≤ d.span.toNat := by
  rcases hc.span_lt_or_bounds_eq hd hsubset with hlt | ⟨hsigned, hunsigned⟩
  · exact Nat.le_of_lt hlt
  · rw [span, span, isSplit, isSplit, hsigned, hunsigned]

/-- A canonical constraint has a smaller span than a different one that admits its members and
has the same known bits. -/
theorem IsTightest.span_lt (hc : c.IsTightest c.Contains) (hd : d.IsTightest d.Contains)
    (hsubset : ∀ x, c.Contains x → d.Contains x) (hbits : c.bits = d.bits) (hne : c ≠ d) :
    c.span.toNat < d.span.toNat := by
  rcases hc.span_lt_or_bounds_eq hd hsubset with hlt | ⟨hsigned, hunsigned⟩
  · exact hlt
  · exact absurd (Constraint.ext hsigned hunsigned hbits) hne

end Constraint
end WordRanges
