import WordRanges.Proofs.Domain.Counting

/-!
# Bits that bounds make known

The bits before the first difference of two bounds are the same in all words between them.  No
other bit is: from the first difference on, every position takes both values between the bounds.
So tightening bits by bounds adds exactly the bits that all words within the bounds share.

The bounds of a value describe one interval or two halves.  The bits that they imply are those
that all words within both bounds share, and the value knows them already.

Main results:

- Theorems {lit}`Bounds.zeros_sharedBits_iff` and {lit}`Bounds.ones_sharedBits_iff`: the shared bits
  of bounds are the constant bits of the words between them.
- Theorem {lit}`Constraint.IsTightest.refines_impliedBits`: implied bits are known.
- Theorem {lit}`Policy.implied_bits_exact`: what tightening adds and what the bounds of a value
  imply.
-/

namespace WordRanges

variable {w i : Nat}

namespace Bounds

variable {b : Bounds w}

/-- The shared zeros of bounds in order are the bits that are zero in all words between them. -/
theorem zeros_sharedBits_iff (hle : b.lo ≤ b.hi) (hi : i < w) :
    b.sharedBits.zeros.getLsbD i = true ↔ ∀ x, b.Contains x → x.getLsbD i = false := by
  rw [(settled_sharedBits hle).zeros_iff hi]
  simp only [contains_sharedBits]

/-- The shared ones of bounds in order are the bits that are one in all words between them. -/
theorem ones_sharedBits_iff (hle : b.lo ≤ b.hi) (hi : i < w) :
    b.sharedBits.ones.getLsbD i = true ↔ ∀ x, b.Contains x → x.getLsbD i = true := by
  rw [(settled_sharedBits hle).ones_iff hi]
  simp only [contains_sharedBits]

end Bounds

/-- Tightening bits adds the shared bits of the bounds. -/
theorem tightenBits_result (k : KnownBits w) (b : Bounds w) :
    (tightenBits k b).result = k.both b.sharedBits := by
  simp [tightenBits, Bounds.sharedBits, KnownBits.both, KnownBits.unknown]

namespace Constraint

/-- A constraint in tightest form knows the bits that its bounds imply. -/
theorem IsTightest.refines_impliedBits {c : Constraint w} (h : c.IsTightest c.Contains) :
    c.bits.Refines c.impliedBits := by
  have himplied := h.isTightest_impliedBits
  refine ⟨Word.and_not_eq_zero_iff.mpr ?_, Word.and_not_eq_zero_iff.mpr ?_⟩
  · intro i hi
    have hw : i < w := BitVec.lt_of_getLsbD hi
    refine (h.zeros i hw).mpr fun x hx => ?_
    exact (himplied.zeros i hw).mp hi x hx.encloses
  · intro i hi
    have hw : i < w := BitVec.lt_of_getLsbD hi
    refine (h.ones i hw).mpr fun x hx => ?_
    exact (himplied.ones i hw).mp hi x hx.encloses

end Constraint

namespace Policy

/-- Bits are derived from bounds exactly.  Tightening any bits by bounds in order adds a zero (a
one) at the positions that are zero (one) in all words between the bounds, and it is consistent if
no position is then in both masks.  The bits that the bounds of a value imply are those that are the
same in all words within its bounds in both orders, and the value knows them. -/
theorem implied_bits_exact (w : Nat) :
    (∀ (k : KnownBits w) (b : Bounds w), b.lo ≤ b.hi →
      (∀ i, i < w → ((tightenBits k b).result.zeros.getLsbD i = true ↔
        k.zeros.getLsbD i = true ∨ ∀ x, b.Contains x → x.getLsbD i = false)) ∧
      (∀ i, i < w → ((tightenBits k b).result.ones.getLsbD i = true ↔
        k.ones.getLsbD i = true ∨ ∀ x, b.Contains x → x.getLsbD i = true)) ∧
      ((tightenBits k b).consistent = true ↔ (tightenBits k b).result.Disjoint)) ∧
    ∀ (p : Policy) (v : Value w), p.Makes v →
      (∀ i, i < w → (v.constraint.impliedBits.zeros.getLsbD i = true ↔
        ∀ x, v.constraint.Encloses x → x.getLsbD i = false)) ∧
      (∀ i, i < w → (v.constraint.impliedBits.ones.getLsbD i = true ↔
        ∀ x, v.constraint.Encloses x → x.getLsbD i = true)) ∧
      v.bits.Refines v.constraint.impliedBits := by
  constructor
  · intro k b hle
    refine ⟨fun i hi => ?_, fun i hi => ?_, consistent_tightenBits⟩
    · rw [tightenBits_result, KnownBits.both, BitVec.getLsbD_or, Bool.or_eq_true,
        Bounds.zeros_sharedBits_iff hle hi]
    · rw [tightenBits_result, KnownBits.both, BitVec.getLsbD_or, Bool.or_eq_true,
        Bounds.ones_sharedBits_iff hle hi]
  · intro p v hv
    have htightest := hv.valid.isTightest
    have himplied := htightest.isTightest_impliedBits
    exact ⟨himplied.zeros, himplied.ones, htightest.refines_impliedBits⟩

/-! ### Bounds near a carry and on both sides of the sign boundary -/

namespace Derived

/-- The even words from minus four to two. -/
def evens : Value 8 :=
  ⟨⟨⟨-4, 2⟩, ⟨0, -2⟩, ⟨0x01, 0x00⟩⟩, 0⟩

theorem makes_evens : Policy.default.Makes evens :=
  ⟨[.make ⟨⟨-4, 2⟩, ⟨0, -1⟩, ⟨0x01, 0x00⟩⟩ 0], [evens], by decide +kernel, by simp⟩

/-- Nineteen and twenty share their five leading bits and nothing else.  The even words around zero
share their last bit, which their bounds do not imply. -/
theorem carry_and_evens : (19 : BitVec 8) ≤ 20 ∧ Policy.default.Makes evens ∧
    (¬ ∀ x, (Bounds.mk (w := 8) 19 20).Contains x → x.getLsbD 2 = false) ∧
    (∀ x, (Bounds.mk (w := 8) 19 20).Contains x → x.getLsbD 4 = true) ∧
    (¬ ∀ x, evens.constraint.Encloses x → x.getLsbD 0 = false) ∧
    evens.bits.Refines evens.constraint.impliedBits := by
  have hle : (19 : BitVec 8) ≤ 20 := by decide
  obtain ⟨hbits, hvalues⟩ := implied_bits_exact 8
  obtain ⟨hzeros, hones, -⟩ := hbits (.unknown 8) ⟨19, 20⟩ hle
  obtain ⟨himplied, -, hrefines⟩ := hvalues .default evens makes_evens
  refine ⟨hle, makes_evens, ?_, ?_, mt (himplied 0 (by decide)).mpr (by decide), hrefines⟩
  · intro hall
    exact absurd ((hzeros 2 (by decide)).mpr (Or.inr hall)) (by decide)
  · rcases (hones 4 (by decide)).mp (by decide) with hknown | hall
    · simp [KnownBits.unknown] at hknown
    · exact hall

end Derived

end Policy
end WordRanges
