import WordRanges.Proofs.Domain.Canonical

/-!
# The constraints without defects are the canonical ones

A constraint in canonical form is the tightest description of its own members.  So its
bounds are members, and neither its one interval nor its two halves can be tightened.
Conversely, a constraint that passes these tests describes its members as tightly as possible:
once its bounds are members, only its known bits can fall short.

Main results:

- Theorem {lit}`Constraint.IsTightest.defect?_eq_none`: a constraint that is the tightest one for
  its members has no defect.
- Theorem {lit}`Constraint.isTightest_of_defect?_eq_none`: a constraint without defects is the
  tightest one for its members.
- Theorem {lit}`Constraint.defect?_eq_none_iff_canonical`: canonicalizing leaves exactly the
  constraints without defects as they are.
-/

namespace WordRanges

variable {w : Nat} {k : KnownBits w} {b : Bounds w}

/-! ## Steps without progress -/

/-- A bound that agrees with the bits is not moved. -/
theorem KnownBits.ceil_eq_self {lo : BitVec w} (h : k.Satisfies lo) : k.ceil lo = lo := by
  rcases ceil_spec h.disjoint lo with hceil | ⟨-, hnone⟩
  · exact BitVec.le_antisymm (hceil.le_of_satisfies lo h (BitVec.le_refl lo)) hceil.bound_le
  · exact absurd (hnone lo h) (BitVec.lt_irrefl lo)

/-- An upper bound that agrees with the bits is not moved. -/
theorem KnownBits.floor_eq_self {hi : BitVec w} (h : k.Satisfies hi) : k.floor hi = hi := by
  have hswap : k.swap.Satisfies (~~~hi) := by
    rw [satisfies_swap, BitVec.not_not]
    exact h
  rw [floor, ceil_eq_self hswap, BitVec.not_not]

/-- Bounds that agree with the bits are not moved. -/
theorem progress_tightenBounds (hlo : k.Satisfies b.lo) (hhi : k.Satisfies b.hi) :
    (tightenBounds b k).progress = false := by
  unfold tightenBounds
  simp [KnownBits.ceil_eq_self hlo, KnownBits.floor_eq_self hhi, BitVec.lt_irrefl]

/-- If the shared bits are known, the bits make no progress. -/
theorem progress_tightenBits (h : (BoundedBits.mk b k).SharedKnown) :
    (tightenBits k b).progress = false := by
  have hzeros : (tightenBits k b).result.zeros = k.zeros := by
    apply BitVec.eq_of_getLsbD_eq
    intro i _
    rw [Bool.eq_iff_iff, getLsbD_zeros_tightenBits]
    exact ⟨fun hi => hi.elim id fun hi => (h i hi.1).1 hi.2, Or.inl⟩
  have hones : (tightenBits k b).result.ones = k.ones := by
    apply BitVec.eq_of_getLsbD_eq
    intro i _
    rw [Bool.eq_iff_iff, getLsbD_ones_tightenBits]
    exact ⟨fun hi => hi.elim id fun hi => (h i hi.1).2 hi.2, Or.inl⟩
  simp only [tightenBits] at hzeros hones ⊢
  simp [hzeros, hones]

/-- If the bits make no progress, the shared bits are known. -/
theorem sharedKnown_of_not_progress (h : (tightenBits k b).progress = false) :
    (BoundedBits.mk b k).SharedKnown := by
  have hresult : (tightenBits k b).result = k := by
    simp only [tightenBits, decide_eq_false_iff_not, not_or, not_not] at h ⊢
    rw [h.1, h.2]
  have hshared := sharedKnown_tightenBits k b
  rwa [hresult] at hshared

namespace Constraint

variable {c : Constraint w} {x : BitVec w}

/-- All four bounds of a constraint are members. -/
structure AttainsBounds (c : Constraint w) : Prop where
  signed_lo : c.Contains c.signed.lo
  signed_hi : c.Contains c.signed.hi
  unsigned_lo : c.Contains c.unsigned.lo
  unsigned_hi : c.Contains c.unsigned.hi

/-- A constraint in tightest form attains its bounds. -/
theorem IsTightest.attainsBounds (h : c.IsTightest c.Contains) : c.AttainsBounds :=
  ⟨h.signed_lo.1, h.signed_hi.1, h.unsigned_lo.1, h.unsigned_hi.1⟩

/-- No bound is found that is not a member exactly if all bounds are attained. -/
theorem find?_bound_eq_none_iff :
    [c.signed.lo, c.signed.hi, c.unsigned.lo, c.unsigned.hi].find? (¬ c.Contains ·) = none ↔
      c.AttainsBounds := by
  simp only [List.find?_eq_none, List.forall_mem_cons, decide_eq_true_eq, not_not]
  exact ⟨fun ⟨hslo, hshi, hulo, huhi, _⟩ => ⟨hslo, hshi, hulo, huhi⟩,
    fun h => ⟨h.signed_lo, h.signed_hi, h.unsigned_lo, h.unsigned_hi, List.forall_mem_nil _⟩⟩

/-! ## Unsplit constraints -/

/-- The members of an unsplit constraint in tightest form have one sign. -/
theorem IsTightest.msb_eq (h : c.IsTightest c.Contains) (hsplit : c.signed.lo = c.unsigned.lo)
    (hx : c.Contains x) : x.msb = c.unsigned.lo.msb := by
  have hs := h.signed_lo.2 x hx
  have hu := h.unsigned_lo.2 x hx
  rw [hsplit, BitVec.sle_iff_toInt_le] at hs
  rw [BitVec.le_def] at hu
  have hxs := Word.sign_cases x
  have hls := Word.sign_cases c.unsigned.lo
  have hxlt := x.isLt
  cases hm : c.unsigned.lo.msb with
  | false =>
      rw [BitVec.msb_eq_false_iff_two_mul_lt] at hm ⊢
      omega
  | true =>
      rw [BitVec.msb_eq_true_iff_two_mul_ge] at hm ⊢
      omega

/-- An unsplit constraint in tightest form has the same upper bound in both orders. -/
theorem IsTightest.signed_hi_eq (h : c.IsTightest c.Contains)
    (hsplit : c.signed.lo = c.unsigned.lo) : c.signed.hi = c.unsigned.hi := by
  have hsign : c.signed.hi.msb = c.unsigned.hi.msb :=
    (h.msb_eq hsplit h.signed_hi.1).trans (h.msb_eq hsplit h.unsigned_hi.1).symm
  have hle : c.signed.hi ≤ c.unsigned.hi := h.unsigned_hi.2 _ h.signed_hi.1
  exact Word.sle_antisymm (Word.sle_of_le_of_msb_eq hsign hle)
    (h.signed_hi.2 _ h.unsigned_hi.1)

/-- An unsplit constraint in tightest form has the same bounds in both orders. -/
theorem IsTightest.signed_eq_unsigned (h : c.IsTightest c.Contains)
    (hsplit : c.signed.lo = c.unsigned.lo) : c.signed = c.unsigned :=
  congrArg₂ Bounds.mk hsplit (h.signed_hi_eq hsplit)

/-- The one interval of an unsplit constraint in tightest form is settled. -/
theorem IsTightest.sharedKnown (h : c.IsTightest c.Contains) :
    (BoundedBits.mk c.unsigned c.bits).SharedKnown := by
  intro i hi
  have hw : i < w := BitVec.lt_of_getLsbD hi
  constructor
  · intro hlo
    refine (h.zeros i hw).mpr fun x hx => ?_
    rw [hx.2.1.getLsbD_eq hi]
    exact hlo
  · intro hlo
    refine (h.ones i hw).mpr fun x hx => ?_
    rw [hx.2.1.getLsbD_eq hi]
    exact hlo

/-- An unsplit constraint in tightest form has no defect. -/
theorem IsTightest.intervalDefect?_eq_none (h : c.IsTightest c.Contains)
    (hsplit : c.signed.lo = c.unsigned.lo) : c.intervalDefect? = none := by
  unfold intervalDefect?
  rw [if_neg (not_not.mpr (h.signed_hi_eq hsplit)), progress_tightenBits h.sharedKnown,
    progress_tightenBounds h.unsigned_lo.1.2.2 h.unsigned_hi.1.2.2]
  rfl

/-- An unsplit constraint without defects is the tightest one for its members, if these include
its bounds. -/
theorem isTightest_of_intervalDefect? (hbounds : c.AttainsBounds)
    (hsplit : c.signed.lo = c.unsigned.lo) (h : c.intervalDefect? = none) :
    c.IsTightest c.Contains := by
  unfold intervalDefect? at h
  split at h
  · cases h
  · rename_i hhi
    split at h
    · cases h
    · rename_i hbits
      have hside : c.unsigned.lo.sle c.unsigned.hi = true := hsplit ▸ hbounds.unsigned_hi.1.1
      have hsettled : (BoundedBits.mk c.unsigned c.bits).Settled :=
        ⟨hbounds.unsigned_lo.2, hbounds.unsigned_hi.2,
          sharedKnown_of_not_progress (Bool.eq_false_iff.mpr hbits)⟩
      have hinterval : ofInterval ⟨c.unsigned, c.bits⟩ = c := by
        obtain ⟨⟨slo, shi⟩, ⟨ulo, uhi⟩, bits⟩ := c
        cases hsplit
        cases not_not.mp hhi
        rfl
      have htightest := isTightest_ofInterval hsettled fun x y hx hy =>
        msb_eq_of_contains hside hx.1 hy.1
      rw [hinterval] at htightest
      exact htightest.congr fun x => ⟨htightest.contains, fun hx => hx.2⟩

/-! ## Split constraints -/

/-- The halves of a split constraint in tightest form are separated by the sign boundary. -/
theorem IsTightest.separated (h : c.IsTightest c.Contains)
    (hsplit : c.signed.lo ≠ c.unsigned.lo) :
    c.signed.lo.msb = true ∧ c.unsigned.hi.msb = true ∧ c.unsigned.lo.msb = false ∧
      c.signed.hi.msb = false := by
  have h1 := h.signed_lo.2 _ h.unsigned_lo.1
  have h2 := h.unsigned_lo.2 _ h.signed_lo.1
  have h3 := h.unsigned_hi.2 _ h.signed_lo.1
  have h4 := h.signed_hi.2 _ h.unsigned_lo.1
  rw [BitVec.sle_iff_toInt_le] at h1 h4
  rw [BitVec.le_def] at h2 h3
  have hne : c.signed.lo.toNat ≠ c.unsigned.lo.toNat := fun heq =>
    hsplit (BitVec.eq_of_toNat_eq heq)
  have s1 := Word.sign_cases c.signed.lo
  have s2 := Word.sign_cases c.unsigned.lo
  have s3 := Word.sign_cases c.unsigned.hi
  have s4 := Word.sign_cases c.signed.hi
  have l4 := c.signed.hi.isLt
  refine ⟨BitVec.msb_eq_true_iff_two_mul_ge.mpr ?_, BitVec.msb_eq_true_iff_two_mul_ge.mpr ?_,
    BitVec.msb_eq_false_iff_two_mul_lt.mpr ?_, BitVec.msb_eq_false_iff_two_mul_lt.mpr ?_⟩ <;>
  omega

/-- A half between two members has the bits that tightening finds. -/
theorem halfBits_eq_ok {half : Bounds w} (hle : half.lo ≤ half.hi)
    (hlo : c.bits.Satisfies half.lo) (hhi : c.bits.Satisfies half.hi) :
    c.halfBits half = .ok (tightenBits c.bits half).result := by
  have hsettled := settled_tightenBits hle hlo hhi
  have hcons := consistent_tightenBits.mpr hsettled.contains_lo.2.disjoint
  have hprog := progress_tightenBounds hsettled.contains_lo.2 hsettled.contains_hi.2
  unfold halfBits
  simp only [hcons]
  simp [hprog]

/-- The negative half of a constraint that attains its bounds has words. -/
theorem AttainsBounds.negativeHalf_le (hbounds : c.AttainsBounds) :
    c.negativeHalf.lo ≤ c.negativeHalf.hi :=
  hbounds.signed_lo.2.1.2

/-- The positive half of a constraint that attains its bounds has words. -/
theorem AttainsBounds.positiveHalf_le (hbounds : c.AttainsBounds) :
    c.positiveHalf.lo ≤ c.positiveHalf.hi :=
  hbounds.signed_hi.2.1.1

/-- The two halves of a constraint that attains its bounds, with the bits that tightening finds,
make up the tightest constraint for its members. -/
theorem AttainsBounds.isTightest_halves (hbounds : c.AttainsBounds)
    (hulo : c.unsigned.lo.msb = false) (huhi : c.unsigned.hi.msb = true) :
    (ofHalves ⟨c.negativeHalf, (tightenBits c.bits c.negativeHalf).result⟩
      ⟨c.positiveHalf, (tightenBits c.bits c.positiveHalf).result⟩).IsTightest c.Contains := by
  have hneg : c.signed.lo.toInt ≤ c.unsigned.hi.toInt :=
    BitVec.sle_iff_toInt_le.mp hbounds.unsigned_hi.1.1
  have hpos : c.unsigned.lo.toInt ≤ c.signed.hi.toInt :=
    BitVec.sle_iff_toInt_le.mp hbounds.unsigned_lo.1.2
  have hnsettled := settled_tightenBits hbounds.negativeHalf_le hbounds.signed_lo.2.2
    hbounds.unsigned_hi.2.2
  have hpsettled := settled_tightenBits hbounds.positiveHalf_le hbounds.unsigned_lo.2.2
    hbounds.signed_hi.2.2
  refine (isTightest_ofHalves hnsettled hpsettled
    (fun x hx => msb_of_negativeHalf hneg huhi hx.1)
    (fun x hx => msb_of_positiveHalf hpos hulo hx.1)).congr fun x => ?_
  rw [contains_tightenBits, contains_tightenBits, contains_iff_halves hulo huhi hneg hpos]

/-- A split constraint in tightest form has no defect. -/
theorem IsTightest.splitDefect?_eq_none (h : c.IsTightest c.Contains)
    (hsplit : c.signed.lo ≠ c.unsigned.lo) : c.splitDefect? = none := by
  obtain ⟨hslo, huhi, hulo, hshi⟩ := h.separated hsplit
  have hbounds := h.attainsBounds
  -- The halves put together describe the same members, so their bits are those of the whole.
  have hbits : (tightenBits c.bits c.negativeHalf).result.common
      (tightenBits c.bits c.positiveHalf).result = c.bits :=
    congrArg Constraint.bits ((hbounds.isTightest_halves hulo huhi).unique h)
  unfold splitDefect?
  rw [halfBits_eq_ok hbounds.negativeHalf_le hbounds.signed_lo.2.2 hbounds.unsigned_hi.2.2,
    halfBits_eq_ok hbounds.positiveHalf_le hbounds.unsigned_lo.2.2 hbounds.signed_hi.2.2]
  simp [hslo, huhi, hulo, hshi, hbits]

/-- A split constraint without defects is the tightest one for its members, if these include its
bounds.  The tests of the single halves hold of any such constraint; what counts is that the
bits of the halves are no more than those of the whole. -/
theorem isTightest_of_splitDefect? (hbounds : c.AttainsBounds) (h : c.splitDefect? = none) :
    c.IsTightest c.Contains := by
  unfold splitDefect? at h
  split at h
  · cases h
  · rename_i hseparated
    simp only [Bool.or_eq_true, Bool.not_eq_true', not_or, Bool.not_eq_false,
      Bool.not_eq_true] at hseparated
    obtain ⟨⟨⟨-, huhi⟩, hulo⟩, -⟩ := hseparated
    rw [halfBits_eq_ok hbounds.negativeHalf_le hbounds.signed_lo.2.2 hbounds.unsigned_hi.2.2,
      halfBits_eq_ok hbounds.positiveHalf_le hbounds.unsigned_lo.2.2 hbounds.signed_hi.2.2] at h
    simp only at h
    split at h
    · rename_i hbits
      have hhalves := hbounds.isTightest_halves hulo huhi
      unfold ofHalves at hhalves
      rwa [hbits] at hhalves
    · cases h

/-! ## All constraints -/

/-- A constraint that is the tightest one for its members has no defect. -/
theorem IsTightest.defect?_eq_none (h : c.IsTightest c.Contains) : c.defect? = none := by
  unfold defect?
  rw [find?_bound_eq_none_iff.mpr h.attainsBounds]
  simp only
  rw [if_neg (not_not.mpr h.signed_lo.1.2.2.disjoint)]
  split
  · rename_i hsplit
    exact h.splitDefect?_eq_none (by simpa [isSplit] using hsplit)
  · rename_i hsplit
    exact h.intervalDefect?_eq_none (by simpa [isSplit] using hsplit)

/-- A constraint without defects is the tightest one for its members. -/
theorem isTightest_of_defect?_eq_none (h : c.defect? = none) : c.IsTightest c.Contains := by
  unfold defect? at h
  split at h
  · cases h
  · rename_i hfind
    have hbounds := find?_bound_eq_none_iff.mp hfind
    split at h
    · cases h
    · split at h
      · exact isTightest_of_splitDefect? hbounds h
      · rename_i hsplit
        exact isTightest_of_intervalDefect? hbounds (by simpa [isSplit] using hsplit) h

/-- A constraint has no defect exactly if it is its own canonical form, whatever its parts are:
the tests accept all that canonicalizing returns, and nothing else. -/
theorem defect?_eq_none_iff_canonical (c : Constraint w) :
    c.defect? = none ↔ c.canonical? = some c :=
  ⟨fun h => canonical?_eq_some (isTightest_of_defect?_eq_none h),
    fun h => (isTightest_of_canonical? h).defect?_eq_none⟩

end Constraint
end WordRanges
