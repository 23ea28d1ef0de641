import WordRanges.Proofs.Domain.Counting

/-!
# Unknown bits and neighbours

A bit that the canonical form of a constraint leaves unknown takes both values among the members.
The two members that show this need not be neighbours, which differ in that bit only: the set of
one and two has two unknown bits, and its members differ in both.  No other bits could be known of
that set, so this is not a matter of how bits are found.

Whether there are neighbours at an unknown position is seen from one candidate: the least word
that agrees with the bits and has a zero there.  If the bit of this word cannot be set within the
bounds, then neither can that of any greater one.

Main results:

- Theorem {lit}`Bounds.hasPair_iff`: one candidate decides whether a bit can be set between bounds.
- Theorem {lit}`Constraint.IsTightest.exists_neighbours_iff`: the same for all members of a
  constraint in tightest form.
- Theorem {lit}`Constraint.unknown_bits_vary`: unknown bits of canonical forms take both values, and
  when neighbours show it.
-/

namespace WordRanges

variable {w i : Nat} {x y : BitVec w}

/-! ## Words that differ in one position -/

namespace Word

/-- Two words differ in one position and agree in all others. -/
def DifferOnlyAt (i : Nat) (x y : BitVec w) : Prop :=
  ∀ j, j < w → (x.getLsbD j ≠ y.getLsbD j ↔ j = i)

instance (i : Nat) (x y : BitVec w) : Decidable (DifferOnlyAt i x y) :=
  inferInstanceAs (Decidable (∀ j, j < w → (x.getLsbD j ≠ y.getLsbD j ↔ j = i)))

/-- It does not matter which of two neighbours comes first. -/
theorem DifferOnlyAt.symm (h : DifferOnlyAt i x y) : DifferOnlyAt i y x := by
  intro j hj
  rw [ne_comm]
  exact h j hj

/-- Setting a bit that is zero leads to a neighbour. -/
theorem differOnlyAt_or_twoPow (hx : x.getLsbD i = false) :
    DifferOnlyAt i x (x ||| BitVec.twoPow w i) := by
  intro j hj
  by_cases hij : i = j
  · subst hij
    simp [getLsbD_set_self hj, hx]
  · simp [getLsbD_set_of_ne hij, Ne.symm hij]

/-- Of two neighbours, the one with a one is the other one with its bit set. -/
theorem DifferOnlyAt.eq_or_twoPow (h : DifferOnlyAt i x y) (hx : x.getLsbD i = false) :
    y = x ||| BitVec.twoPow w i := by
  apply BitVec.eq_of_getLsbD_eq
  intro j hj
  by_cases hij : i = j
  · subst hij
    have hne := (h i hj).mpr rfl
    rw [hx] at hne
    rw [getLsbD_set_self hj]
    exact Bool.eq_true_of_not_eq_false hne.symm
  · rw [getLsbD_set_of_ne hij]
    exact (not_not.mp (mt (h j hj).mp (Ne.symm hij))).symm

/-- A set has neighbours at a position exactly if the bit of some element can be set. -/
theorem exists_differOnlyAt_iff {M : BitVec w → Prop} (hi : i < w) :
    (∃ x y, M x ∧ M y ∧ DifferOnlyAt i x y) ↔
      ∃ x, M x ∧ x.getLsbD i = false ∧ M (x ||| BitVec.twoPow w i) := by
  constructor
  · rintro ⟨x, y, hx, hy, hdiffer⟩
    cases hbit : x.getLsbD i with
    | false => exact ⟨x, hx, hbit, hdiffer.eq_or_twoPow hbit ▸ hy⟩
    | true =>
        have hother : y.getLsbD i = false := by
          have hne := (hdiffer i hi).mpr rfl
          rw [hbit] at hne
          exact Bool.eq_false_of_not_eq_true hne.symm
        exact ⟨y, hy, hother, hdiffer.symm.eq_or_twoPow hother ▸ hx⟩
  · rintro ⟨x, hx, hbit, hset⟩
    exact ⟨x, _, hx, hset, differOnlyAt_or_twoPow hbit⟩

/-! ## Order of words with a bit set or cleared -/

/-- Setting a bit of both words keeps their order, if the greater one has a zero there. -/
theorem or_twoPow_le_or_twoPow (hy : y.getLsbD i = false) (h : x ≤ y) :
    x ||| BitVec.twoPow w i ≤ y ||| BitVec.twoPow w i := by
  by_cases heq : x = y
  · rw [heq]
    exact BitVec.le_refl _
  · obtain ⟨d, -, hxd, hyd, habove⟩ := exists_top_difference (BitVec.lt_of_le_ne h heq)
    have hid : i ≠ d := by
      rintro rfl
      rw [hy] at hyd
      cases hyd
    refine BitVec.le_of_lt (lt_of_getLsbD d ?_ ?_ ?_)
    · rw [getLsbD_set_of_ne hid, hxd]
    · rw [getLsbD_set_of_ne hid, hyd]
    · intro j hj
      rw [BitVec.getLsbD_or, BitVec.getLsbD_or, habove j hj]

/-- A word is not above itself with a bit cleared and set again. -/
theorem le_clear_or_twoPow (x : BitVec w) (i : Nat) :
    x ≤ (x &&& ~~~BitVec.twoPow w i) ||| BitVec.twoPow w i := by
  apply le_of_getLsbD_imp
  intro j hj
  by_cases hij : i = j
  · subst hij
    exact getLsbD_set_self (BitVec.lt_of_getLsbD hj)
  · rw [getLsbD_set_of_ne hij, getLsbD_clear, hj, Bool.true_and]
    exact decide_eq_true hij

/-- A bit that is one in a word can be cleared in it and in a word that is not below. -/
theorem clear_le_of_le_or_twoPow (hx : x.getLsbD i = true) (hy : y.getLsbD i = false)
    (h : x ≤ y ||| BitVec.twoPow w i) : x &&& ~~~BitVec.twoPow w i ≤ y := by
  by_cases heq : x = y ||| BitVec.twoPow w i
  · apply le_of_getLsbD_imp
    intro j hj
    rw [getLsbD_clear, Bool.and_eq_true, decide_eq_true_eq] at hj
    rw [← getLsbD_set_of_ne hj.2, ← heq]
    exact hj.1
  · obtain ⟨d, -, hxd, hyd, habove⟩ := exists_top_difference (BitVec.lt_of_le_ne h heq)
    have hid : i ≠ d := by
      rintro rfl
      rw [hx] at hxd
      cases hxd
    refine BitVec.le_of_lt (lt_of_getLsbD d ?_ ?_ ?_)
    · rw [getLsbD_clear, hxd, Bool.false_and]
    · rw [← getLsbD_set_of_ne hid]
      exact hyd
    · intro j hj
      rw [getLsbD_clear]
      by_cases hij : i = j
      · subst hij
        simp [hy]
      · rw [habove j hj, getLsbD_set_of_ne hij, decide_eq_true hij, Bool.and_true]

end Word

/-! ## One more known zero -/

namespace KnownBits

variable {k : KnownBits w}

/-- A mask of one bit has its one only there. -/
theorem eq_of_getLsbD_twoPow {j : Nat} (h : (BitVec.twoPow w i).getLsbD j = true) : i = j := by
  rw [BitVec.getLsbD_twoPow, Bool.and_eq_true, decide_eq_true_eq, decide_eq_true_eq] at h
  exact h.2

/-- The known bits with one more known zero. -/
def withZero (k : KnownBits w) (i : Nat) : KnownBits w :=
  k.both ⟨BitVec.twoPow w i, 0⟩

/-- The words that agree with one more known zero. -/
theorem satisfies_withZero (hi : i < w) :
    (k.withZero i).Satisfies x ↔ k.Satisfies x ∧ x.getLsbD i = false := by
  rw [withZero, satisfies_both]
  refine and_congr_right fun _ => ?_
  rw [satisfies_iff]
  constructor
  · intro h
    exact (h i).1 (by simp [hi])
  · intro hx j
    constructor
    · intro hj
      rw [← eq_of_getLsbD_twoPow hj]
      exact hx
    · intro hj
      simp at hj

/-- A zero at a position that is not known to be one keeps the masks disjoint. -/
theorem Disjoint.withZero (hk : k.Disjoint) (ho : k.ones.getLsbD i = false) :
    (k.withZero i).Disjoint := by
  rw [disjoint_iff] at hk ⊢
  intro j hj
  rw [KnownBits.withZero, both, BitVec.getLsbD_or, Bool.or_eq_true] at hj
  have hones : (k.withZero i).ones.getLsbD j = k.ones.getLsbD j := by
    simp [KnownBits.withZero, both]
  rw [hones]
  rcases hj with hj | hj
  · exact hk j hj
  · rw [← eq_of_getLsbD_twoPow hj]
    exact ho

/-- What rounding up finds agrees with the bits, also if it wraps around. -/
theorem satisfies_ceil (hk : k.Disjoint) (lo : BitVec w) : k.Satisfies (k.ceil lo) := by
  rcases ceil_spec hk lo with hceil | ⟨hones, -⟩
  · exact hceil.satisfies
  · rw [hones]
    exact hk.satisfies_ones

end KnownBits

/-! ## Pairs between bounds -/

namespace Bounds

variable {k : KnownBits w} {low high : Bounds w}

/-- Where to look for a word between the lower bounds whose bit can be set to reach a word between
the upper bounds. -/
def start (i : Nat) (low high : Bounds w) : BitVec w :=
  Word.umax low.lo (high.lo &&& ~~~BitVec.twoPow w i)

/-- The least word from there on that agrees with the bits and has a zero at the position. -/
def candidate (k : KnownBits w) (i : Nat) (low high : Bounds w) : BitVec w :=
  (k.withZero i).ceil (start i low high)

/-- The candidate lies between the lower bounds and, with its bit set, between the upper ones. -/
def HasPair (k : KnownBits w) (i : Nat) (low high : Bounds w) : Prop :=
  low.Contains (candidate k i low high) ∧
    high.Contains (candidate k i low high ||| BitVec.twoPow w i)

instance (k : KnownBits w) (i : Nat) (low high : Bounds w) : Decidable (HasPair k i low high) :=
  inferInstanceAs (Decidable (_ ∧ _))

/-- The start is below neither of the two lower ends. -/
theorem le_start (i : Nat) (low high : Bounds w) :
    low.lo ≤ start i low high ∧ high.lo &&& ~~~BitVec.twoPow w i ≤ start i low high := by
  rw [BitVec.le_def, BitVec.le_def, start, Word.toNat_umax]
  exact ⟨Nat.le_max_left _ _, Nat.le_max_right _ _⟩

/-- One candidate decides whether the bit of some word can be set, provided that no word below the
candidate's start could be such a word. -/
theorem hasPair_iff (hi : i < w) (hk : k.Disjoint) (ho : k.ones.getLsbD i = false)
    (hstart : ∀ x, x.getLsbD i = false → low.Contains x → high.Contains (x ||| BitVec.twoPow w i) →
      high.lo &&& ~~~BitVec.twoPow w i ≤ x) :
    HasPair k i low high ↔ ∃ x, k.Satisfies x ∧ x.getLsbD i = false ∧ low.Contains x ∧
      high.Contains (x ||| BitVec.twoPow w i) := by
  have hk' := hk.withZero ho
  constructor
  · rintro ⟨hlow, hhigh⟩
    obtain ⟨hsat, hbit⟩ := (KnownBits.satisfies_withZero hi).mp (KnownBits.satisfies_ceil hk' _)
    exact ⟨_, hsat, hbit, hlow, hhigh⟩
  · rintro ⟨x, hsat, hbit, hlow, hhigh⟩
    have hsat' : (k.withZero i).Satisfies x := (KnownBits.satisfies_withZero hi).mpr ⟨hsat, hbit⟩
    -- The candidate lies between its start and every word whose bit can be set.
    have hle : start i low high ≤ x := by
      unfold start Word.umax
      split
      · exact hstart x hbit hlow hhigh
      · exact hlow.1
    have hceil := KnownBits.isCeil_of_exists hk' ⟨x, hsat', hle⟩
    have hbelow := hceil.le_of_satisfies x hsat' hle
    obtain ⟨-, hzero⟩ := (KnownBits.satisfies_withZero hi).mp hceil.satisfies
    obtain ⟨hlowStart, hhighStart⟩ := le_start i low high
    refine ⟨⟨BitVec.le_trans hlowStart hceil.bound_le, BitVec.le_trans hbelow hlow.2⟩, ?_, ?_⟩
    · calc high.lo ≤ (high.lo &&& ~~~BitVec.twoPow w i) ||| BitVec.twoPow w i :=
            Word.le_clear_or_twoPow high.lo i
        _ ≤ candidate k i low high ||| BitVec.twoPow w i :=
            Word.or_twoPow_le_or_twoPow hzero (BitVec.le_trans hhighStart hceil.bound_le)
    · exact BitVec.le_trans (Word.or_twoPow_le_or_twoPow hbit hbelow) hhigh.2

/-- Between the same bounds, one candidate decides whether the bit of some word can be set. -/
theorem hasPair_self_iff {b : Bounds w} (hi : i < w) (hk : k.Disjoint)
    (ho : k.ones.getLsbD i = false) :
    HasPair k i b b ↔ ∃ x, k.Satisfies x ∧ x.getLsbD i = false ∧ b.Contains x ∧
      b.Contains (x ||| BitVec.twoPow w i) := by
  refine hasPair_iff hi hk ho fun x _ hx _ => ?_
  exact BitVec.le_trans (Word.clear_le b.lo i) hx.1

end Bounds

namespace Constraint

variable {c d : Constraint w}

/-! ## Neighbours among the members -/

/-- The bit at a position can be set in some word of a canonical constraint: within its one
interval, or within one of its halves, or from the positive to the negative half. -/
def HasNeighbours (c : Constraint w) (i : Nat) : Prop :=
  if c.isSplit then
    Bounds.HasPair c.bits i c.negativeHalf c.negativeHalf ∨
      Bounds.HasPair c.bits i c.positiveHalf c.positiveHalf ∨
      Bounds.HasPair c.bits i c.positiveHalf c.negativeHalf
  else
    Bounds.HasPair c.bits i c.unsigned c.unsigned

instance (c : Constraint w) (i : Nat) : Decidable (c.HasNeighbours i) :=
  inferInstanceAs (Decidable (if c.isSplit = true then _ else _))

/-- Setting a bit leads from the positive to the negative half only if it is the sign. -/
theorem IsTightest.hasPair_halves_iff (h : c.IsTightest c.Contains)
    (hsplit : c.signed.lo ≠ c.unsigned.lo) (hi : i < w) (ho : c.bits.ones.getLsbD i = false) :
    Bounds.HasPair c.bits i c.positiveHalf c.negativeHalf ↔ ∃ x, c.bits.Satisfies x ∧
      x.getLsbD i = false ∧ c.positiveHalf.Contains x ∧
      c.negativeHalf.Contains (x ||| BitVec.twoPow w i) := by
  refine Bounds.hasPair_iff hi h.signed_lo.1.2.2.disjoint ho fun x hbit hpos hneg => ?_
  have hlast : i = w - 1 := by
    have hxs := h.msb_positiveHalf hsplit hpos
    have hys := h.msb_negativeHalf hsplit hneg
    rw [BitVec.msb_eq_getLsbD_last] at hxs hys
    by_contra hne
    rw [Word.getLsbD_set_of_ne hne, hxs] at hys
    cases hys
  have hsign : c.negativeHalf.lo.getLsbD i = true := by
    rw [hlast, ← BitVec.msb_eq_getLsbD_last]
    exact (h.separated hsplit).1
  exact Word.clear_le_of_le_or_twoPow hsign hbit hneg.1

/-- Setting an unknown bit of a member leads to a member if it stays within the bounds. -/
theorem contains_set_iff (hz : c.bits.zeros.getLsbD i = false) :
    c.Contains x ∧ x.getLsbD i = false ∧ c.Contains (x ||| BitVec.twoPow w i) ↔
      c.bits.Satisfies x ∧ x.getLsbD i = false ∧ c.Encloses x ∧
        c.Encloses (x ||| BitVec.twoPow w i) := by
  constructor
  · rintro ⟨hx, hbit, hset⟩
    exact ⟨hx.2.2, hbit, hx.encloses, hset.encloses⟩
  · rintro ⟨hsat, hbit, hx, hset⟩
    exact ⟨⟨hx.1, hx.2, hsat⟩, hbit, hset.1, hset.2, BoundedBits.satisfies_or_twoPow hsat hz⟩

/-- The members of a constraint in tightest form have neighbours at an unknown position exactly
if the candidates say so. -/
theorem IsTightest.exists_neighbours_iff (h : c.IsTightest c.Contains) (hi : i < w)
    (hz : c.bits.zeros.getLsbD i = false) (ho : c.bits.ones.getLsbD i = false) :
    (∃ x y, c.Contains x ∧ c.Contains y ∧ Word.DifferOnlyAt i x y) ↔ c.HasNeighbours i := by
  have hk : c.bits.Disjoint := h.signed_lo.1.2.2.disjoint
  rw [Word.exists_differOnlyAt_iff hi]
  simp only [contains_set_iff hz]
  unfold HasNeighbours
  by_cases hsplit : c.signed.lo = c.unsigned.lo
  · rw [if_neg (by simp [isSplit, hsplit]), Bounds.hasPair_self_iff hi hk ho]
    simp only [h.encloses_iff hsplit]
  · rw [if_pos (by simp [isSplit, hsplit]), Bounds.hasPair_self_iff hi hk ho,
      Bounds.hasPair_self_iff hi hk ho, h.hasPair_halves_iff hsplit hi ho]
    simp only [h.encloses_iff_halves hsplit]
    constructor
    · rintro ⟨x, hsat, hbit, hx | hx, hset | hset⟩
      · exact Or.inl ⟨x, hsat, hbit, hx, hset⟩
      · -- Setting a bit keeps a negative word negative.
        have hxs := h.msb_negativeHalf hsplit hx
        have hys := h.msb_positiveHalf hsplit hset
        rw [BitVec.msb_or, hxs, Bool.true_or] at hys
        cases hys
      · exact Or.inr (Or.inr ⟨x, hsat, hbit, hx, hset⟩)
      · exact Or.inr (Or.inl ⟨x, hsat, hbit, hx, hset⟩)
    · rintro (⟨x, hsat, hbit, hx, hset⟩ | ⟨x, hsat, hbit, hx, hset⟩ | ⟨x, hsat, hbit, hx, hset⟩)
      · exact ⟨x, hsat, hbit, Or.inl hx, Or.inl hset⟩
      · exact ⟨x, hsat, hbit, Or.inr hx, Or.inr hset⟩
      · exact ⟨x, hsat, hbit, Or.inr hx, Or.inl hset⟩

/-- An unknown bit of a constraint that is tightest for a set takes both values in the set. -/
theorem IsTightest.exists_ne {M : BitVec w → Prop} (h : d.IsTightest M) (hi : i < w)
    (hz : d.bits.zeros.getLsbD i = false) (ho : d.bits.ones.getLsbD i = false) :
    ∃ x y, M x ∧ M y ∧ x.getLsbD i ≠ y.getLsbD i := by
  have hone : ∃ x, M x ∧ ¬ x.getLsbD i = false := by
    by_contra hnone
    have hzero := (h.zeros i hi).mpr fun x hx => not_not.mp fun hne => hnone ⟨x, hx, hne⟩
    rw [hz] at hzero
    cases hzero
  have hzero : ∃ y, M y ∧ ¬ y.getLsbD i = true := by
    by_contra hnone
    have hone := (h.ones i hi).mpr fun y hy => not_not.mp fun hne => hnone ⟨y, hy, hne⟩
    rw [ho] at hone
    cases hone
  obtain ⟨x, hx, hxi⟩ := hone
  obtain ⟨y, hy, hyi⟩ := hzero
  refine ⟨x, y, hx, hy, ?_⟩
  rw [Bool.eq_true_of_not_eq_false hxi, Bool.eq_false_of_not_eq_true hyi]
  decide

/-- A bit that the canonical form of a constraint leaves unknown takes both values among the
members.  Two members that differ in this bit only exist exactly if the candidates of the canonical
form say so. -/
theorem unknown_bits_vary (hc : ∃ x, c.Contains x) :
    ∃ d, c.canonical? = some d ∧ ∀ i, i < w → d.bits.known.getLsbD i = false →
      (∃ x y, c.Contains x ∧ c.Contains y ∧ x.getLsbD i ≠ y.getLsbD i) ∧
      ((∃ x y, c.Contains x ∧ c.Contains y ∧ Word.DifferOnlyAt i x y) ↔ d.HasNeighbours i) := by
  cases hd : c.canonical? with
  | none =>
      obtain ⟨x, hx⟩ := hc
      exact absurd hx (canonical?_eq_none_iff.mp hd x)
  | some d =>
      refine ⟨d, rfl, fun i hi hunknown => ?_⟩
      have htightest := isTightest_of_canonical? hd
      have hself := htightest.congr fun x => (contains_of_canonical? (x := x) hd).symm
      rw [KnownBits.known, BitVec.getLsbD_or, Bool.or_eq_false_iff] at hunknown
      refine ⟨htightest.exists_ne hi hunknown.1 hunknown.2, ?_⟩
      simp only [← hself.exists_neighbours_iff hi hunknown.1 hunknown.2,
        contains_of_canonical? hd]

/-! ### Words on both sides of a carry and of the sign boundary -/

namespace Carried

/-- The words from minus three to six. -/
def around : Constraint 8 :=
  { Constraint.full 8 with signed := ⟨-3, 6⟩ }

/-- One and two. -/
def pair : Constraint 8 :=
  { Constraint.full 8 with signed := ⟨1, 2⟩ }

/-- No bit is known of the words around zero.  Neighbours show this for the lowest bit, since zero
and one differ in nothing else, but not for the sign. -/
theorem around_varies : (∃ x, around.Contains x) ∧
    (∃ x y, around.Contains x ∧ around.Contains y ∧ Word.DifferOnlyAt 0 x y) ∧
    (∃ x y, around.Contains x ∧ around.Contains y ∧ x.getLsbD 7 ≠ y.getLsbD 7) ∧
    ¬ ∃ x y, around.Contains x ∧ around.Contains y ∧ Word.DifferOnlyAt 7 x y := by
  have hmember : ∃ x, around.Contains x := ⟨0, by decide⟩
  have hcanonical : around.canonical? = some ⟨⟨-3, 6⟩, ⟨0, -1⟩, ⟨0, 0⟩⟩ := by decide +kernel
  obtain ⟨d, hd, hvary⟩ := unknown_bits_vary hmember
  cases hcanonical.symm.trans hd
  obtain ⟨-, hlowest⟩ := hvary 0 (by decide) (by decide)
  obtain ⟨hsign, hneighbours⟩ := hvary 7 (by decide) (by decide)
  exact ⟨hmember, hlowest.mpr (by decide +kernel), hsign,
    mt hneighbours.mp (by decide +kernel)⟩

/-- One and two differ in both of the bits that are unknown of them, and no constraint with these
two members knows either bit: an unknown bit need not show in two members that differ in it only. -/
theorem pair_without_neighbours : (∃ x, pair.Contains x) ∧
    pair.canonical? = some ⟨⟨1, 2⟩, ⟨1, 2⟩, ⟨0xfc, 0⟩⟩ ∧
    (¬ ∃ x y, pair.Contains x ∧ pair.Contains y ∧ Word.DifferOnlyAt 0 x y) ∧
    ∀ d : Constraint 8, (∀ x, d.Contains x ↔ pair.Contains x) →
      d.bits.known.getLsbD 0 = false := by
  refine ⟨⟨1, by decide⟩, by decide +kernel, ?_, ?_⟩
  · have hmembers : ∀ x, pair.Contains x → x = 1 ∨ x = 2 := by decide +kernel
    rintro ⟨x, y, hx, hy, hdiffer⟩
    rcases hmembers x hx with rfl | rfl <;> rcases hmembers y hy with rfl | rfl <;>
      revert hdiffer <;> decide
  · intro d hd
    have hone := KnownBits.satisfies_iff.mp ((hd 1).mpr (by decide)).2.2 0
    have htwo := KnownBits.satisfies_iff.mp ((hd 2).mpr (by decide)).2.2 0
    rw [KnownBits.known, BitVec.getLsbD_or, Bool.or_eq_false_iff]
    constructor
    · exact Bool.eq_false_of_not_eq_true fun hz => absurd (hone.1 hz) (by decide)
    · exact Bool.eq_false_of_not_eq_true fun ho => absurd (htwo.2 ho) (by decide)

end Carried

end Constraint
end WordRanges
