import WordRanges.Proofs.Domain.Nearest

/-!
# Settled bounds and bits

Tightening bounds and bits against each other changes no member, and it ends in a settled
pair: both bounds are members, and the bits that the bounds share are known.  In a settled
pair nothing can be tightened any more, since every unknown bit takes both values.

Main results:

- Theorem {lit}`settle_spec`: settling keeps the members and ends in a settled pair, or finds
  out that there are no members.
- Theorems {lit}`BoundedBits.Settled.zeros_iff` and {lit}`BoundedBits.Settled.ones_iff`: the
  known bits of a settled pair are exactly those that all of its members share.
-/

namespace WordRanges

variable {w : Nat} {k : KnownBits w} {b : Bounds w} {x : BitVec w}

/-! ## Shared leading bits -/

/-- The shared positions of two words are those from which on both agree. -/
theorem getLsbD_sharedMask {y : BitVec w} {i : Nat} :
    (sharedMask x y).getLsbD i = true ↔
      i < w ∧ ∀ j, i ≤ j → x.getLsbD j = y.getLsbD j := by
  unfold sharedMask
  split
  · rename_i heq
    simp [heq]
  · rename_i hne
    have hxor : x ^^^ y ≠ 0#w := fun hzero => hne (BitVec.xor_eq_zero_iff.mp hzero)
    simp only [Word.getLsbD_maskFrom, Bool.and_eq_true, decide_eq_true_eq]
    refine and_congr_right fun _ => ⟨?_, ?_⟩
    · intro hi j hj
      have hzero : (x ^^^ y).getLsbD j = false := Word.getLsbD_of_topBit_lt (by omega)
      simpa using hzero
    · intro h
      have htop := Word.getLsbD_topBit hxor
      rcases Nat.lt_or_ge (Word.topBit (x ^^^ y)) i with hlt | hge
      · exact hlt
      · simp [h _ hge] at htop

/-- A word between two words shares their shared bits. -/
theorem Bounds.Contains.getLsbD_eq (h : b.Contains x) {i : Nat}
    (hi : (sharedMask b.lo b.hi).getLsbD i = true) : x.getLsbD i = b.lo.getLsbD i := by
  obtain ⟨hlo, hhi⟩ := h
  obtain ⟨-, hshared⟩ := getLsbD_sharedMask.mp hi
  by_cases heq : b.lo = x
  · rw [heq]
  · obtain ⟨d, -, hlod, hxd, habove⟩ :=
      Word.exists_top_difference (BitVec.lt_of_le_ne hlo heq)
    rcases Nat.lt_or_ge d i with hlt | hge
    · exact (habove i hlt).symm
    · -- Leaving the lower bound at a shared position takes the word above the upper bound.
      have hgt : b.hi < x := by
        refine Word.lt_of_getLsbD d ?_ hxd ?_
        · rw [← hshared d hge, hlod]
        · intro j hj
          rw [← hshared j (by omega), habove j hj]
      exact absurd hhi (BitVec.not_le.mpr hgt)

/-! ## Tightening bits -/

/-- The zeros after tightening. -/
theorem getLsbD_zeros_tightenBits {i : Nat} :
    (tightenBits k b).result.zeros.getLsbD i = true ↔
      k.zeros.getLsbD i = true ∨
        ((sharedMask b.lo b.hi).getLsbD i = true ∧ b.lo.getLsbD i = false) := by
  simp only [tightenBits, BitVec.getLsbD_or, BitVec.getLsbD_and, BitVec.getLsbD_not,
    Bool.or_eq_true, Bool.and_eq_true, decide_eq_true_eq, Bool.not_eq_true']
  refine or_congr_right ⟨fun h => ⟨h.1, h.2.2⟩, fun h => ⟨h.1, ?_, h.2⟩⟩
  exact BitVec.lt_of_getLsbD h.1

/-- The ones after tightening. -/
theorem getLsbD_ones_tightenBits {i : Nat} :
    (tightenBits k b).result.ones.getLsbD i = true ↔
      k.ones.getLsbD i = true ∨
        ((sharedMask b.lo b.hi).getLsbD i = true ∧ b.lo.getLsbD i = true) := by
  simp only [tightenBits, BitVec.getLsbD_or, BitVec.getLsbD_and, Bool.or_eq_true,
    Bool.and_eq_true]

/-- Tightening bits is consistent if no bit gets known both ways. -/
theorem consistent_tightenBits : (tightenBits k b).consistent = true ↔
    (tightenBits k b).result.Disjoint := by
  simp only [tightenBits, KnownBits.Disjoint, decide_eq_true_eq]

/-- A word within the bounds agrees with the tightened bits if it agrees with the bits. -/
theorem satisfies_tightenBits (hx : b.Contains x) :
    (tightenBits k b).result.Satisfies x ↔ k.Satisfies x := by
  rw [KnownBits.satisfies_iff, KnownBits.satisfies_iff]
  constructor
  · intro h i
    exact ⟨fun hz => (h i).1 (getLsbD_zeros_tightenBits.mpr (Or.inl hz)),
      fun ho => (h i).2 (getLsbD_ones_tightenBits.mpr (Or.inl ho))⟩
  · intro h i
    constructor
    · intro hz
      rcases getLsbD_zeros_tightenBits.mp hz with hk | ⟨hshared, hlo⟩
      · exact (h i).1 hk
      · rw [hx.getLsbD_eq hshared, hlo]
    · intro ho
      rcases getLsbD_ones_tightenBits.mp ho with hk | ⟨hshared, hlo⟩
      · exact (h i).2 hk
      · rw [hx.getLsbD_eq hshared, hlo]

/-- The bits that the bounds share are known. -/
def BoundedBits.SharedKnown (s : BoundedBits w) : Prop :=
  ∀ i, (sharedMask s.bounds.lo s.bounds.hi).getLsbD i = true →
    (s.bounds.lo.getLsbD i = false → s.bits.zeros.getLsbD i = true) ∧
      (s.bounds.lo.getLsbD i = true → s.bits.ones.getLsbD i = true)

/-- After tightening the bits, the shared bits are known. -/
theorem sharedKnown_tightenBits (k : KnownBits w) (b : Bounds w) :
    (BoundedBits.mk b (tightenBits k b).result).SharedKnown := by
  intro i hi
  exact ⟨fun hlo => getLsbD_zeros_tightenBits.mpr (Or.inr ⟨hi, hlo⟩),
    fun hlo => getLsbD_ones_tightenBits.mpr (Or.inr ⟨hi, hlo⟩)⟩

/-! ## Tightening bounds -/

/-- Tightening bounds is inconsistent only if no word within them agrees with the bits. -/
theorem not_contains_of_tightenBounds (hk : k.Disjoint)
    (h : (tightenBounds b k).consistent = false) : ¬ (BoundedBits.mk b k).Contains x := by
  rintro ⟨⟨hlo, hhi⟩, hx⟩
  simp only at hlo hhi hx
  unfold tightenBounds at h
  simp only at h
  split at h
  · rename_i hceil
    exact BitVec.not_le.mpr (KnownBits.lt_of_ceil_lt hk hceil hx) hlo
  · rename_i hceil
    split at h
    · rename_i hfloor
      exact BitVec.not_le.mpr (KnownBits.lt_of_lt_floor hk hfloor hx) hhi
    · rename_i hfloor
      have hleast := (KnownBits.isCeil_of_not_lt hk hceil).le_of_satisfies x hx hlo
      have hgreatest := (KnownBits.isFloor_of_not_lt hk hfloor).le_of_satisfies x hx hhi
      simp only [decide_eq_false_iff_not] at h
      exact h (BitVec.le_trans hleast hgreatest)

/-- Consistent tightening rounds both bounds to the bits. -/
theorem isCeil_isFloor_tightenBounds (hk : k.Disjoint)
    (h : (tightenBounds b k).consistent = true) :
    k.IsCeil b.lo (tightenBounds b k).result.lo ∧
      k.IsFloor b.hi (tightenBounds b k).result.hi ∧
      (tightenBounds b k).result.lo ≤ (tightenBounds b k).result.hi := by
  unfold tightenBounds at h ⊢
  simp only at h ⊢
  split at h
  · simp [Tightened.emptyBounds] at h
  · rename_i hceil
    split at h
    · simp [Tightened.emptyBounds] at h
    · rename_i hfloor
      rw [if_neg hceil, if_neg hfloor]
      simp only [decide_eq_true_eq] at h
      exact ⟨KnownBits.isCeil_of_not_lt hk hceil, KnownBits.isFloor_of_not_lt hk hfloor, h⟩

/-- Without progress the bounds stay as they are. -/
theorem tightenBounds_eq_of_not_progress (h : (tightenBounds b k).progress = false) :
    (tightenBounds b k).result = b := by
  unfold tightenBounds at h ⊢
  simp only at h ⊢
  split at h
  · simp [Tightened.emptyBounds] at h
  · rename_i hceil
    split at h
    · simp [Tightened.emptyBounds] at h
    · rename_i hfloor
      rw [if_neg hceil, if_neg hfloor]
      simp only [decide_eq_false_iff_not, not_or, not_not] at h
      simp only [h.1, h.2]

/-- Consistent tightening of bounds keeps the members. -/
theorem contains_tightenBounds (hk : k.Disjoint) (h : (tightenBounds b k).consistent = true) :
    (BoundedBits.mk (tightenBounds b k).result k).Contains x ↔
      (BoundedBits.mk b k).Contains x := by
  obtain ⟨hceil, hfloor, -⟩ := isCeil_isFloor_tightenBounds hk h
  refine and_congr_left fun hx => ⟨?_, ?_⟩
  · rintro ⟨hlo, hhi⟩
    exact ⟨BitVec.le_trans hceil.bound_le hlo, BitVec.le_trans hhi hfloor.le_bound⟩
  · rintro ⟨hlo, hhi⟩
    exact ⟨hceil.le_of_satisfies x hx hlo, hfloor.le_of_satisfies x hx hhi⟩

/-- After consistent tightening both bounds are members. -/
theorem contains_bounds_tightenBounds (hk : k.Disjoint)
    (h : (tightenBounds b k).consistent = true) :
    (BoundedBits.mk (tightenBounds b k).result k).Contains (tightenBounds b k).result.lo ∧
      (BoundedBits.mk (tightenBounds b k).result k).Contains (tightenBounds b k).result.hi := by
  obtain ⟨hceil, hfloor, hle⟩ := isCeil_isFloor_tightenBounds hk h
  exact ⟨⟨⟨BitVec.le_refl _, hle⟩, hceil.satisfies⟩, ⟨⟨hle, BitVec.le_refl _⟩, hfloor.satisfies⟩⟩

/-! ## Settled pairs -/

namespace BoundedBits

variable {s t : BoundedBits w}

/-- A pair that cannot be tightened: both bounds are members and the bits that they share
are known. -/
structure Settled (s : BoundedBits w) : Prop where
  contains_lo : s.Contains s.bounds.lo
  contains_hi : s.Contains s.bounds.hi
  sharedKnown : s.SharedKnown

/-- A pair whose bits were tightened last. -/
structure Ready (s : BoundedBits w) : Prop where
  disjoint : s.bits.Disjoint
  sharedKnown : s.SharedKnown

/-- Setting a bit that is unknown keeps a word in agreement. -/
theorem satisfies_or_twoPow {i : Nat} (hx : k.Satisfies x) (hz : k.zeros.getLsbD i = false) :
    k.Satisfies (x ||| BitVec.twoPow w i) := by
  rw [KnownBits.satisfies_iff] at hx ⊢
  intro j
  rw [BitVec.getLsbD_or, BitVec.getLsbD_twoPow]
  by_cases hij : i = j
  · subst hij
    simp [hz]
    intro ho
    simp [(hx i).2 ho]
  · simpa [hij] using hx j

/-- Clearing a bit that is unknown keeps a word in agreement. -/
theorem satisfies_and_not_twoPow {i : Nat} (hx : k.Satisfies x)
    (ho : k.ones.getLsbD i = false) : k.Satisfies (x &&& ~~~BitVec.twoPow w i) := by
  have hx' : k.swap.Satisfies (~~~x) := by
    rw [KnownBits.satisfies_swap, BitVec.not_not]
    exact hx
  have hset := satisfies_or_twoPow hx' (i := i) ho
  rw [KnownBits.satisfies_swap, BitVec.not_or, BitVec.not_not] at hset
  exact hset

/-- The bounds of a settled pair differ at or above every unknown bit. -/
theorem Settled.exists_difference (h : s.Settled) {i : Nat} (hi : i < w)
    (hz : s.bits.zeros.getLsbD i = false) (ho : s.bits.ones.getLsbD i = false) :
    ∃ d, i ≤ d ∧ s.bounds.lo.getLsbD d = false ∧ s.bounds.hi.getLsbD d = true ∧
      ∀ n, d < n → s.bounds.lo.getLsbD n = s.bounds.hi.getLsbD n := by
  have hnot : ¬ (sharedMask s.bounds.lo s.bounds.hi).getLsbD i = true := by
    intro hshared
    have hknown := h.sharedKnown i hshared
    cases hlo : s.bounds.lo.getLsbD i with
    | false => simp [hknown.1 hlo] at hz
    | true => simp [hknown.2 hlo] at ho
  obtain ⟨j, hij, hj⟩ : ∃ j, i ≤ j ∧ s.bounds.lo.getLsbD j ≠ s.bounds.hi.getLsbD j := by
    rw [getLsbD_sharedMask] at hnot
    simpa [hi] using hnot
  have hne : s.bounds.lo ≠ s.bounds.hi := by
    intro heq
    rw [heq] at hj
    exact hj rfl
  obtain ⟨d, -, hlod, hhid, habove⟩ :=
    Word.exists_top_difference (BitVec.lt_of_le_ne h.contains_lo.1.2 hne)
  have hid : i ≤ d := by
    rcases Nat.lt_or_ge d j with hlt | hge
    · exact absurd (habove j hlt) hj
    · omega
  exact ⟨d, hid, hlod, hhid, habove⟩

/-- Between the bounds of a settled pair every unknown bit takes both values.

The bounds differ at or above such a bit.  Strictly below their topmost difference, the
lower bound may get a one and the upper bound a zero without leaving the interval. -/
theorem Settled.exists_both (h : s.Settled) {i : Nat} (hi : i < w)
    (hz : s.bits.zeros.getLsbD i = false) (ho : s.bits.ones.getLsbD i = false) :
    (∃ x, s.Contains x ∧ x.getLsbD i = false) ∧ (∃ y, s.Contains y ∧ y.getLsbD i = true) := by
  obtain ⟨d, hid, hlod, hhid, habove⟩ := h.exists_difference hi hz ho
  rcases Nat.lt_or_eq_of_le hid with hlt | heq
  · have hset := Word.or_twoPow_mem hlod hhid habove hlt
    have hclear := Word.and_not_twoPow_mem hlod hhid habove hlt
    refine ⟨⟨_, ⟨hclear, satisfies_and_not_twoPow h.contains_hi.2 ho⟩, ?_⟩,
      ⟨_, ⟨hset, satisfies_or_twoPow h.contains_lo.2 hz⟩, ?_⟩⟩
    · simp
    · simp [hi]
  · subst heq
    exact ⟨⟨_, h.contains_lo, hlod⟩, ⟨_, h.contains_hi, hhid⟩⟩

/-- The known zeros of a settled pair are the bits that are zero in all of its members. -/
theorem Settled.zeros_iff (h : s.Settled) {i : Nat} (hi : i < w) :
    s.bits.zeros.getLsbD i = true ↔ ∀ x, s.Contains x → x.getLsbD i = false := by
  constructor
  · intro hz x hx
    exact (KnownBits.satisfies_iff.mp hx.2 i).1 hz
  · intro hall
    cases hz : s.bits.zeros.getLsbD i with
    | true => rfl
    | false =>
        cases ho : s.bits.ones.getLsbD i with
        | true =>
            have hone := (KnownBits.satisfies_iff.mp h.contains_lo.2 i).2 ho
            simp [hall _ h.contains_lo] at hone
        | false =>
            obtain ⟨-, y, hy, hone⟩ := h.exists_both hi hz ho
            simp [hall y hy] at hone

/-- The known ones of a settled pair are the bits that are one in all of its members. -/
theorem Settled.ones_iff (h : s.Settled) {i : Nat} (hi : i < w) :
    s.bits.ones.getLsbD i = true ↔ ∀ x, s.Contains x → x.getLsbD i = true := by
  constructor
  · intro ho x hx
    exact (KnownBits.satisfies_iff.mp hx.2 i).2 ho
  · intro hall
    cases ho : s.bits.ones.getLsbD i with
    | true => rfl
    | false =>
        cases hz : s.bits.zeros.getLsbD i with
        | true =>
            have hzero := (KnownBits.satisfies_iff.mp h.contains_lo.2 i).1 hz
            simp [hall _ h.contains_lo] at hzero
        | false =>
            obtain ⟨⟨x, hx, hzero⟩, -⟩ := h.exists_both hi hz ho
            simp [hall x hx] at hzero

end BoundedBits

/-! ## Settling -/

open BoundedBits

variable {s t : BoundedBits w}

/-- Tightening the bits keeps the members. -/
theorem contains_tightenBits (b : Bounds w) (k : KnownBits w) (x : BitVec w) :
    (BoundedBits.mk b (tightenBits k b).result).Contains x ↔ (BoundedBits.mk b k).Contains x :=
  and_congr_right satisfies_tightenBits

/-- Bounds in order that agree with the bits settle once the bits are tightened. -/
theorem settled_tightenBits (hle : b.lo ≤ b.hi) (hlo : k.Satisfies b.lo)
    (hhi : k.Satisfies b.hi) : (BoundedBits.mk b (tightenBits k b).result).Settled := by
  refine ⟨?_, ?_, sharedKnown_tightenBits k b⟩
  · rw [contains_tightenBits]
    exact ⟨⟨BitVec.le_refl _, hle⟩, hlo⟩
  · rw [contains_tightenBits]
    exact ⟨⟨hle, BitVec.le_refl _⟩, hhi⟩

/-- Tightening the bits is inconsistent only if there are no members. -/
theorem not_contains_of_tightenBits (h : (tightenBits k b).consistent = false) :
    ¬ (BoundedBits.mk b k).Contains x := by
  intro hx
  have hsat := ((contains_tightenBits b k x).mpr hx).2
  rw [consistent_tightenBits.mpr hsat.disjoint] at h
  cases h

/-- What settling has to find for a set of words: nothing if the set is empty, and otherwise
a settled pair with these members. -/
def Settles (M : BitVec w → Prop) : Option (BoundedBits w) → Prop
  | none => ∀ x, ¬ M x
  | some t => t.Settled ∧ ∀ x, t.Contains x ↔ M x

/-- What settles one set settles an equal set. -/
theorem Settles.congr {M N : BitVec w → Prop} {r : Option (BoundedBits w)} (h : Settles M r)
    (hMN : ∀ x, M x ↔ N x) : Settles N r := by
  have heq : M = N := funext fun x => propext (hMN x)
  rw [← heq]
  exact h

/-- What one round of settling has to achieve for a pair. -/
def Round.Correct (s : BoundedBits w) : Round w → Prop
  | .done r => Settles s.Contains r
  | .again t => t.Ready ∧ ∀ x, t.Contains x ↔ s.Contains x

/-- A round keeps the members, and it ends in a settled pair or goes on with a pair that is
ready again. -/
theorem correct_settleRound (h : s.Ready) : (settleRound s).Correct s := by
  obtain ⟨b, k⟩ := s
  have hk : k.Disjoint := h.disjoint
  unfold settleRound
  simp only
  cases hcons : (tightenBounds b k).consistent with
  | false =>
      simp only [Bool.not_false, Bool.or_true, if_true, Bool.false_eq_true, if_false]
      exact fun x => not_contains_of_tightenBounds hk hcons
  | true =>
      have hsame := fun x => contains_tightenBounds (x := x) hk hcons
      obtain ⟨hlo, hhi⟩ := contains_bounds_tightenBounds hk hcons
      cases hprog : (tightenBounds b k).progress with
      | false =>
          simp only [Bool.not_false, Bool.true_or, if_true]
          refine ⟨⟨hlo, hhi, ?_⟩, hsame⟩
          rw [tightenBounds_eq_of_not_progress hprog]
          exact h.sharedKnown
      | true =>
          simp only [Bool.not_true, Bool.or_self, Bool.false_eq_true, if_false]
          have hbits := contains_tightenBits (tightenBounds b k).result k
          have hall := fun x => (hbits x).trans (hsame x)
          have hshared := sharedKnown_tightenBits k (tightenBounds b k).result
          cases hcons' : (tightenBits k (tightenBounds b k).result).consistent with
          | false =>
              simp only [Bool.not_false, Bool.or_true, if_true, Bool.false_eq_true, if_false]
              intro x hx
              exact not_contains_of_tightenBits hcons' ((hsame x).mpr hx)
          | true =>
              cases hprog' : (tightenBits k (tightenBounds b k).result).progress with
              | false =>
                  simp only [Bool.not_false, Bool.true_or, if_true]
                  exact ⟨⟨(hbits _).mpr hlo, (hbits _).mpr hhi, hshared⟩, hall⟩
              | true =>
                  simp only [Bool.not_true, Bool.or_self, Bool.false_eq_true, if_false]
                  exact ⟨⟨consistent_tightenBits.mp hcons', hshared⟩, hall⟩

/-- A round that ends gives the result. -/
theorem settleRounds_of_done {result : Option (BoundedBits w)}
    (h : settleRound s = .done result) : settleRounds s = result := by
  rw [settleRounds]
  split
  · rename_i result' h'
    rw [h] at h'
    cases h'
    rfl
  · rename_i t h'
    rw [h] at h'
    cases h'

/-- A round that goes on passes the next pair on. -/
theorem settleRounds_of_again (h : settleRound s = .again t) :
    settleRounds s = settleRounds t := by
  rw [settleRounds]
  split
  · rename_i result h'
    rw [h] at h'
    cases h'
  · rename_i t' h'
    rw [h] at h'
    cases h'
    rfl

/-- Rounds settle a pair that is ready. -/
theorem settleRounds_spec (h : s.Ready) : Settles s.Contains (settleRounds s) := by
  induction s using settleRounds.induct with
  | case1 s result hround =>
      have hcorrect := correct_settleRound h
      rw [hround] at hcorrect
      rw [settleRounds_of_done hround]
      exact hcorrect
  | case2 s t hround _ ih =>
      have hcorrect := correct_settleRound h
      rw [hround] at hcorrect
      rw [settleRounds_of_again hround]
      exact (ih hcorrect.1).congr hcorrect.2

/-- Settling finds a settled pair with the same members, or nothing if there are no
members. -/
theorem settle_spec (s : BoundedBits w) : Settles s.Contains (settle s) := by
  unfold settle
  simp only
  cases hcons : (tightenBits s.bits s.bounds).consistent with
  | false =>
      rw [if_neg Bool.false_ne_true]
      exact fun x => not_contains_of_tightenBits hcons
  | true =>
      have hready : (BoundedBits.mk s.bounds (tightenBits s.bits s.bounds).result).Ready :=
        ⟨consistent_tightenBits.mp hcons, sharedKnown_tightenBits _ _⟩
      rw [if_pos rfl]
      exact (settleRounds_spec hready).congr (contains_tightenBits s.bounds s.bits)

end WordRanges
