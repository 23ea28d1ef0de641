import Mathlib.Order.Interval.Finset.Nat
import WordRanges.Proofs.Domain.Spans

/-!
# Counting words

The span of a value counts the words that lie within its bounds in both orders, less one.  The
members are those among these words that agree with the known bits.  All of them do exactly if
the value knows no other bits than those that its bounds imply: the implied bits are what all
words within the bounds share.

Main results:

- Theorem {lit}`Constraint.IsTightest.isTightest_impliedBits`: the implied bits are exactly what
  all words within the bounds share.
- Theorem {lit}`Constraint.IsTightest.span_add_one`: spans count the words within the bounds.
- Theorem {lit}`Policy.spans_count_words`: spans, cardinalities and numbers of members.
-/

namespace WordRanges

variable {w : Nat}

/-! ## Numbers of words -/

namespace Word

/-- How many words have a property. -/
def count (M : BitVec w → Prop) [DecidablePred M] : Nat :=
  ((Finset.range (2 ^ w)).filter fun n => M (BitVec.ofNat w n)).card

variable {M N : BitVec w → Prop} [DecidablePred M] [DecidablePred N]

/-- Properties of the same words have the same count. -/
theorem count_congr (h : ∀ x, M x ↔ N x) : count M = count N :=
  congrArg Finset.card (Finset.filter_congr fun _ _ => h _)

/-- The words of a stronger property are among those of the other. -/
theorem filter_subset_filter (h : ∀ x, M x → N x) :
    (Finset.range (2 ^ w)).filter (fun n => M (BitVec.ofNat w n)) ⊆
      (Finset.range (2 ^ w)).filter fun n => N (BitVec.ofNat w n) :=
  Finset.monotone_filter_right _ fun _ _ => h _

/-- A stronger property has no larger count. -/
theorem count_le (h : ∀ x, M x → N x) : count M ≤ count N :=
  Finset.card_le_card (filter_subset_filter h)

/-- A stronger property has the same count only if it holds of the same words. -/
theorem count_eq_iff (h : ∀ x, M x → N x) : count M = count N ↔ ∀ x, N x → M x := by
  constructor
  · intro heq x hx
    have hsame := Finset.eq_of_subset_of_card_le (filter_subset_filter h) heq.ge
    have hmem : x.toNat ∈ (Finset.range (2 ^ w)).filter fun n => N (BitVec.ofNat w n) := by
      simp [x.isLt, hx]
    rw [← hsame] at hmem
    simpa using (Finset.mem_filter.mp hmem).2
  · intro hback
    exact count_congr fun x => ⟨h x, hback x⟩

/-- Properties that exclude each other add up. -/
theorem count_or (h : ∀ x, M x → ¬ N x) : count (fun x => M x ∨ N x) = count M + count N := by
  unfold count
  rw [Finset.filter_or, Finset.card_union_of_disjoint]
  exact Finset.disjoint_filter.mpr fun _ _ => h _

end Word

namespace Bounds

variable {b : Bounds w} {x : BitVec w}

/-- Bounds in order contain the words from one to the other. -/
theorem count_contains (h : b.lo ≤ b.hi) :
    Word.count b.Contains = b.hi.toNat - b.lo.toNat + 1 := by
  have hinterval : (Finset.range (2 ^ w)).filter (fun n => b.Contains (BitVec.ofNat w n)) =
      Finset.Icc b.lo.toNat b.hi.toNat := by
    ext n
    rw [Finset.mem_filter, Finset.mem_range, Finset.mem_Icc, contains_iff]
    constructor
    · rintro ⟨hn, hbounds⟩
      rwa [BitVec.toNat_ofNat, Nat.mod_eq_of_lt hn] at hbounds
    · intro hbounds
      have hn : n < 2 ^ w := Nat.lt_of_le_of_lt hbounds.2 b.hi.isLt
      rw [BitVec.toNat_ofNat, Nat.mod_eq_of_lt hn]
      exact ⟨hn, hbounds⟩
  rw [BitVec.le_def] at h
  rw [Word.count, hinterval, Nat.card_Icc]
  omega

/-- Bounds in order are settled together with the bits that they share. -/
theorem settled_sharedBits (hle : b.lo ≤ b.hi) : (BoundedBits.mk b b.sharedBits).Settled :=
  settled_tightenBits hle (KnownBits.satisfies_unknown _) (KnownBits.satisfies_unknown _)

/-- All words within bounds agree with the bits that the bounds share. -/
theorem contains_sharedBits : (BoundedBits.mk b b.sharedBits).Contains x ↔ b.Contains x := by
  rw [sharedBits, contains_tightenBits]
  exact and_iff_left (KnownBits.satisfies_unknown x)

end Bounds

namespace Constraint

variable {c : Constraint w} {x : BitVec w}

/-! ## Words within the bounds -/

/-- A word lies within the bounds of a constraint in both orders, whatever its bits. -/
def Encloses (c : Constraint w) (x : BitVec w) : Prop :=
  c.signed.SContains x ∧ c.unsigned.Contains x

instance (c : Constraint w) (x : BitVec w) : Decidable (c.Encloses x) :=
  inferInstanceAs (Decidable (_ ∧ _))

/-- Members lie within the bounds. -/
theorem Contains.encloses (h : c.Contains x) : c.Encloses x :=
  ⟨h.1, h.2.1⟩

/-- The bounds of an unsplit constraint in tightest form lie on one side of the sign boundary. -/
theorem IsTightest.unsigned_sle (h : c.IsTightest c.Contains)
    (hsplit : c.signed.lo = c.unsigned.lo) : c.unsigned.lo.sle c.unsigned.hi = true :=
  hsplit ▸ h.signed_lo.2 _ h.unsigned_hi.1

/-- The bounds of an unsplit constraint in tightest form are one interval. -/
theorem IsTightest.encloses_iff (h : c.IsTightest c.Contains)
    (hsplit : c.signed.lo = c.unsigned.lo) : c.Encloses x ↔ c.unsigned.Contains x := by
  refine ⟨fun hx => hx.2, fun hx => ⟨⟨?_, ?_⟩, hx⟩⟩
  · have hlo : c.unsigned.Contains c.unsigned.lo := h.unsigned_lo.1.2.1
    rw [hsplit]
    exact Word.sle_of_le_of_msb_eq (msb_eq_of_contains (h.unsigned_sle hsplit) hlo hx) hx.1
  · have hhi : c.unsigned.Contains c.unsigned.hi := h.unsigned_hi.1.2.1
    rw [h.signed_hi_eq hsplit]
    exact Word.sle_of_le_of_msb_eq (msb_eq_of_contains (h.unsigned_sle hsplit) hx hhi) hx.2

/-- The bounds of a split constraint in tightest form are two intervals. -/
theorem IsTightest.encloses_iff_halves (h : c.IsTightest c.Contains)
    (hsplit : c.signed.lo ≠ c.unsigned.lo) :
    c.Encloses x ↔ c.negativeHalf.Contains x ∨ c.positiveHalf.Contains x := by
  obtain ⟨-, huhi, hulo, -⟩ := h.separated hsplit
  exact within_bounds_iff_halves hulo huhi (BitVec.sle_iff_toInt_le.mp h.unsigned_hi.1.1.1)
    (BitVec.sle_iff_toInt_le.mp h.unsigned_lo.1.1.2)

/-- The words of the negative half of a split constraint in tightest form are negative. -/
theorem IsTightest.msb_negativeHalf (h : c.IsTightest c.Contains)
    (hsplit : c.signed.lo ≠ c.unsigned.lo) (hx : c.negativeHalf.Contains x) : x.msb = true := by
  obtain ⟨-, huhi, -, -⟩ := h.separated hsplit
  exact msb_of_negativeHalf (BitVec.sle_iff_toInt_le.mp h.unsigned_hi.1.1.1) huhi hx

/-- The words of the positive half of a split constraint in tightest form are not negative. -/
theorem IsTightest.msb_positiveHalf (h : c.IsTightest c.Contains)
    (hsplit : c.signed.lo ≠ c.unsigned.lo) (hx : c.positiveHalf.Contains x) : x.msb = false := by
  obtain ⟨-, -, hulo, -⟩ := h.separated hsplit
  exact msb_of_positiveHalf (BitVec.sle_iff_toInt_le.mp h.unsigned_lo.1.1.2) hulo hx

/-! ## Implied bits -/

/-- The implied bits of an unsplit constraint are those that its one interval shares. -/
theorem IsTightest.withImpliedBits_eq (h : c.IsTightest c.Contains)
    (hsplit : c.signed.lo = c.unsigned.lo) :
    { c with bits := c.impliedBits } = ofInterval ⟨c.unsigned, c.unsigned.sharedBits⟩ := by
  simp [impliedBits, isSplit, ofInterval, h.signed_eq_unsigned hsplit]

/-- The implied bits of a split constraint are those that both halves share. -/
theorem withImpliedBits_eq_ofHalves (hsplit : c.signed.lo ≠ c.unsigned.lo) :
    { c with bits := c.impliedBits } = ofHalves ⟨c.negativeHalf, c.negativeHalf.sharedBits⟩
      ⟨c.positiveHalf, c.positiveHalf.sharedBits⟩ := by
  simp [impliedBits, isSplit, hsplit, ofHalves, negativeHalf, positiveHalf]

/-- The bounds of a constraint in tightest form together with the bits that they imply describe
the words within the bounds as tightly as possible. -/
theorem IsTightest.isTightest_impliedBits (h : c.IsTightest c.Contains) :
    IsTightest c.Encloses { c with bits := c.impliedBits } := by
  by_cases hsplit : c.signed.lo = c.unsigned.lo
  · rw [h.withImpliedBits_eq hsplit]
    have hsettled := Bounds.settled_sharedBits (h.unsigned_hi.2 _ h.unsigned_lo.1)
    refine (isTightest_ofInterval hsettled fun x y hx hy => ?_).congr fun x => ?_
    · exact msb_eq_of_contains (h.unsigned_sle hsplit) hx.1 hy.1
    · rw [Bounds.contains_sharedBits, h.encloses_iff hsplit]
  · rw [withImpliedBits_eq_ofHalves hsplit]
    have hneg := Bounds.settled_sharedBits h.attainsBounds.negativeHalf_le
    have hpos := Bounds.settled_sharedBits h.attainsBounds.positiveHalf_le
    refine (isTightest_ofHalves hneg hpos (fun x hx => h.msb_negativeHalf hsplit hx.1)
      fun x hx => h.msb_positiveHalf hsplit hx.1).congr fun x => ?_
    rw [Bounds.contains_sharedBits, Bounds.contains_sharedBits, h.encloses_iff_halves hsplit]

/-- All words within the bounds are members exactly if only the implied bits are known. -/
theorem IsTightest.forall_encloses_iff (h : c.IsTightest c.Contains) :
    (∀ x, c.Encloses x → c.Contains x) ↔ c.bits = c.impliedBits := by
  have himplied := h.isTightest_impliedBits
  constructor
  · intro hall
    -- Now both constraints describe the same words as tightly as possible.
    have hsame : c = { c with bits := c.impliedBits } :=
      h.unique (himplied.congr fun x => ⟨hall x, Contains.encloses⟩)
    exact congrArg Constraint.bits hsame
  · intro hbits x hx
    rw [← hbits] at himplied
    exact himplied.contains hx

/-! ## Spans -/

/-- The span of a constraint in tightest form is the number of words within its bounds, less
one. -/
theorem IsTightest.span_add_one (h : c.IsTightest c.Contains) :
    c.span.toNat + 1 = Word.count c.Encloses := by
  by_cases hsplit : c.signed.lo = c.unsigned.lo
  · rw [h.toNat_span hsplit, Word.count_congr fun x => h.encloses_iff hsplit,
      Bounds.count_contains (h.unsigned_hi.2 _ h.unsigned_lo.1)]
  · have hdisjoint : ∀ x, c.negativeHalf.Contains x → ¬ c.positiveHalf.Contains x := by
      intro x hneg hpos
      have hsign := (h.msb_negativeHalf hsplit hneg).symm.trans (h.msb_positiveHalf hsplit hpos)
      cases hsign
    rw [h.toNat_span_of_split hsplit, Word.count_congr fun x => h.encloses_iff_halves hsplit,
      Word.count_or hdisjoint, Bounds.count_contains h.attainsBounds.negativeHalf_le,
      Bounds.count_contains h.attainsBounds.positiveHalf_le]
    -- Each half counts one more than its bounds differ by; the span has the one in between.
    simp only [negativeHalf, positiveHalf]
    omega

end Constraint

/-- The cardinality is one more than the span, except that it stays at the greatest word. -/
theorem Value.toNat_cardinality (v : Value w) :
    v.cardinality.toNat = min (v.constraint.span.toNat + 1) (2 ^ w - 1) := by
  have hlt := v.constraint.span.isLt
  unfold cardinality
  split
  · rename_i hall
    have hspan : v.constraint.span.toNat = 2 ^ w - 1 := by
      rw [hall, BitVec.toNat_allOnes]
    omega
  · rename_i hall
    have hspan : v.constraint.span.toNat ≠ 2 ^ w - 1 := by
      intro heq
      apply hall
      apply BitVec.eq_of_toNat_eq
      rw [heq, BitVec.toNat_allOnes]
    have hw : 1 < 2 ^ w := by omega
    have hone : (1 : BitVec w).toNat = 1 := by
      rw [BitVec.ofNat_eq_ofNat, BitVec.toNat_ofNat, Nat.mod_eq_of_lt hw]
    rw [BitVec.toNat_add, hone, Nat.mod_eq_of_lt (by omega)]
    omega

namespace Policy

variable {p : Policy} {v : Value w}

/-- Spans and cardinalities of values count the words within their bounds.  The span is their
number less one, and the cardinality is their number unless that is the number of all words.
A value has at most that many members, and exactly so many if its bits are those that its bounds
imply.  A value that is included in another one has no larger span. -/
theorem spans_count_words (hv : p.Makes v) :
    v.constraint.span.toNat + 1 = Word.count v.constraint.Encloses ∧
    v.cardinality.toNat = min (Word.count v.constraint.Encloses) (2 ^ w - 1) ∧
    Word.count v.Contains ≤ Word.count v.constraint.Encloses ∧
    (Word.count v.Contains = Word.count v.constraint.Encloses ↔
      v.bits = v.constraint.impliedBits) ∧
    ∀ (q : Policy) (o : Value w), q.Makes o → v.IsSubset o →
      v.constraint.span.toNat ≤ o.constraint.span.toNat := by
  have htightest := hv.valid.isTightest
  have hmembers (x : BitVec w) (hx : v.Contains x) : v.constraint.Encloses x :=
    Constraint.Contains.encloses hx
  refine ⟨htightest.span_add_one, ?_, Word.count_le hmembers, ?_, ?_⟩
  · rw [v.toNat_cardinality, htightest.span_add_one]
  · rw [Word.count_eq_iff hmembers]
    exact htightest.forall_encloses_iff
  · intro q o ho hsubset
    exact htightest.span_le ho.valid.isTightest fun x => hsubset.contains

/-! ### Some words and all words -/

namespace Sparse

/-- The multiples of four from minus four to four. -/
def fours : Value 8 :=
  ⟨⟨⟨-4, 4⟩, ⟨0, -4⟩, ⟨0x03, 0x00⟩⟩, 0⟩

/-- All words of eight bits. -/
def all : Value 8 :=
  ⟨⟨⟨-128, 127⟩, ⟨0, -1⟩, ⟨0x00, 0x00⟩⟩, 3⟩

theorem makes_fours : Policy.default.Makes fours :=
  ⟨[.make ⟨⟨-4, 4⟩, ⟨0, -1⟩, ⟨0x03, 0x00⟩⟩ 0], [fours], by decide +kernel, by simp⟩

theorem makes_all : Policy.default.Makes all :=
  ⟨[.domain], [all], by decide +kernel, by simp⟩

/-- Six words lie within the bounds of the multiples of four, one of them on the negative side,
but not all of them are members.  All words are counted in full by their span, whereas their
cardinality stays one below. -/
theorem fours_among_six : Policy.default.Makes fours ∧ Policy.default.Makes all ∧
    (Word.count fours.constraint.Encloses = 6 ∧ fours.cardinality.toNat = 6 ∧
      Word.count fours.Contains < 6) ∧
    (Word.count all.constraint.Encloses = 256 ∧ all.cardinality.toNat = 255 ∧
      Word.count all.Contains = 256) ∧
    fours.constraint.span.toNat ≤ all.constraint.span.toNat := by
  obtain ⟨hspan, hcard, hle, hmembers, hsubset⟩ := spans_count_words makes_fours
  obtain ⟨hspan', hcard', -, hmembers', -⟩ := spans_count_words makes_all
  have hcount : Word.count fours.constraint.Encloses = 6 := hspan.symm
  have hcount' : Word.count all.constraint.Encloses = 256 := hspan'.symm
  rw [hcount] at hcard hle hmembers
  rw [hcount'] at hcard' hmembers'
  refine ⟨makes_fours, makes_all, ⟨hcount, hcard, ?_⟩, ⟨hcount', hcard', hmembers'.mpr (by decide)⟩,
    hsubset _ _ makes_all (by decide)⟩
  exact lt_of_le_of_ne hle (mt hmembers.mp (by decide))

end Sparse

end Policy
end WordRanges
