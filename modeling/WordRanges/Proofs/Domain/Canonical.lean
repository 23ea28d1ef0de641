import WordRanges.Domain.Constraint
import WordRanges.Proofs.Domain.Settling
import WordRanges.Proofs.Domain.WordOrder

/-!
# Canonical constraints

The canonical form of a constraint is the tightest constraint with its members: its bounds
are the extreme members in both orders, and its known bits are those that all members
share.  The members on each side of the sign boundary form one interval with known bits;
they are settled on their own and then put together.

Main results:

- Theorem {lit}`Constraint.canonical?_spec`: the canonical form is the tightest constraint, and
  it is missing only if there are no members.
- Theorem {lit}`Constraint.canonical?_bestAbstraction`: the canonical form depends on the members
  only and is a fixed point.
-/

namespace WordRanges

attribute [ext] Constraint

namespace Constraint

variable {w : Nat} {c d e : Constraint w} {M : BitVec w → Prop} {x : BitVec w}

/-! ## The tightest constraint of a set -/

/-- A constraint that describes a set of words as tightly as possible: its bounds are the
extreme elements in both orders, and a bit is known if all elements share it. -/
structure IsTightest (M : BitVec w → Prop) (c : Constraint w) : Prop where
  signed_lo : M c.signed.lo ∧ ∀ x, M x → c.signed.lo.sle x = true
  signed_hi : M c.signed.hi ∧ ∀ x, M x → x.sle c.signed.hi = true
  unsigned_lo : M c.unsigned.lo ∧ ∀ x, M x → c.unsigned.lo ≤ x
  unsigned_hi : M c.unsigned.hi ∧ ∀ x, M x → x ≤ c.unsigned.hi
  zeros : ∀ i, i < w → (c.bits.zeros.getLsbD i = true ↔ ∀ x, M x → x.getLsbD i = false)
  ones : ∀ i, i < w → (c.bits.ones.getLsbD i = true ↔ ∀ x, M x → x.getLsbD i = true)

/-- Masks that are described by the same condition are equal. -/
theorem mask_eq_of_iff {a b : BitVec w} {p : Nat → Prop}
    (ha : ∀ i, i < w → (a.getLsbD i = true ↔ p i))
    (hb : ∀ i, i < w → (b.getLsbD i = true ↔ p i)) : a = b := by
  apply BitVec.eq_of_getLsbD_eq
  intro i hi
  rw [Bool.eq_iff_iff, ha i hi, hb i hi]

/-- A set has at most one tightest constraint. -/
theorem IsTightest.unique (hc : c.IsTightest M) (hd : d.IsTightest M) : c = d := by
  obtain ⟨⟨slo, shi⟩, ⟨ulo, uhi⟩, ⟨zeros, ones⟩⟩ := c
  obtain ⟨⟨slo', shi'⟩, ⟨ulo', uhi'⟩, ⟨zeros', ones'⟩⟩ := d
  have hslo : slo = slo' :=
    Word.sle_antisymm (hc.signed_lo.2 _ hd.signed_lo.1) (hd.signed_lo.2 _ hc.signed_lo.1)
  have hshi : shi = shi' :=
    Word.sle_antisymm (hd.signed_hi.2 _ hc.signed_hi.1) (hc.signed_hi.2 _ hd.signed_hi.1)
  have hulo : ulo = ulo' :=
    BitVec.le_antisymm (hc.unsigned_lo.2 _ hd.unsigned_lo.1) (hd.unsigned_lo.2 _ hc.unsigned_lo.1)
  have huhi : uhi = uhi' :=
    BitVec.le_antisymm (hd.unsigned_hi.2 _ hc.unsigned_hi.1) (hc.unsigned_hi.2 _ hd.unsigned_hi.1)
  have hzeros : zeros = zeros' := mask_eq_of_iff hc.zeros hd.zeros
  have hones : ones = ones' := mask_eq_of_iff hc.ones hd.ones
  rw [hslo, hshi, hulo, huhi, hzeros, hones]

/-- Every element of a set meets the tightest constraint of the set. -/
theorem IsTightest.contains (h : d.IsTightest M) (hx : M x) : d.Contains x := by
  refine ⟨⟨h.signed_lo.2 x hx, h.signed_hi.2 x hx⟩, ⟨h.unsigned_lo.2 x hx, h.unsigned_hi.2 x hx⟩,
    ?_⟩
  rw [KnownBits.satisfies_iff]
  intro i
  constructor
  · intro hz
    exact (h.zeros i (BitVec.lt_of_getLsbD hz)).mp hz x hx
  · intro ho
    exact (h.ones i (BitVec.lt_of_getLsbD ho)).mp ho x hx

/-- The tightest constraint of the members of a constraint has no further members. -/
theorem IsTightest.contains_iff (h : d.IsTightest c.Contains) : d.Contains x ↔ c.Contains x := by
  refine ⟨?_, h.contains⟩
  rintro ⟨⟨hslo, hshi⟩, ⟨hulo, huhi⟩, hbits⟩
  rw [KnownBits.satisfies_iff] at hbits
  refine ⟨⟨?_, ?_⟩, ⟨?_, ?_⟩, ?_⟩
  · exact Word.sle_trans h.signed_lo.1.1.1 hslo
  · exact Word.sle_trans hshi h.signed_hi.1.1.2
  · exact BitVec.le_trans h.unsigned_lo.1.2.1.1 hulo
  · exact BitVec.le_trans huhi h.unsigned_hi.1.2.1.2
  · rw [KnownBits.satisfies_iff]
    intro i
    constructor
    · intro hz
      refine (hbits i).1 ((h.zeros i (BitVec.lt_of_getLsbD hz)).mpr ?_)
      intro y hy
      exact (KnownBits.satisfies_iff.mp hy.2.2 i).1 hz
    · intro ho
      refine (hbits i).2 ((h.ones i (BitVec.lt_of_getLsbD ho)).mpr ?_)
      intro y hy
      exact (KnownBits.satisfies_iff.mp hy.2.2 i).2 ho

/-- The description of a set carries over to an equal set. -/
theorem IsTightest.congr {N : BitVec w → Prop} (h : d.IsTightest M) (hMN : ∀ x, M x ↔ N x) :
    d.IsTightest N := by
  have heq : M = N := funext fun x => propext (hMN x)
  rw [← heq]
  exact h

/-! ## One interval and two halves -/

/-- A settled interval of words of one sign is the tightest constraint of its members. -/
theorem isTightest_ofInterval {t : BoundedBits w} (ht : t.Settled)
    (hsign : ∀ x y, t.Contains x → t.Contains y → x.msb = y.msb) :
    (ofInterval t).IsTightest t.Contains where
  signed_lo := ⟨ht.contains_lo, fun _ hx =>
    Word.sle_of_le_of_msb_eq (hsign _ _ ht.contains_lo hx) hx.1.1⟩
  signed_hi := ⟨ht.contains_hi, fun _ hx =>
    Word.sle_of_le_of_msb_eq (hsign _ _ hx ht.contains_hi) hx.1.2⟩
  unsigned_lo := ⟨ht.contains_lo, fun _ hx => hx.1.1⟩
  unsigned_hi := ⟨ht.contains_hi, fun _ hx => hx.1.2⟩
  zeros _ hi := ht.zeros_iff hi
  ones _ hi := ht.ones_iff hi

/-- A settled interval of negative words and a settled interval of non-negative words make up
the tightest constraint of the members of both. -/
theorem isTightest_ofHalves {n p : BoundedBits w} (hn : n.Settled) (hp : p.Settled)
    (hneg : ∀ x, n.Contains x → x.msb = true) (hpos : ∀ x, p.Contains x → x.msb = false) :
    (ofHalves n p).IsTightest fun x => n.Contains x ∨ p.Contains x where
  signed_lo := by
    refine ⟨Or.inl hn.contains_lo, ?_⟩
    rintro x (hx | hx)
    · exact Word.sle_of_le_of_msb_eq ((hneg _ hn.contains_lo).trans (hneg x hx).symm) hx.1.1
    · exact (Word.sle_and_le_of_msb (hneg _ hn.contains_lo) (hpos x hx)).1
  signed_hi := by
    refine ⟨Or.inr hp.contains_hi, ?_⟩
    rintro x (hx | hx)
    · exact (Word.sle_and_le_of_msb (hneg x hx) (hpos _ hp.contains_hi)).1
    · exact Word.sle_of_le_of_msb_eq ((hpos x hx).trans (hpos _ hp.contains_hi).symm) hx.1.2
  unsigned_lo := by
    refine ⟨Or.inr hp.contains_lo, ?_⟩
    rintro x (hx | hx)
    · exact (Word.sle_and_le_of_msb (hneg x hx) (hpos _ hp.contains_lo)).2
    · exact hx.1.1
  unsigned_hi := by
    refine ⟨Or.inl hn.contains_hi, ?_⟩
    rintro x (hx | hx)
    · exact hx.1.2
    · exact (Word.sle_and_le_of_msb (hneg _ hn.contains_hi) (hpos x hx)).2
  zeros i hi := by
    simp only [ofHalves, KnownBits.common, BitVec.getLsbD_and, Bool.and_eq_true]
    rw [hn.zeros_iff hi, hp.zeros_iff hi]
    exact ⟨fun h x hx => hx.elim (h.1 x) (h.2 x),
      fun h => ⟨fun x hx => h x (Or.inl hx), fun x hx => h x (Or.inr hx)⟩⟩
  ones i hi := by
    simp only [ofHalves, KnownBits.common, BitVec.getLsbD_and, Bool.and_eq_true]
    rw [hn.ones_iff hi, hp.ones_iff hi]
    exact ⟨fun h x hx => hx.elim (h.1 x) (h.2 x),
      fun h => ⟨fun x hx => h x (Or.inl hx), fun x hx => h x (Or.inr hx)⟩⟩

/-! ## Cutting at the sign boundary -/

/-- Cutting unsigned bounds at the sign boundary leaves them in order. -/
theorem cutUnsigned_le (h : c.unsigned.lo ≤ c.unsigned.hi) :
    c.cutUnsigned.lo ≤ c.cutUnsigned.hi := by
  unfold cutUnsigned
  split
  · rename_i hacross
    rw [BitVec.slt_iff_toInt_lt] at hacross
    rw [BitVec.le_def] at h
    have hlo := Word.sign_cases c.unsigned.lo
    have hhi := Word.sign_cases c.unsigned.hi
    have hw : 0 < w := Word.width_pos_of_neg (x := c.unsigned.hi) (by omega)
    have hmin := Word.two_mul_toNat_intMin hw
    have hmax := Word.two_mul_toNat_intMax hw
    split
    · rw [BitVec.le_def]
      simp only
      omega
    · split
      · rw [BitVec.le_def]
        simp only
        omega
      · rw [BitVec.le_def]
        exact h
  · exact h

/-- Cutting unsigned bounds at the sign boundary loses no word of the signed bounds. -/
theorem contains_cutUnsigned (h : c.unsigned.lo ≤ c.unsigned.hi) (hx : c.signed.SContains x) :
    c.cutUnsigned.Contains x ↔ c.unsigned.Contains x := by
  unfold cutUnsigned
  split
  · rename_i hacross
    rw [BitVec.slt_iff_toInt_lt] at hacross
    rw [BitVec.le_def] at h
    rw [Bounds.sContains_iff] at hx
    have hlo := Word.sign_cases c.unsigned.lo
    have hhi := Word.sign_cases c.unsigned.hi
    have hxs := Word.sign_cases x
    have hxlt := x.isLt
    have hw : 0 < w := Word.width_pos_of_neg (x := c.unsigned.hi) (by omega)
    have hmin := Word.two_mul_toNat_intMin hw
    have hmax := Word.two_mul_toNat_intMax hw
    split
    · rename_i hcut
      rw [BitVec.slt_iff_toInt_lt] at hcut
      rw [Bounds.contains_iff, Bounds.contains_iff]
      simp only
      omega
    · split
      · rename_i hcut
        rw [BitVec.slt_iff_toInt_lt] at hcut
        rw [Bounds.contains_iff, Bounds.contains_iff]
        simp only
        omega
      · rfl
  · rfl

/-- Unsigned bounds that still reach across the sign boundary were not cut, and the signed
bounds reach across it too. -/
theorem cutUnsigned_of_across (hle : c.unsigned.lo ≤ c.unsigned.hi)
    (h : ¬ c.cutUnsigned.lo.sle c.cutUnsigned.hi = true) :
    c.cutUnsigned = c.unsigned ∧ c.unsigned.lo.msb = false ∧ c.unsigned.hi.msb = true ∧
      c.signed.lo.toInt ≤ c.unsigned.hi.toInt ∧ c.unsigned.lo.toInt ≤ c.signed.hi.toInt := by
  rw [BitVec.sle_iff_toInt_le] at h
  rw [BitVec.le_def] at hle
  unfold cutUnsigned at h ⊢
  have hlo := Word.sign_cases c.unsigned.lo
  have hhi := Word.sign_cases c.unsigned.hi
  split at h <;> rename_i hacross
  · rw [BitVec.slt_iff_toInt_lt] at hacross
    have hw : 0 < w := Word.width_pos_of_neg (x := c.unsigned.hi) (by omega)
    have hmin := Word.two_mul_toNat_intMin hw
    have hmax := Word.two_mul_toNat_intMax hw
    have hmins := Word.sign_cases (BitVec.intMin w)
    have hmaxs := Word.sign_cases (BitVec.intMax w)
    rw [if_pos (BitVec.slt_iff_toInt_lt.mpr hacross)]
    split at h <;> rename_i hneg
    · simp only at h
      omega
    · rw [if_neg hneg]
      rw [BitVec.slt_iff_toInt_lt] at hneg
      split at h <;> rename_i hpos
      · simp only at h
        omega
      · rw [if_neg hpos]
        rw [BitVec.slt_iff_toInt_lt] at hpos
        refine ⟨rfl, BitVec.msb_eq_false_iff_two_mul_lt.mpr ?_,
          BitVec.msb_eq_true_iff_two_mul_ge.mpr ?_, ?_, ?_⟩ <;> omega
  · rw [BitVec.slt_iff_toInt_lt] at hacross
    omega

/-! ## Parts of a constraint as intervals -/

/-- The overlap of signed bounds with unsigned bounds on one side of the sign boundary. -/
theorem contains_overlap {s u : Bounds w} (hu : u.lo ≤ u.hi) (hside : u.lo.sle u.hi = true)
    (hb : ¬ (overlap s u).hi.slt (overlap s u).lo = true) :
    (overlap s u).Contains x ↔ s.SContains x ∧ u.Contains x := by
  rw [BitVec.le_def] at hu
  rw [BitVec.sle_iff_toInt_le] at hside
  rw [BitVec.slt_iff_toInt_lt] at hb
  rw [Bounds.contains_iff, Bounds.contains_iff, Bounds.sContains_iff]
  have hlo := Word.toInt_smax u.lo s.lo
  have hhi := Word.toInt_smin u.hi s.hi
  change (overlap s u).lo.toInt = _ at hlo
  change (overlap s u).hi.toInt = _ at hhi
  have h1 := Word.sign_cases (overlap s u).lo
  have h2 := Word.sign_cases (overlap s u).hi
  have h3 := Word.sign_cases u.lo
  have h4 := Word.sign_cases u.hi
  have h5 := Word.sign_cases x
  have h6 := x.isLt
  omega

/-- Words between unsigned bounds on one side of the sign boundary have the same sign. -/
theorem msb_eq_of_contains {u : Bounds w} {y : BitVec w} (hside : u.lo.sle u.hi = true)
    (hx : u.Contains x) (hy : u.Contains y) : x.msb = y.msb := by
  rw [BitVec.sle_iff_toInt_le] at hside
  rw [Bounds.contains_iff] at hx hy
  have hlo := Word.sign_cases u.lo
  have hhi := Word.sign_cases u.hi
  have hlt := u.hi.isLt
  rw [BitVec.msb_eq_decide, BitVec.msb_eq_decide, decide_eq_decide]
  have hpow : w = 0 ∨ 2 * 2 ^ (w - 1) = 2 ^ w := by
    rcases Nat.eq_zero_or_pos w with hzero | hpos
    · exact Or.inl hzero
    · right
      rw [← Nat.pow_add_one']
      congr 1
      omega
  rcases hpow with rfl | hpow
  · simp [BitVec.eq_nil x, BitVec.eq_nil y]
  · omega

/-- A constraint meets its parts in order, or it has no members. -/
theorem not_contains_of_disordered
    (h : c.signed.hi.slt c.signed.lo = true ∨ c.unsigned.hi < c.unsigned.lo ∨ ¬ c.bits.Disjoint) :
    ¬ c.Contains x := by
  rintro ⟨hs, hu, hbits⟩
  rw [Bounds.sContains_iff] at hs
  rw [Bounds.contains_iff] at hu
  rcases h with h | h | h
  · rw [BitVec.slt_iff_toInt_lt] at h
    omega
  · rw [BitVec.lt_def] at h
    omega
  · exact h hbits.disjoint

/-- A constraint whose cut unsigned bounds lie on one side of the sign boundary has the
members of one interval. -/
theorem contains_iff_interval (hle : c.unsigned.lo ≤ c.unsigned.hi)
    (hside : c.cutUnsigned.lo.sle c.cutUnsigned.hi = true)
    (hb : ¬ (overlap c.signed c.cutUnsigned).hi.slt (overlap c.signed c.cutUnsigned).lo = true) :
    c.Contains x ↔ (BoundedBits.mk (overlap c.signed c.cutUnsigned) c.bits).Contains x := by
  have hoverlap := contains_overlap (x := x) (cutUnsigned_le hle) hside hb
  unfold Contains BoundedBits.Contains
  rw [hoverlap]
  constructor
  · rintro ⟨hs, hu, hbits⟩
    exact ⟨⟨hs, (contains_cutUnsigned hle hs).mpr hu⟩, hbits⟩
  · rintro ⟨⟨hs, hu⟩, hbits⟩
    exact ⟨hs, (contains_cutUnsigned hle hs).mp hu, hbits⟩

/-- An inverted overlap has no members. -/
theorem not_contains_of_overlap (hle : c.unsigned.lo ≤ c.unsigned.hi)
    (hside : c.cutUnsigned.lo.sle c.cutUnsigned.hi = true)
    (hb : (overlap c.signed c.cutUnsigned).hi.slt (overlap c.signed c.cutUnsigned).lo = true) :
    ¬ c.Contains x := by
  rintro ⟨hs, hu, -⟩
  have hcut := (contains_cutUnsigned hle hs).mpr hu
  rw [BitVec.slt_iff_toInt_lt] at hb
  simp only [overlap, Word.toInt_smin, Word.toInt_smax] at hb
  rw [BitVec.sle_iff_toInt_le] at hside
  rw [Bounds.sContains_iff] at hs
  rw [Bounds.contains_iff] at hcut
  have hlo := Word.sign_cases c.cutUnsigned.lo
  have hhi := Word.sign_cases c.cutUnsigned.hi
  have hxs := Word.sign_cases x
  omega

/-- The words within both bounds of a constraint that reaches across the sign boundary are those
of its two halves. -/
theorem within_bounds_iff_halves (hlo : c.unsigned.lo.msb = false)
    (hhi : c.unsigned.hi.msb = true) (hneg : c.signed.lo.toInt ≤ c.unsigned.hi.toInt)
    (hpos : c.unsigned.lo.toInt ≤ c.signed.hi.toInt) :
    c.signed.SContains x ∧ c.unsigned.Contains x ↔
      c.negativeHalf.Contains x ∨ c.positiveHalf.Contains x := by
  rw [BitVec.msb_eq_false_iff_two_mul_lt] at hlo
  rw [BitVec.msb_eq_true_iff_two_mul_ge] at hhi
  simp only [Bounds.contains_iff, Bounds.sContains_iff, negativeHalf, positiveHalf]
  have h1 := Word.sign_cases c.unsigned.lo
  have h2 := Word.sign_cases c.unsigned.hi
  have h3 := Word.sign_cases c.signed.lo
  have h4 := Word.sign_cases c.signed.hi
  have h5 := Word.sign_cases x
  have h6 := c.unsigned.hi.isLt
  have h7 := x.isLt
  omega

/-- A constraint that reaches across the sign boundary has the members of its two halves. -/
theorem contains_iff_halves (hlo : c.unsigned.lo.msb = false) (hhi : c.unsigned.hi.msb = true)
    (hneg : c.signed.lo.toInt ≤ c.unsigned.hi.toInt)
    (hpos : c.unsigned.lo.toInt ≤ c.signed.hi.toInt) :
    c.Contains x ↔ (BoundedBits.mk c.negativeHalf c.bits).Contains x ∨
      (BoundedBits.mk c.positiveHalf c.bits).Contains x := by
  unfold Contains BoundedBits.Contains
  rw [← or_and_right, ← and_assoc]
  exact and_congr_left fun _ => within_bounds_iff_halves hlo hhi hneg hpos

/-- The members of the negative half are negative. -/
theorem msb_of_negativeHalf (hneg : c.signed.lo.toInt ≤ c.unsigned.hi.toInt)
    (hhi : c.unsigned.hi.msb = true) (hx : c.negativeHalf.Contains x) : x.msb = true := by
  rw [BitVec.msb_eq_true_iff_two_mul_ge] at hhi ⊢
  simp only [Bounds.contains_iff, negativeHalf] at hx
  have h1 := Word.sign_cases c.signed.lo
  have h2 := Word.sign_cases c.unsigned.hi
  have h3 := c.unsigned.hi.isLt
  omega

/-- The members of the positive half are not negative. -/
theorem msb_of_positiveHalf (hpos : c.unsigned.lo.toInt ≤ c.signed.hi.toInt)
    (hlo : c.unsigned.lo.msb = false) (hx : c.positiveHalf.Contains x) : x.msb = false := by
  rw [BitVec.msb_eq_false_iff_two_mul_lt] at hlo ⊢
  simp only [Bounds.contains_iff, positiveHalf] at hx
  have h1 := Word.sign_cases c.signed.hi
  have h2 := Word.sign_cases c.unsigned.lo
  have h3 := c.signed.hi.isLt
  omega

/-! ## The canonical form -/

/-- What a canonical form has to be for a set of words: nothing if the set is empty, and
otherwise its tightest constraint. -/
def Describes (M : BitVec w → Prop) : Option (Constraint w) → Prop
  | none => ∀ x, ¬ M x
  | some d => d.IsTightest M

/-- What describes one set describes an equal set. -/
theorem Describes.congr {N : BitVec w → Prop} {r : Option (Constraint w)} (h : Describes M r)
    (hMN : ∀ x, M x ↔ N x) : Describes N r := by
  have heq : M = N := funext fun x => propext (hMN x)
  rw [← heq]
  exact h

/-- A settled set of words of one sign is described by one interval. -/
theorem describes_map_ofInterval {r : Option (BoundedBits w)} (h : Settles M r)
    (hsign : ∀ x y, M x → M y → x.msb = y.msb) : Describes M (r.map ofInterval) := by
  cases r with
  | none => exact h
  | some t =>
      have ht : Describes t.Contains (some (ofInterval t)) :=
        isTightest_ofInterval h.1 fun x y hx hy => hsign x y ((h.2 x).mp hx) ((h.2 y).mp hy)
      exact ht.congr h.2

/-- Settled sets of negative and of non-negative words are described by both halves. -/
theorem describes_ofHalves? {N P : BitVec w → Prop} {n p : Option (BoundedBits w)}
    (hn : Settles N n) (hp : Settles P p) (hneg : ∀ x, N x → x.msb = true)
    (hpos : ∀ x, P x → x.msb = false) : Describes (fun x => N x ∨ P x) (ofHalves? n p) := by
  cases n with
  | none =>
      have hP : ∀ x, P x ↔ N x ∨ P x := fun x => (or_iff_right (hn x)).symm
      have hone : Describes P (ofHalves? none p) := by
        have := describes_map_ofInterval hp fun x y hx hy => (hpos x hx).trans (hpos y hy).symm
        cases p <;> exact this
      exact hone.congr hP
  | some n =>
      cases p with
      | none =>
          have hN : ∀ x, N x ↔ N x ∨ P x := fun x => (or_iff_left (hp x)).symm
          have hone : Describes N (ofHalves? (some n) none) :=
            describes_map_ofInterval hn fun x y hx hy => (hneg x hx).trans (hneg y hy).symm
          exact hone.congr hN
      | some p =>
          have hboth : Describes (fun x => n.Contains x ∨ p.Contains x)
              (ofHalves? (some n) (some p)) :=
            isTightest_ofHalves hn.1 hp.1 (fun x hx => hneg x ((hn.2 x).mp hx))
              fun x hx => hpos x ((hp.2 x).mp hx)
          exact hboth.congr fun x => or_congr (hn.2 x) (hp.2 x)

/-- The canonical form of a constraint is its tightest description.  It is missing only if
the constraint has no members. -/
theorem canonical?_spec (c : Constraint w) : Describes c.Contains c.canonical? := by
  unfold canonical?
  split
  · rename_i hdisordered
    exact fun _ => not_contains_of_disordered hdisordered
  · rename_i hordered
    simp only [not_or, not_not] at hordered
    have hle : c.unsigned.lo ≤ c.unsigned.hi := BitVec.not_lt.mp hordered.2.1
    simp only
    split
    · rename_i hside
      split
      · rename_i hb
        exact fun _ => not_contains_of_overlap hle hside hb
      · rename_i hb
        have hmembers := fun x => contains_iff_interval (x := x) hle hside hb
        refine describes_map_ofInterval ((settle_spec _).congr fun x => (hmembers x).symm) ?_
        intro x y hx hy
        exact msb_eq_of_contains hside ((contains_cutUnsigned hle hx.1).mpr hx.2.1)
          ((contains_cutUnsigned hle hy.1).mpr hy.2.1)
    · rename_i hacross
      obtain ⟨hcut, hlo, hhi, hneg, hpos⟩ := cutUnsigned_of_across hle hacross
      rw [hcut]
      have hhalves := describes_ofHalves? (settle_spec ⟨c.negativeHalf, c.bits⟩)
        (settle_spec ⟨c.positiveHalf, c.bits⟩)
        (fun x hx => msb_of_negativeHalf hneg hhi hx.1)
        (fun x hx => msb_of_positiveHalf hpos hlo hx.1)
      exact hhalves.congr fun x => (contains_iff_halves hlo hhi hneg hpos).symm

/-- The canonical form, when there is one, is tightest. -/
theorem isTightest_of_canonical? (h : c.canonical? = some d) : d.IsTightest c.Contains := by
  have hspec := canonical?_spec c
  rw [h] at hspec
  exact hspec

/-- The canonical form has the same members. -/
theorem contains_of_canonical? (h : c.canonical? = some d) : d.Contains x ↔ c.Contains x :=
  (isTightest_of_canonical? h).contains_iff

/-- There is no canonical form exactly if there are no members. -/
theorem canonical?_eq_none_iff : c.canonical? = none ↔ ∀ x, ¬ c.Contains x := by
  have hspec := canonical?_spec c
  constructor
  · intro h
    rw [h] at hspec
    exact hspec
  · intro hempty
    cases hcanonical : c.canonical? with
    | none => rfl
    | some d =>
        rw [hcanonical] at hspec
        exact absurd hspec.signed_lo.1 (hempty _)

/-- A tightest constraint of the members is the canonical form. -/
theorem canonical?_eq_some (h : d.IsTightest c.Contains) : c.canonical? = some d := by
  cases hcanonical : c.canonical? with
  | none => exact absurd h.signed_lo.1 (canonical?_eq_none_iff.mp hcanonical _)
  | some e => rw [(isTightest_of_canonical? hcanonical).unique h]

/-- Constraints with the same members have the same canonical form. -/
theorem canonical?_congr (h : ∀ x, c.Contains x ↔ e.Contains x) :
    c.canonical? = e.canonical? := by
  cases hcanonical : c.canonical? with
  | none =>
      rw [canonical?_eq_none_iff] at hcanonical
      exact (canonical?_eq_none_iff.mpr fun x hx => hcanonical x ((h x).mpr hx)).symm
  | some d => exact (canonical?_eq_some ((isTightest_of_canonical? hcanonical).congr h)).symm

/-- Canonicalizing a constraint finds the best abstraction of its members.  There is no
result exactly if there are no members; a result has the same members and is tightest, it
depends on the members only, and canonicalizing it again changes nothing. -/
theorem canonical?_bestAbstraction (c : Constraint w) :
    (c.canonical? = none ↔ ∀ x, ¬ c.Contains x) ∧
      (∀ d, c.canonical? = some d →
        (∀ x, d.Contains x ↔ c.Contains x) ∧ d.IsTightest c.Contains ∧ d.canonical? = some d) ∧
      ∀ e : Constraint w, (∀ x, c.Contains x ↔ e.Contains x) → c.canonical? = e.canonical? := by
  refine ⟨canonical?_eq_none_iff, ?_, fun _ => canonical?_congr⟩
  intro d hd
  have hmembers := fun x => contains_of_canonical? (x := x) hd
  refine ⟨hmembers, isTightest_of_canonical? hd, ?_⟩
  rw [canonical?_congr hmembers, hd]

end Constraint
end WordRanges
