import Mathlib.Data.Finset.Card
import Mathlib.Order.WellFounded
import WordRanges.Proofs.Domain.Extremal
import WordRanges.Proofs.Domain.Widening

/-!
# Ascending iterations converge

An ascending iteration takes the hull of its value and a further one and widens it against its
value.  How often the value can change is told by a rank with four parts, none of which ever goes
up and one of which goes down at each change: the number of known bits, what is left of the span
of small sets, what is left of the budget of the counter, and the stage of giving up bounds.
Constants lose a known bit; small sets lose a known bit or grow in span; other sets count up until
the budget is spent.  Then the bounds are given up.  After that they are told by the limit and the
known bits, so further changes lose a known bit or give up the limit too.

Main results:

- Theorem {lit}`Policy.Grows.ascentRank_lt`: an ascending step lowers the rank.
- Theorem {lit}`Policy.ascent_changes_le`: how often an ascending iteration changes its value.
-/

namespace WordRanges

variable {w : Nat}

/-! ## Counting known bits -/

namespace KnownBits

variable {k l : KnownBits w}

/-- How many bits are known. -/
def count (k : KnownBits w) : Nat :=
  ((Finset.range w).filter fun i => k.known.getLsbD i = true).card

/-- A bit is known if it is known zero or known one. -/
theorem getLsbD_known (k : KnownBits w) (i : Nat) :
    k.known.getLsbD i = true ↔ k.zeros.getLsbD i = true ∨ k.ones.getLsbD i = true := by
  rw [known, BitVec.getLsbD_or, Bool.or_eq_true]

/-- There are no more known bits than bits. -/
theorem count_le (k : KnownBits w) : k.count ≤ w := by
  have hle := Finset.card_filter_le (Finset.range w) fun i => k.known.getLsbD i = true
  rwa [Finset.card_range] at hle

/-- What knows as much as another one, bit by bit. -/
theorem refines_iff :
    k.Refines l ↔ ∀ i, (l.zeros.getLsbD i = true → k.zeros.getLsbD i = true) ∧
      (l.ones.getLsbD i = true → k.ones.getLsbD i = true) := by
  unfold Refines
  rw [BitVec.ofNat_eq_ofNat, Word.and_not_eq_zero_iff, Word.and_not_eq_zero_iff, forall_and]

/-- Masks that know as much as each other are equal. -/
theorem Refines.antisymm (hkl : k.Refines l) (hlk : l.Refines k) : k = l := by
  rw [refines_iff] at hkl hlk
  have hzeros : k.zeros = l.zeros := BitVec.eq_of_getLsbD_eq fun i _ => by
    rw [Bool.eq_iff_iff]
    exact ⟨(hlk i).1, (hkl i).1⟩
  have hones : k.ones = l.ones := BitVec.eq_of_getLsbD_eq fun i _ => by
    rw [Bool.eq_iff_iff]
    exact ⟨(hlk i).2, (hkl i).2⟩
  exact congrArg₂ KnownBits.mk hzeros hones

/-- The known bits are known to what knows as much. -/
theorem Refines.filter_subset (h : k.Refines l) :
    (Finset.range w).filter (fun i => l.known.getLsbD i = true) ⊆
      (Finset.range w).filter (fun i => k.known.getLsbD i = true) := by
  intro i hi
  rw [Finset.mem_filter, getLsbD_known] at hi ⊢
  exact ⟨hi.1, hi.2.imp (refines_iff.mp h i).1 (refines_iff.mp h i).2⟩

/-- What knows as much has at least as many known bits. -/
theorem Refines.count_le (h : k.Refines l) : l.count ≤ k.count :=
  Finset.card_le_card h.filter_subset

/-- What knows as much and differs has more known bits, unless it contradicts itself. -/
theorem Refines.count_lt (h : k.Refines l) (hdisjoint : k.Disjoint) (hne : k ≠ l) :
    l.count < k.count := by
  by_contra hnot
  have hsame := Finset.eq_of_subset_of_card_le h.filter_subset (Nat.not_lt.mp hnot)
  have hknown (i : Nat) (hi : i < w) (hk : k.known.getLsbD i = true) :
      l.known.getLsbD i = true := by
    have hmem : i ∈ (Finset.range w).filter (fun i => k.known.getLsbD i = true) := by
      simp [hi, hk]
    rw [← hsame, Finset.mem_filter] at hmem
    exact hmem.2
  refine hne (h.antisymm (refines_iff.mpr fun i => ?_))
  obtain ⟨hzeros, hones⟩ := refines_iff.mp h i
  have hapart := disjoint_iff.mp hdisjoint i
  constructor
  · intro hz
    have hl := hknown i (BitVec.lt_of_getLsbD hz) ((getLsbD_known k i).mpr (.inl hz))
    rcases (getLsbD_known l i).mp hl with hlz | hlo
    · exact hlz
    · simp [hapart hz] at hones
      simp [hones] at hlo
  · intro ho
    have hl := hknown i (BitVec.lt_of_getLsbD ho) ((getLsbD_known k i).mpr (.inr ho))
    rcases (getLsbD_known l i).mp hl with hlz | hlo
    · simp [hapart (hzeros hlz)] at ho
    · exact hlo

end KnownBits

/-! ## Known bits of values -/

namespace Policy

variable {p q : Policy} {nv old v x : Value w} {limit : Option (Value w)}

/-- The bits of a constant tell its only member. -/
theorem Valid.eq_lo_of_satisfies (hv : q.Valid v) (hconstant : v.constant? ≠ none) {y : BitVec w}
    (hy : v.bits.Satisfies y) : y = v.lo := by
  obtain ⟨z, hz⟩ := Option.ne_none_iff_exists'.mp hconstant
  obtain ⟨-, honly⟩ := hv.constant?_eq_some_iff.mp hz
  have hlo (u : BitVec w) (hu : v.Contains u) : u = v.lo :=
    (honly u hu).trans (honly v.lo hv.contains_lo).symm
  apply BitVec.eq_of_getLsbD_eq
  intro i hi
  have hbits := KnownBits.satisfies_iff.mp hy i
  cases hbit : v.lo.getLsbD i with
  | false => exact hbits.1 ((hv.isTightest.zeros i hi).mpr fun u hu => by rw [hlo u hu, hbit])
  | true => exact hbits.2 ((hv.isTightest.ones i hi).mpr fun u hu => by rw [hlo u hu, hbit])

/-- A value of which the same bits are known as of a constant is included in it. -/
theorem Valid.isSubset_of_bits_eq (hv : q.Valid v) (hconstant : v.constant? ≠ none)
    (hnv : p.Valid nv) (hbits : nv.bits = v.bits) : nv.IsSubset v := by
  apply hnv.isSubset
  intro y hy
  have hsatisfies : v.bits.Satisfies y := by
    rw [← hbits]
    exact hy.2.2
  rw [hv.eq_lo_of_satisfies hconstant hsatisfies]
  exact hv.contains_lo

/-- A value that covers another one knows no more bits. -/
theorem count_bits_le (hcovers : old.IsSubset v) : v.bits.count ≤ old.bits.count :=
  KnownBits.Refines.count_le hcovers.2.2.2.2

/-- A value that covers another one and has other known bits knows fewer bits. -/
theorem Valid.count_bits_lt (hold : q.Valid old) (hcovers : old.IsSubset v)
    (hne : old.bits ≠ v.bits) : v.bits.count < old.bits.count :=
  KnownBits.Refines.count_lt hcovers.2.2.2.2 hold.contains_lo.2.2.disjoint hne

/-! ## Given up bounds -/

/-- Giving up the bounds of a value would change nothing. -/
def IsRelaxed (limit : Option (Value w)) (v : Value w) : Prop :=
  (abandonBounds v limit).canonical? = some v.constraint

instance (limit : Option (Value w)) (v : Value w) : Decidable (IsRelaxed limit v) :=
  inferInstanceAs (Decidable (_ = _))

/-- What is left of a value whose bounds are given up depends on its known bits only. -/
theorem abandonBounds_congr (hbits : nv.bits = v.bits) :
    abandonBounds nv limit = abandonBounds v limit := by
  cases limit with
  | none => simp only [abandonBounds, hbits]
  | some l => simp only [abandonBounds, hbits]

/-- What is left of a value whose bounds are given up: the words of the limit, if there is one,
that agree with its known bits. -/
theorem contains_abandonBounds {y : BitVec w} :
    (abandonBounds nv limit).Contains y ↔ nv.bits.Satisfies y ∧ ∀ l ∈ limit, l.Contains y := by
  cases limit with
  | none =>
      have hfull := Constraint.contains_full y
      simp only [Option.not_mem_none, false_implies, implies_true, and_true]
      exact ⟨fun h => h.2.2, fun h => ⟨hfull.1, hfull.2.1, h⟩⟩
  | some l =>
      simp only [Option.mem_def, Option.some.injEq, forall_eq']
      constructor
      · rintro ⟨hsigned, hunsigned, hbits⟩
        obtain ⟨hnv, hl⟩ := KnownBits.satisfies_both.mp hbits
        exact ⟨hnv, hsigned, hunsigned, hl⟩
      · rintro ⟨hnv, hsigned, hunsigned, hl⟩
        exact ⟨hsigned, hunsigned, KnownBits.satisfies_both.mpr ⟨hnv, hl⟩⟩

/-- Giving up bounds keeps the known bits of a value that is covered. -/
theorem bits_of_make?_abandonBounds {n : Int} (h : p.make? (abandonBounds nv limit) n = some v)
    (hcovers : nv.IsSubset v) : nv.bits = v.bits := by
  have hknown : v.bits.Refines nv.bits := by
    have ht := (valid_of_make? h).isTightest
    have hbits (i : Nat) (y : BitVec w) (hy : v.Contains y) :=
      KnownBits.satisfies_iff.mp (contains_abandonBounds.mp ((contains_of_make? h).mp hy)).1 i
    rw [KnownBits.refines_iff]
    intro i
    constructor
    · intro hz
      exact (ht.zeros i (BitVec.lt_of_getLsbD hz)).mpr fun y hy => (hbits i y hy).1 hz
    · intro ho
      exact (ht.ones i (BitVec.lt_of_getLsbD ho)).mpr fun y hy => (hbits i y hy).2 ho
  exact KnownBits.Refines.antisymm hcovers.2.2.2.2 hknown

/-- Giving up bounds a second time changes nothing. -/
theorem isRelaxed_of_make? {n : Int} (h : p.make? (abandonBounds nv limit) n = some v)
    (hcovers : nv.IsSubset v) : IsRelaxed limit v := by
  unfold IsRelaxed
  rw [← abandonBounds_congr (bits_of_make?_abandonBounds h hcovers)]
  exact (make?_eq_some_iff.mp h).1

/-- Values without bounds of their own are told by their known bits. -/
theorem IsRelaxed.constraint_eq (hold : IsRelaxed limit old) (hv : IsRelaxed limit v)
    (hbits : old.bits = v.bits) : old.constraint = v.constraint := by
  unfold IsRelaxed at hold hv
  rw [abandonBounds_congr hbits, hv] at hold
  exact (Option.some.inj hold).symm

/-! ## The rank of an ascending iteration -/

/-- The counter of a value as the policy normalises it. -/
def normalCounter (p : Policy) (v : Value w) : Int :=
  p.normalWiden v.constraint v.widen

/-- How far giving up bounds can still go: nothing is left of all words, and a value that has
spent its budget and whose bounds are given up can only become all words. -/
def stage (p : Policy) (limit : Option (Value w)) (v : Value w) : Nat :=
  if v.isDomain = true then 0
  else if v.constant? = none ∧ p.normalCounter v = p.maxWiden ∧ IsRelaxed limit v then 1
  else 2

/-- How often an ascending iteration can still change its value. -/
def ascentRank (p : Policy) (limit : Option (Value w)) (v : Value w) : Nat :=
  v.bits.count + (p.smallSpan.toNat - v.constraint.span.toNat) +
    (p.maxWiden - p.normalCounter v).toNat + p.stage limit v

/-- There are two steps of giving up bounds. -/
theorem stage_le (p : Policy) (limit : Option (Value w)) (v : Value w) : p.stage limit v ≤ 2 := by
  unfold stage
  split
  · exact Nat.zero_le 2
  · split <;> decide

/-- Nothing can be given up of all words. -/
theorem stage_of_isDomain (h : v.isDomain = true) : p.stage limit v = 0 :=
  if_pos h

/-- Bounds of a constant, or of a value that has not spent its budget, are not given up. -/
theorem stage_eq_two (hdomain : ¬ v.isDomain = true)
    (h : v.constant? = none → p.normalCounter v ≠ p.maxWiden) : p.stage limit v = 2 := by
  rw [stage, if_neg hdomain, if_neg]
  exact fun hrelaxed => h hrelaxed.1 hrelaxed.2.1

/-- Of a value whose bounds are given up only the limit can be given up. -/
theorem stage_le_one (hvaries : v.constant? = none) (hspent : p.normalCounter v = p.maxWiden)
    (hrelaxed : IsRelaxed limit v) : p.stage limit v ≤ 1 := by
  unfold stage
  split
  · exact Nat.zero_le 1
  · rw [if_pos ⟨hvaries, hspent, hrelaxed⟩]

/-- While a value is not all words, either its bounds were given up or all can be given up. -/
theorem stage_cases (p : Policy) (limit : Option (Value w)) (hdomain : ¬ v.isDomain = true) :
    p.stage limit v = 2 ∨ p.stage limit v = 1 ∧ IsRelaxed limit v := by
  unfold stage
  rw [if_neg hdomain]
  split
  · rename_i h
    exact .inr ⟨rfl, h.2.2⟩
  · exact .inl rfl

/-! ## Ascending steps lower the rank -/

/-- A normal counter: zero for small sets, otherwise the given one or the whole budget. -/
theorem normalWiden_cases (p : Policy) (c : Constraint w) (n : Int) :
    c.span.toNat ≤ p.smallSpan.toNat ∧ p.normalWiden c n = 0 ∨
      p.smallSpan.toNat < c.span.toNat ∧
        (p.normalWiden c n = n ∨ c = .full w ∧ p.normalWiden c n = p.maxWiden) := by
  unfold normalWiden
  split
  · exact .inl ⟨by assumption, rfl⟩
  · rename_i hlarge
    refine .inr ⟨Nat.not_le.mp hlarge, ?_⟩
    split
    · exact .inr ⟨by assumption, rfl⟩
    · exact .inl rfl

/-- A value that some policy made and whose counter is within the budget. -/
structure Counted (p : Policy) (v : Value w) : Prop where
  valid : ∃ q : Policy, q.Valid v
  nonneg : 0 ≤ v.widen
  le_maxWiden : v.widen ≤ p.maxWiden

/-- A value of the policy that covers the old one, has further members and is counted as far,
within the budget. -/
structure Grows (p : Policy) (old nv : Value w) : Prop where
  valid : p.Valid nv
  covers : old.IsSubset nv
  larger : ¬ nv.IsSubset old
  widen_le : p.smallSpan.toNat < nv.constraint.span.toNat → old.widen ≤ nv.widen
  nonneg : 0 ≤ nv.widen
  le_maxWiden : nv.widen ≤ p.maxWiden

/-- The hull of the value of an ascending iteration and a further one grows, unless the iteration
stays as it is. -/
theorem Counted.grows_hull (hold : p.Counted old) (hx : p.Counted x)
    (hchanges : p.widen (p.hull old x) (some old) limit ≠ old) : p.Grows old (p.hull old x) := by
  obtain ⟨q, hq⟩ := hold.valid
  obtain ⟨r, hr⟩ := hx.valid
  have hne : old ≠ x := by
    rintro rfl
    rw [hull_self, widen_of_isSubset (.refl old)] at hchanges
    exact hchanges rfl
  have hmake := (constraint_hull p hq hr).1
  rw [hull?, if_neg hne] at hmake
  have hwiden := (make?_eq_some_iff.mp hmake).2
  have hcases := normalWiden_cases p (p.hull old x).constraint (max old.widen x.widen)
  have h₁ := hold.nonneg
  have h₂ := hold.le_maxWiden
  have h₃ := hx.nonneg
  have h₄ := hx.le_maxWiden
  exact {
    valid := valid_of_make? hmake
    covers := hq.isSubset fun _ => contains_hull_left
    larger := fun h => hchanges (widen_of_isSubset h)
    widen_le := by omega
    nonneg := by omega
    le_maxWiden := by omega }

/-- A value that is made with a counter within the budget is counted. -/
theorem counted_of_make? {c : Constraint w} {n : Int} (hnonneg : 0 ≤ n) (hmax : n ≤ p.maxWiden)
    (h : p.make? c n = some v) : p.Counted v := by
  have hwiden := (make?_eq_some_iff.mp h).2
  have hcases := normalWiden_cases p v.constraint n
  exact ⟨⟨p, valid_of_make? h⟩, by omega, by omega⟩

/-- An ascending step keeps the counter within the budget. -/
theorem Grows.counted (hgrows : p.Grows old nv) (h : p.Ascends nv old limit v) : p.Counted v := by
  have hnonneg := hgrows.nonneg
  have hmax := hgrows.le_maxWiden
  cases h with
  | constant => exact ⟨⟨p, hgrows.valid⟩, hnonneg, hmax⟩
  | counted => exact ⟨⟨p, hgrows.valid⟩, hnonneg, hmax⟩
  | counting _ _ hbudget hmake => exact counted_of_make? (by omega) (by omega) hmake
  | spent _ _ hspent hfully =>
      rcases widenFully?_cases hfully with hdomain | ⟨hmake, -⟩
      · exact counted_of_make? (by omega) (Int.le_refl _) hdomain
      · exact counted_of_make? (by omega) (Int.le_refl _) hmake

/-- A value that is made with the whole budget, after the budget was spent, has the whole
budget as its counter, also if it is small. -/
theorem Grows.widen_eq_maxWiden (hgrows : p.Grows old nv) {c : Constraint w}
    (hspent : p.maxWiden ≤ nv.widen) (hcovers : nv.IsSubset v)
    (hmake : p.make? c p.maxWiden = some v) : v.widen = p.maxWiden := by
  have hspan := hgrows.valid.isTightest.span_le (valid_of_make? hmake).isTightest
    fun _ => hcovers.contains
  have hcases := normalWiden_cases p v.constraint p.maxWiden
  have hnormal := normalWiden_cases p nv.constraint nv.widen
  rw [hgrows.valid.normal] at hnormal
  rw [← (make?_eq_some_iff.mp hmake).2] at hcases
  have hmax := hgrows.le_maxWiden
  omega

section Steps

variable (hold : p.Counted old) (hgrows : p.Grows old nv)
include hold hgrows

/-- The old value is not all words. -/
theorem Grows.not_isDomain : ¬ old.isDomain = true := by
  intro hdomain
  obtain ⟨q, hq⟩ := hold.valid
  exact hgrows.larger (hgrows.valid.isSubset fun y _ => hq.isDomain_iff.mp hdomain y)

/-- The normal counter of the old value: zero for small sets, otherwise its own. -/
theorem Grows.normalCounter_cases :
    old.constraint.span.toNat ≤ p.smallSpan.toNat ∧ p.normalCounter old = 0 ∨
      p.smallSpan.toNat < old.constraint.span.toNat ∧ p.normalCounter old = old.widen := by
  have hdomain := hgrows.not_isDomain hold
  rw [Value.isDomain, decide_eq_true_eq] at hdomain
  rcases normalWiden_cases p old.constraint old.widen with h | ⟨hlarge, h | h⟩
  · exact .inl h
  · exact .inr ⟨hlarge, h⟩
  · exact absurd h.1 hdomain

/-- The known bits change if the old value is a constant. -/
theorem Grows.bits_ne (hconstant : old.constant? ≠ none) : old.bits ≠ nv.bits := by
  intro hbits
  obtain ⟨q, hq⟩ := hold.valid
  exact hgrows.larger (hq.isSubset_of_bits_eq hconstant hgrows.valid hbits.symm)

/-- A value that covers the new one is no constant. -/
theorem Grows.constant?_eq_none (hv : p.Valid v) (hcovers : nv.IsSubset v) :
    v.constant? = none := by
  obtain ⟨q, hq⟩ := hold.valid
  by_contra hconstant
  obtain ⟨z, hz⟩ := Option.ne_none_iff_exists'.mp hconstant
  obtain ⟨-, honly⟩ := hv.constant?_eq_some_iff.mp hz
  -- All members of the new value would be the one member that the old value has.
  refine hgrows.larger (hgrows.valid.isSubset fun y hy => ?_)
  have hlo := honly _ (hcovers.contains (hgrows.covers.contains hq.contains_lo))
  rw [honly y (hcovers.contains hy), ← hlo]
  exact hq.contains_lo

/-- A value that covers the new one has a lower rank than the old one if its counter is no lower,
no more can be given up of it, and its known bits, its span, its counter or its stage changed. -/
theorem Grows.ascentRank_lt_of_isSubset (hv : p.Valid v) (hcovers : nv.IsSubset v)
    (hcounter : p.normalCounter old ≤ v.widen) (hmax : v.widen ≤ p.maxWiden)
    (hstage : p.stage limit v ≤ p.stage limit old)
    (hless : old.bits ≠ v.bits ∨
      old.constraint.span.toNat < v.constraint.span.toNat ∧
        v.constraint.span.toNat ≤ p.smallSpan.toNat ∨
      p.normalCounter old < v.widen ∨ p.stage limit v < p.stage limit old) :
    p.ascentRank limit v < p.ascentRank limit old := by
  obtain ⟨q, hq⟩ := hold.valid
  have hsubset := hgrows.covers.trans hcovers
  have hcount := count_bits_le hsubset
  have hspan := hq.isTightest.span_le hv.isTightest fun _ => hsubset.contains
  have hnormal : p.normalCounter v = v.widen := hv.normal
  unfold ascentRank
  rcases hless with hbits | hspan' | hcounter' | hstage'
  · have hcount' := hq.count_bits_lt hsubset hbits
    omega
  · omega
  · omega
  · omega

/-- The counter does not go down. -/
theorem Grows.normalCounter_le : p.normalCounter old ≤ nv.widen := by
  obtain ⟨q, hq⟩ := hold.valid
  have hspan := hq.isTightest.span_le hgrows.valid.isTightest fun _ => hgrows.covers.contains
  have hcases := hgrows.normalCounter_cases hold
  have hnonneg := hgrows.nonneg
  have hwiden := hgrows.widen_le
  have hcounter := hold.nonneg
  omega

/-- Taking the new value lowers the rank if the old one is a constant: a known bit is lost. -/
theorem Grows.ascentRank_lt_of_constant (hconstant : old.constant? ≠ none) :
    p.ascentRank limit nv < p.ascentRank limit old := by
  have hstage : p.stage limit old = 2 :=
    stage_eq_two (hgrows.not_isDomain hold) fun h => absurd h hconstant
  refine hgrows.ascentRank_lt_of_isSubset hold hgrows.valid (.refl nv)
    (hgrows.normalCounter_le hold) hgrows.le_maxWiden (hstage ▸ stage_le p limit nv) (.inl ?_)
  exact hgrows.bits_ne hold hconstant

/-- Taking a new value that is counted already lowers the rank. -/
theorem Grows.ascentRank_lt_of_counted (hcounted : old.widen < nv.widen) :
    p.ascentRank limit nv < p.ascentRank limit old := by
  have hcases := hgrows.normalCounter_cases hold
  have hmax := hgrows.le_maxWiden
  have hnonneg := hold.nonneg
  have hcounter : p.normalCounter old < nv.widen := by omega
  have hstage : p.stage limit old = 2 :=
    stage_eq_two (hgrows.not_isDomain hold) fun _ => by omega
  exact hgrows.ascentRank_lt_of_isSubset hold hgrows.valid (.refl nv) (Int.le_of_lt hcounter) hmax
    (hstage ▸ stage_le p limit nv) (.inr (.inr (.inl hcounter)))

/-- Counting up lowers the rank.  A small set is not counted, but it loses a known bit or its span
grows. -/
theorem Grows.ascentRank_lt_of_counting (hbudget : nv.widen < p.maxWiden)
    (hmake : p.make? nv.constraint (nv.widen + 1) = some v) :
    p.ascentRank limit v < p.ascentRank limit old := by
  have hv := valid_of_make? hmake
  have hparts := hgrows.valid.constraint_of_make? hmake
  have hsame : nv.SameSet v := hparts.symm
  have hcounter := hgrows.normalCounter_le hold
  have hstage : p.stage limit old = 2 :=
    stage_eq_two (hgrows.not_isDomain hold) fun _ => by omega
  have hwiden := (make?_eq_some_iff.mp hmake).2
  have hcases := normalWiden_cases p v.constraint (nv.widen + 1)
  have hnormal := normalWiden_cases p nv.constraint nv.widen
  rw [hgrows.valid.normal] at hnormal
  rw [← hwiden, hparts] at hcases
  refine hgrows.ascentRank_lt_of_isSubset hold hv hsame.isSubset (by omega) (by omega)
    (hstage ▸ stage_le p limit v) ?_
  by_cases hsmall : nv.constraint.span.toNat ≤ p.smallSpan.toNat
  · by_cases hbits : old.bits = v.bits
    · obtain ⟨q, hq⟩ := hold.valid
      have hsubset := hgrows.covers.trans hsame.isSubset
      have hne : old.constraint ≠ v.constraint := by
        intro heq
        have hback : nv.SameSet old := hparts.symm.trans heq.symm
        exact hgrows.larger hback.isSubset
      have hspan := hq.isTightest.span_lt hv.isTightest (fun _ => hsubset.contains) hbits hne
      exact .inr (.inl ⟨hspan, hparts ▸ hsmall⟩)
    · exact .inl hbits
  · exact .inr (.inr (.inl (by omega)))

/-- Giving up bounds lowers the rank: either they were not given up before, or a known bit is
lost, or the limit is given up. -/
theorem Grows.ascentRank_lt_of_spent (hspent : p.maxWiden ≤ nv.widen)
    (hfully : p.widenFully? nv limit = some v) :
    p.ascentRank limit v < p.ascentRank limit old := by
  have hdomain := hgrows.not_isDomain hold
  have hcounter := Int.le_trans (hgrows.normalCounter_le hold) hgrows.le_maxWiden
  rcases widenFully?_cases hfully with hall | ⟨hmake, hcovers⟩
  · have hv := valid_of_make? hall
    have hmember (y : BitVec w) : v.Contains y :=
      (contains_of_make? hall).mpr (Constraint.contains_full y)
    have hcovers := hgrows.valid.isSubset fun y _ => hmember y
    have hwiden := hgrows.widen_eq_maxWiden hspent hcovers hall
    have hlast : p.stage limit v = 0 := stage_of_isDomain (hv.isDomain_iff.mpr hmember)
    have hstage := stage_cases p limit hdomain
    exact hgrows.ascentRank_lt_of_isSubset hold hv hcovers (by omega) (by omega) (by omega)
      (.inr (.inr (.inr (by omega))))
  · have hv := valid_of_make? hmake
    have hwiden := hgrows.widen_eq_maxWiden hspent hcovers hmake
    have hrelaxed := isRelaxed_of_make? hmake hcovers
    have hlast : p.stage limit v ≤ 1 :=
      stage_le_one (hgrows.constant?_eq_none hold hv hcovers) (hv.normal.trans hwiden) hrelaxed
    rcases stage_cases p limit hdomain with hstage | ⟨hstage, hbefore⟩
    · exact hgrows.ascentRank_lt_of_isSubset hold hv hcovers (by omega) (by omega) (by omega)
        (.inr (.inr (.inr (by omega))))
    · -- Both values are told by their known bits, so these differ.
      have hbits : old.bits ≠ v.bits := by
        intro hbits
        have hsame : v.SameSet old := (hbefore.constraint_eq hrelaxed hbits).symm
        exact hgrows.larger (hcovers.trans hsame.isSubset)
      exact hgrows.ascentRank_lt_of_isSubset hold hv hcovers (by omega) (by omega) (by omega)
        (.inl hbits)

/-- An ascending step lowers the rank. -/
theorem Grows.ascentRank_lt (h : p.Ascends nv old limit v) :
    p.ascentRank limit v < p.ascentRank limit old := by
  cases h with
  | constant hconstant => exact hgrows.ascentRank_lt_of_constant hold hconstant
  | counted _ hcounted => exact hgrows.ascentRank_lt_of_counted hold hcounted
  | counting _ _ hbudget hmake => exact hgrows.ascentRank_lt_of_counting hold hbudget hmake
  | spent _ _ hspent hfully => exact hgrows.ascentRank_lt_of_spent hold hspent hfully

end Steps

/-! ## Ascending iterations -/

/-- One step of an ascending iteration: the hull of its value and a further one, widened against
its value. -/
def ascend (p : Policy) (limit : Option (Value w)) (v x : Value w) : Value w :=
  p.widen (p.hull v x) (some v) limit

/-- The values of an ascending iteration. -/
def ascent (p : Policy) (limit : Option (Value w)) (v : Value w) (xs : Nat → Value w) :
    Nat → Value w
  | 0 => v
  | i + 1 => p.ascend limit (ascent p limit v xs i) (xs i)

/-- A step that changes the value is an ascending step. -/
theorem Counted.ascends (hv : p.Counted v) (hx : p.Counted x) (hchanges : p.ascend limit v x ≠ v) :
    p.Grows v (p.hull v x) ∧ p.Ascends (p.hull v x) v limit (p.ascend limit v x) := by
  have hgrows := hv.grows_hull hx hchanges
  exact ⟨hgrows, ascends_widen hgrows.valid hgrows.covers hgrows.larger⟩

/-- A step keeps the counter within the budget. -/
theorem Counted.ascend (hv : p.Counted v) (hx : p.Counted x) (limit : Option (Value w)) :
    p.Counted (p.ascend limit v x) := by
  by_cases hchanges : p.ascend limit v x = v
  · rw [hchanges]
    exact hv
  · obtain ⟨hgrows, hascends⟩ := hv.ascends hx hchanges
    exact hgrows.counted hascends

/-- A step that changes the value lowers the rank. -/
theorem Counted.ascentRank_ascend_lt (hv : p.Counted v) (hx : p.Counted x)
    (hchanges : p.ascend limit v x ≠ v) :
    p.ascentRank limit (p.ascend limit v x) < p.ascentRank limit v := by
  obtain ⟨hgrows, hascends⟩ := hv.ascends hx hchanges
  exact hgrows.ascentRank_lt hv hascends

/-- The rank is bounded by the small span, the budget and the width. -/
theorem Counted.ascentRank_le (hv : p.Counted v) (limit : Option (Value w)) :
    p.ascentRank limit v ≤ p.smallSpan.toNat + p.maxWiden.toNat + w + 2 := by
  have hcount := v.bits.count_le
  have hstage := stage_le p limit v
  have hcases : 0 ≤ p.normalCounter v := by
    have hcases := normalWiden_cases p v.constraint v.widen
    have hnonneg := hv.nonneg
    have hmax := hv.le_maxWiden
    unfold normalCounter
    omega
  unfold ascentRank
  omega

/-- The hull and the widening of a step always have a result. -/
theorem Counted.checked_ascend (hv : p.Counted v) (hx : p.Counted x) (limit : Option (Value w)) :
    ((p.hull? v x).bind fun nv => p.widen? nv (some v) limit) = some (p.ascend limit v x) := by
  obtain ⟨q, hq⟩ := hv.valid
  obtain ⟨r, hr⟩ := hx.valid
  rw [(constraint_hull p hq hr).1, Option.bind_some]
  rcases makes_hull p hq.makes hr.makes with hhull | hhull
  · exact widen?_eq_some hhull.valid (some v) limit
  · exact widen?_eq_some hhull.valid (some v) limit

/-- If a rank never goes up and every change lowers it, there are at most as many changes as the
first rank tells. -/
theorem exists_changes_of_rank (rank : Nat → Nat) {P : Nat → Prop}
    (hstep : ∀ i, rank (i + 1) ≤ rank i) (hchange : ∀ i, P i → rank (i + 1) < rank i) :
    ∃ changed : Finset Nat, changed.card ≤ rank 0 ∧ ∀ i, i ∉ changed → ¬ P i := by
  classical
  have hcount (n : Nat) : ((Finset.range n).filter P).card + rank n ≤ rank 0 := by
    induction n with
    | zero => simp
    | succ n ih =>
        rw [Finset.range_add_one, Finset.filter_insert]
        split
        · rename_i hn
          have hle := Finset.card_insert_le n ((Finset.range n).filter P)
          have hlt := hchange n hn
          omega
        · have hle := hstep n
          omega
  -- Nothing changes once the rank is least.
  obtain ⟨n, hleast⟩ : ∃ n, ∀ i, rank n ≤ rank i :=
    ⟨Function.argmin rank, fun i => Function.argmin_le rank i⟩
  refine ⟨(Finset.range n).filter P, Nat.le_of_add_right_le (hcount n), fun i hi hP => ?_⟩
  have hge : n ≤ i := by
    by_contra hlt
    exact hi (by simp [Nat.not_le.mp hlt, hP])
  have hle : rank i ≤ rank n := antitone_nat_of_succ_le hstep hge
  have hlt := hchange i hP
  have hmin := hleast (i + 1)
  omega

/-- An ascending iteration of values that were made, with counters within the budget, changes its
value at most as often as the small span, the budget and the width tell, whatever the limit is.
None of its steps lacks a result. -/
theorem ascent_changes_le {v : Value w} {xs : Nat → Value w} (limit : Option (Value w))
    (hv : ∃ q : Policy, q.Makes v) (hvwiden : 0 ≤ v.widen ∧ v.widen ≤ p.maxWiden)
    (hxs : ∀ i, ∃ q : Policy, q.Makes (xs i))
    (hxswiden : ∀ i, 0 ≤ (xs i).widen ∧ (xs i).widen ≤ p.maxWiden) :
    (∀ i, ((p.hull? (p.ascent limit v xs i) (xs i)).bind fun nv =>
        p.widen? nv (some (p.ascent limit v xs i)) limit) = some (p.ascent limit v xs (i + 1))) ∧
    ∃ changed : Finset Nat, changed.card ≤ p.smallSpan.toNat + p.maxWiden.toNat + w + 2 ∧
      ∀ i, i ∉ changed → p.ascent limit v xs (i + 1) = p.ascent limit v xs i := by
  have hx (i : Nat) : p.Counted (xs i) := by
    obtain ⟨q, hq⟩ := hxs i
    exact ⟨⟨q, hq.valid⟩, (hxswiden i).1, (hxswiden i).2⟩
  have hcounted (i : Nat) : p.Counted (p.ascent limit v xs i) := by
    induction i with
    | zero =>
        obtain ⟨q, hq⟩ := hv
        exact ⟨⟨q, hq.valid⟩, hvwiden.1, hvwiden.2⟩
    | succ i ih => exact ih.ascend (hx i) limit
  have hchange (i : Nat) (hne : p.ascent limit v xs (i + 1) ≠ p.ascent limit v xs i) :
      p.ascentRank limit (p.ascent limit v xs (i + 1)) <
        p.ascentRank limit (p.ascent limit v xs i) :=
    (hcounted i).ascentRank_ascend_lt (hx i) hne
  have hstep (i : Nat) : p.ascentRank limit (p.ascent limit v xs (i + 1)) ≤
      p.ascentRank limit (p.ascent limit v xs i) := by
    by_cases heq : p.ascent limit v xs (i + 1) = p.ascent limit v xs i
    · rw [heq]
    · exact Nat.le_of_lt (hchange i heq)
  obtain ⟨changed, hcard, hstays⟩ :=
    exists_changes_of_rank (fun i => p.ascentRank limit (p.ascent limit v xs i)) hstep hchange
  exact ⟨fun i => (hcounted i).checked_ascend (hx i) limit, changed,
    Nat.le_trans hcard ((hcounted 0).ascentRank_le limit), fun i hi => not_not.mp (hstays i hi)⟩

/-! ### One word after the other within a limit -/

namespace Climbing

/-- The words from zero to a hundred. -/
def hundred : Value 8 :=
  ⟨⟨⟨0, 100⟩, ⟨0, 100⟩, ⟨0x80, 0⟩⟩, 0⟩

/-- The words that are added to zero, the last of them forever. -/
def words : Nat → BitVec 8
  | 0 => 1
  | 1 => 10
  | 2 => 20
  | 3 => 30
  | 4 => 40
  | 5 => 70
  | _ => -1

/-- The values of the words. -/
def values (i : Nat) : Value 8 :=
  Policy.default.const (words i)

/-- Single words are counted. -/
theorem counted_const (x : BitVec 8) : Policy.default.Counted (Policy.default.const x) :=
  counted_of_make? (Int.le_refl 0) (by decide) (const?_eq_some Policy.default x)

/-- The value changes seven times: it stays small, is counted three times, has its bounds replaced
by those of the limit, loses a known bit and becomes all words. -/
theorem changes_seven_times :
    (∀ i, Policy.default.Makes (values i)) ∧
    (∀ i, i < 7 → Policy.default.ascent (some hundred) (Policy.default.const 0) values (i + 1) ≠
      Policy.default.ascent (some hundred) (Policy.default.const 0) values i) ∧
    ∃ changed : Finset Nat, changed.card ≤ 16 ∧ ∀ i, i ∉ changed →
      Policy.default.ascent (some hundred) (Policy.default.const 0) values (i + 1) =
        Policy.default.ascent (some hundred) (Policy.default.const 0) values i := by
  have hmakes (x : BitVec 8) : Policy.default.Makes (Policy.default.const x) :=
    (valid_of_make? (const?_eq_some Policy.default x)).makes
  have hwiden (x : BitVec 8) : 0 ≤ (Policy.default.const x).widen ∧
      (Policy.default.const x).widen ≤ Policy.default.maxWiden :=
    ⟨(counted_const x).nonneg, (counted_const x).le_maxWiden⟩
  refine ⟨fun i => hmakes (words i), by decide +kernel, ?_⟩
  exact (ascent_changes_le (some hundred) ⟨_, hmakes 0⟩ (hwiden 0) (fun i => ⟨_, hmakes (words i)⟩)
    fun i => hwiden (words i)).2

end Climbing

end Policy
end WordRanges
