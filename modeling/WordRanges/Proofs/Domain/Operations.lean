import WordRanges.Domain.Policy
import WordRanges.Proofs.Domain.Canonical

/-!
# Operations on values

What the operations of a policy do to the members of values, and which values they make.
A value that belongs to a policy is canonical and has a normal counter; every operation
makes such values out of such values, and the checked operations never lack a result.

Main results:

- Theorems {lit}`Policy.contains_hull_left`, {lit}`Policy.contains_widen` and
  {lit}`Policy.contains_narrow`: hulls, widened and narrowed values cover the new values.
- Theorem {lit}`Policy.contains_of_intersect?`: an intersection has exactly the common members.
- Theorems {lit}`Policy.hull?_eq_some` and {lit}`Policy.widen?_eq_some`: checked operations on
  values of the policy have a result.
-/

namespace WordRanges

attribute [ext] Value

variable {w : Nat} {x y : BitVec w}

/-! ## Constraints of operations -/

/-- A word agrees with what is known on either side if it agrees with both sides. -/
theorem KnownBits.satisfies_both {k l : KnownBits w} :
    (k.both l).Satisfies x ↔ k.Satisfies x ∧ l.Satisfies x := by
  rw [satisfies_iff, satisfies_iff, satisfies_iff]
  simp only [both, BitVec.getLsbD_or, Bool.or_eq_true]
  constructor
  · intro h
    exact ⟨fun i => ⟨fun hz => (h i).1 (Or.inl hz), fun ho => (h i).2 (Or.inl ho)⟩,
      fun i => ⟨fun hz => (h i).1 (Or.inr hz), fun ho => (h i).2 (Or.inr ho)⟩⟩
  · rintro ⟨hk, hl⟩ i
    exact ⟨fun hz => hz.elim (hk i).1 (hl i).1, fun ho => ho.elim (hk i).2 (hl i).2⟩

namespace Constraint

variable {c d : Constraint w}

/-- Every word meets the full constraint. -/
theorem contains_full (x : BitVec w) : (full w).Contains x :=
  ⟨Bounds.sContains_fullSigned x, Bounds.contains_fullUnsigned x, KnownBits.satisfies_unknown x⟩

end Constraint

namespace Value

variable {v o : Value w}

/-- Inclusion of the parts implies inclusion of the members. -/
theorem IsSubset.contains (h : v.IsSubset o) (hx : v.Contains x) : o.Contains x := by
  obtain ⟨hlo, hhi, hulo, huhi, hzeros, hones⟩ := h
  obtain ⟨⟨hxlo, hxhi⟩, ⟨hxulo, hxuhi⟩, hbits⟩ := hx
  refine ⟨⟨Word.sle_trans hlo hxlo, Word.sle_trans hxhi hhi⟩,
    ⟨BitVec.le_trans hulo hxulo, BitVec.le_trans hxuhi huhi⟩, ?_⟩
  rw [KnownBits.satisfies_iff] at hbits ⊢
  intro i
  constructor
  · intro hz
    exact (hbits i).1 (Word.and_not_eq_zero_iff.mp hzeros i hz)
  · intro ho
    exact (hbits i).2 (Word.and_not_eq_zero_iff.mp hones i ho)

/-- Every value includes itself. -/
theorem IsSubset.refl (v : Value w) : v.IsSubset v := by
  refine ⟨Word.sle_refl _, Word.sle_refl _, BitVec.le_refl _, BitVec.le_refl _, ?_, ?_⟩
  · exact BitVec.and_not_self _
  · exact BitVec.and_not_self _

/-- What a value includes is included in every value that includes it. -/
theorem IsSubset.trans {u : Value w} (hvo : v.IsSubset o) (hou : o.IsSubset u) : v.IsSubset u := by
  obtain ⟨hlo, hhi, hulo, huhi, hzeros, hones⟩ := hvo
  obtain ⟨hlo', hhi', hulo', huhi', hzeros', hones'⟩ := hou
  refine ⟨Word.sle_trans hlo' hlo, Word.sle_trans hhi hhi', BitVec.le_trans hulo' hulo,
    BitVec.le_trans huhi huhi', Word.and_not_eq_zero_iff.mpr ?_, Word.and_not_eq_zero_iff.mpr ?_⟩
  · intro i hi
    exact Word.and_not_eq_zero_iff.mp hzeros i (Word.and_not_eq_zero_iff.mp hzeros' i hi)
  · intro i hi
    exact Word.and_not_eq_zero_iff.mp hones i (Word.and_not_eq_zero_iff.mp hones' i hi)

/-- A value whose parts are tightest for a set is included in every value that contains the
set. -/
theorem isSubset_of_isTightest {M : BitVec w → Prop} (h : v.constraint.IsTightest M)
    (ho : ∀ x, M x → o.Contains x) : v.IsSubset o := by
  have hbits (i : Nat) (x : BitVec w) (hx : M x) := KnownBits.satisfies_iff.mp (ho x hx).2.2 i
  refine ⟨(ho _ h.signed_lo.1).1.1, (ho _ h.signed_hi.1).1.2, (ho _ h.unsigned_lo.1).2.1.1,
    (ho _ h.unsigned_hi.1).2.1.2, Word.and_not_eq_zero_iff.mpr ?_, Word.and_not_eq_zero_iff.mpr ?_⟩
  · intro i hi
    exact (h.zeros i (BitVec.lt_of_getLsbD hi)).mpr fun x hx => (hbits i x hx).1 hi
  · intro i hi
    exact (h.ones i (BitVec.lt_of_getLsbD hi)).mpr fun x hx => (hbits i x hx).2 hi

/-- A value whose constraint is canonical.  Its counter is any number, so that the values of all
policies are among them. -/
def IsCanonical (v : Value w) : Prop :=
  v.constraint.canonical? = some v.constraint

/-- A canonical value is included in every value that contains its members. -/
theorem IsCanonical.isSubset (h : v.IsCanonical) (ho : ∀ x, v.Contains x → o.Contains x) :
    v.IsSubset o :=
  isSubset_of_isTightest (Constraint.isTightest_of_canonical? h) ho

/-- Values with the same set include each other. -/
theorem SameSet.isSubset (h : v.SameSet o) : v.IsSubset o := by
  have heq : v.constraint = o.constraint := h
  have hrefl := IsSubset.refl o
  unfold IsSubset lo hi ulo uhi bits at hrefl ⊢
  rw [heq]
  exact hrefl

end Value

namespace Policy

variable {p : Policy} {a b v nv : Value w} {old limit : Option (Value w)} {c : Constraint w}
  {n : Int}

/-! ## Values of a policy -/

/-- A value that belongs to a policy: its constraint is canonical and its counter normal. -/
structure Valid (p : Policy) (v : Value w) : Prop where
  canonical : v.constraint.canonical? = some v.constraint
  normal : p.normalWiden v.constraint v.widen = v.widen

/-- The constraint of a value of a policy is tightest. -/
theorem Valid.isTightest (h : p.Valid v) : v.constraint.IsTightest v.constraint.Contains :=
  Constraint.isTightest_of_canonical? h.canonical

/-- The lower bound of a value of a policy is a member. -/
theorem Valid.contains_lo (h : p.Valid v) : v.Contains v.lo :=
  h.isTightest.signed_lo.1

/-- The masks of a value of a policy are disjoint. -/
theorem Valid.disjoint_bits (h : p.Valid v) : v.bits.Disjoint :=
  h.contains_lo.2.2.disjoint

/-- A value of a policy is included in every value that contains its members. -/
theorem Valid.isSubset {o : Value w} (h : p.Valid v) (ho : ∀ x, v.Contains x → o.Contains x) :
    v.IsSubset o :=
  Value.IsCanonical.isSubset h.canonical ho

/-- Normalising a counter twice changes nothing. -/
theorem normalWiden_normalWiden (p : Policy) (c : Constraint w) (n : Int) :
    p.normalWiden c (p.normalWiden c n) = p.normalWiden c n := by
  unfold normalWiden
  split
  · rfl
  · split <;> rfl

/-- A normal counter stays below every bound on the given one, zero and the budget. -/
theorem normalWiden_le {m : Int} (hzero : 0 ≤ m) (hmax : p.maxWiden ≤ m) (hn : n ≤ m) :
    p.normalWiden c n ≤ m := by
  unfold normalWiden
  split
  · exact hzero
  · split
    · exact hmax
    · exact hn

/-! ## Making values -/

/-- A constraint has a value unless it has no members. -/
theorem make?_eq_none_iff : p.make? c n = none ↔ ∀ x, ¬ c.Contains x := by
  rw [make?, Option.map_eq_none_iff, Constraint.canonical?_eq_none_iff]

/-- A constraint with a member has a value. -/
theorem exists_make? (p : Policy) (n : Int) (hx : c.Contains x) : ∃ v, p.make? c n = some v := by
  cases h : p.make? c n with
  | none => exact absurd hx (make?_eq_none_iff.mp h x)
  | some v => exact ⟨v, rfl⟩

/-- The value of a constraint has the canonical form and the normal counter. -/
theorem make?_eq_some_iff :
    p.make? c n = some v ↔
      c.canonical? = some v.constraint ∧ v.widen = p.normalWiden v.constraint n := by
  rw [make?, Option.map_eq_some_iff]
  constructor
  · rintro ⟨d, hd, rfl⟩
    exact ⟨hd, rfl⟩
  · rintro ⟨hd, hn⟩
    exact ⟨v.constraint, hd, by rw [← hn]⟩

/-- The value of a constraint has its members. -/
theorem contains_of_make? (h : p.make? c n = some v) : v.Contains x ↔ c.Contains x :=
  Constraint.contains_of_canonical? (make?_eq_some_iff.mp h).1

/-- The members of the value of a constraint, also if there is no such value. -/
theorem exists_make?_contains : (∃ v ∈ p.make? c n, v.Contains x) ↔ c.Contains x := by
  constructor
  · rintro ⟨v, hv, hx⟩
    exact (contains_of_make? hv).mp hx
  · intro hx
    obtain ⟨v, hv⟩ := exists_make? p n hx
    exact ⟨v, hv, (contains_of_make? hv).mpr hx⟩

/-- The value of a constraint belongs to the policy. -/
theorem valid_of_make? (h : p.make? c n = some v) : p.Valid v := by
  obtain ⟨hcanonical, hwiden⟩ := make?_eq_some_iff.mp h
  refine ⟨?_, ?_⟩
  · rw [Constraint.canonical?_congr fun x => Constraint.contains_of_canonical? hcanonical]
    exact hcanonical
  · rw [hwiden, normalWiden_normalWiden]

/-- The value of a constraint is canonical. -/
theorem isCanonical_of_make? (h : p.make? c n = some v) : v.IsCanonical :=
  (valid_of_make? h).canonical

/-- The counter of the value of a constraint stays below every bound on the given one, zero
and the budget. -/
theorem widen_le_of_make? {m : Int} (h : p.make? c n = some v) (hzero : 0 ≤ m)
    (hmax : p.maxWiden ≤ m) (hn : n ≤ m) : v.widen ≤ m := by
  rw [(make?_eq_some_iff.mp h).2]
  exact normalWiden_le hzero hmax hn

/-! ## All words and single words -/

/-- There is always a value of all words. -/
theorem domain?_eq_some (p : Policy) (w : Nat) : p.domain? w = some (p.domain w) := by
  obtain ⟨v, hv⟩ := exists_make? p p.maxWiden (Constraint.contains_full (0#w))
  rw [domain, domain?, hv, Option.getD_some]

/-- Every word is a member of the value of all words. -/
theorem contains_domain (p : Policy) (x : BitVec w) : (p.domain w).Contains x :=
  (contains_of_make? (domain?_eq_some p w)).mpr (Constraint.contains_full x)

/-- Only one word meets the constraint of that word. -/
theorem contains_constConstraint : (constConstraint x).Contains y ↔ y = x := by
  have hfull := Constraint.contains_full y
  constructor
  · rintro ⟨⟨hlo, hhi⟩, -⟩
    exact Word.sle_antisymm hhi hlo
  · rintro rfl
    exact ⟨⟨Word.sle_refl y, Word.sle_refl y⟩, hfull.2⟩

/-- There is always a value of a single word. -/
theorem const?_eq_some (p : Policy) (x : BitVec w) : p.const? x = some (p.const x) := by
  obtain ⟨v, hv⟩ := exists_make? p 0 (contains_constConstraint.mpr (Eq.refl x))
  rw [const, const?, hv, Option.getD_some]

/-- The value of a single word has that member only. -/
theorem contains_const (p : Policy) : (p.const x).Contains y ↔ y = x :=
  (contains_of_make? (const?_eq_some p x)).trans contains_constConstraint

/-- The words that meet a constraint of signed bounds only. -/
theorem contains_signedBounds {lo hi : BitVec w} :
    ({ Constraint.full w with signed := ⟨lo, hi⟩ } : Constraint w).Contains x ↔
      lo.toInt ≤ x.toInt ∧ x.toInt ≤ hi.toInt := by
  have hfull := Constraint.contains_full x
  rw [← Bounds.sContains_iff (b := ⟨lo, hi⟩)]
  exact ⟨fun hx => hx.1, fun hx => ⟨hx, hfull.2⟩⟩

/-- The words that meet a constraint of unsigned bounds only. -/
theorem contains_unsignedBounds {lo hi : BitVec w} :
    ({ Constraint.full w with unsigned := ⟨lo, hi⟩ } : Constraint w).Contains x ↔
      lo.toNat ≤ x.toNat ∧ x.toNat ≤ hi.toNat := by
  have hfull := Constraint.contains_full x
  rw [← Bounds.contains_iff (b := ⟨lo, hi⟩)]
  exact ⟨fun hx => hx.2.1, fun hx => ⟨hfull.1, hx, hfull.2.2⟩⟩

/-- The words between signed bounds. -/
theorem exists_range?_contains {lo hi : BitVec w} :
    (∃ v ∈ p.range? lo hi, v.Contains x) ↔ lo.toInt ≤ x.toInt ∧ x.toInt ≤ hi.toInt :=
  exists_make?_contains.trans contains_signedBounds

/-- The words between unsigned bounds. -/
theorem exists_urange?_contains {lo hi : BitVec w} :
    (∃ v ∈ p.urange? lo hi, v.Contains x) ↔ lo.toNat ≤ x.toNat ∧ x.toNat ≤ hi.toNat :=
  exists_make?_contains.trans contains_unsignedBounds

/-- The members of a value of signed bounds. -/
theorem contains_of_range? {lo hi : BitVec w} (h : p.range? lo hi = some v) :
    v.Contains x ↔ lo.toInt ≤ x.toInt ∧ x.toInt ≤ hi.toInt :=
  (contains_of_make? h).trans contains_signedBounds

/-- A common set has all words between its bounds. -/
theorem contains_commonSet (s : CommonSet) {x : BitVec 32} :
    s.value.Contains x ↔ s.bounds.lo.toInt ≤ x.toInt ∧ x.toInt ≤ s.bounds.hi.toInt :=
  contains_of_range? (p := Policy.default) (Option.some_get s.isSome_value?).symm

/-- The members of a value of unsigned bounds. -/
theorem contains_of_urange? {lo hi : BitVec w} (h : p.urange? lo hi = some v) :
    v.Contains x ↔ lo.toNat ≤ x.toNat ∧ x.toNat ≤ hi.toNat :=
  (contains_of_make? h).trans contains_unsignedBounds

/-! ## Hulls -/

/-- The joined parts of two constraints admit the members of the first. -/
theorem contains_hullConstraint_left {d : Constraint w} (hx : c.Contains x) :
    (hullConstraint c d).Contains x := by
  obtain ⟨hs, hu, hbits⟩ := hx
  rw [Bounds.sContains_iff] at hs
  rw [Bounds.contains_iff] at hu
  refine ⟨?_, ?_, ?_⟩
  · rw [Bounds.sContains_iff]
    simp only [hullConstraint, Word.toInt_smin, Word.toInt_smax]
    omega
  · rw [Bounds.contains_iff]
    simp only [hullConstraint, Word.toNat_umin, Word.toNat_umax]
    omega
  · rw [KnownBits.satisfies_iff] at hbits ⊢
    intro i
    simp only [hullConstraint, KnownBits.common, BitVec.getLsbD_and, Bool.and_eq_true]
    exact ⟨fun hz => (hbits i).1 hz.1, fun ho => (hbits i).2 ho.1⟩

/-- Joining the parts of two constraints does not depend on their order. -/
theorem hullConstraint_comm (c d : Constraint w) : hullConstraint c d = hullConstraint d c := by
  unfold hullConstraint KnownBits.common
  have hslo : Word.smin c.signed.lo d.signed.lo = Word.smin d.signed.lo c.signed.lo :=
    BitVec.eq_of_toInt_eq (by rw [Word.toInt_smin, Word.toInt_smin, Int.min_comm])
  have hshi : Word.smax c.signed.hi d.signed.hi = Word.smax d.signed.hi c.signed.hi :=
    BitVec.eq_of_toInt_eq (by rw [Word.toInt_smax, Word.toInt_smax, Int.max_comm])
  have hulo : Word.umin c.unsigned.lo d.unsigned.lo = Word.umin d.unsigned.lo c.unsigned.lo :=
    BitVec.eq_of_toNat_eq (by rw [Word.toNat_umin, Word.toNat_umin, Nat.min_comm])
  have huhi : Word.umax c.unsigned.hi d.unsigned.hi = Word.umax d.unsigned.hi c.unsigned.hi :=
    BitVec.eq_of_toNat_eq (by rw [Word.toNat_umax, Word.toNat_umax, Nat.max_comm])
  rw [hslo, hshi, hulo, huhi, BitVec.and_comm c.bits.zeros, BitVec.and_comm c.bits.ones]

/-- The joined parts of two constraints admit the members of the second. -/
theorem contains_hullConstraint_right {d : Constraint w} (hx : d.Contains x) :
    (hullConstraint c d).Contains x := by
  rw [hullConstraint_comm]
  exact contains_hullConstraint_left hx

/-- Two values of a policy have a hull. -/
theorem hull?_eq_some (ha : p.Valid a) (b : Value w) : p.hull? a b = some (p.hull a b) := by
  have hsome : ∃ v, p.hull? a b = some v := by
    unfold hull?
    split
    · exact ⟨a, rfl⟩
    · exact exists_make? p _ (contains_hullConstraint_left ha.contains_lo)
  obtain ⟨v, hv⟩ := hsome
  rw [hull, hv, Option.getD_some]

/-- A hull belongs to the policy. -/
theorem valid_of_hull? (ha : p.Valid a) (h : p.hull? a b = some v) : p.Valid v := by
  unfold hull? at h
  split at h
  · cases h
    exact ha
  · exact valid_of_make? h

/-- The hull of different values contains the words that meet the joined parts. -/
theorem contains_hull (hne : a ≠ b)
    (hx : (hullConstraint a.constraint b.constraint).Contains x) : (p.hull a b).Contains x := by
  obtain ⟨v, hv⟩ := exists_make? p (max a.widen b.widen) hx
  rw [hull, hull?, if_neg hne, hv, Option.getD_some]
  exact (contains_of_make? hv).mpr hx

/-- A hull contains the members of the first value. -/
theorem contains_hull_left (hx : a.Contains x) : (p.hull a b).Contains x := by
  by_cases hab : a = b
  · rw [hull, hull?, if_pos hab]
    exact hx
  · exact contains_hull hab (contains_hullConstraint_left hx)

/-- A hull contains the members of the second value. -/
theorem contains_hull_right (hx : b.Contains x) : (p.hull a b).Contains x := by
  by_cases hab : a = b
  · rw [hull, hull?, if_pos hab, hab]
    exact hx
  · exact contains_hull hab (contains_hullConstraint_right hx)

/-! ## Intersections -/

/-- The combined parts of two constraints admit the common members. -/
theorem contains_intersectConstraint {d : Constraint w} :
    (intersectConstraint c d).Contains x ↔ c.Contains x ∧ d.Contains x := by
  unfold Constraint.Contains
  rw [Bounds.sContains_iff, Bounds.contains_iff, Bounds.sContains_iff, Bounds.contains_iff,
    Bounds.sContains_iff, Bounds.contains_iff]
  simp only [intersectConstraint, KnownBits.satisfies_both, Word.toInt_smin, Word.toInt_smax,
    Word.toNat_umin, Word.toNat_umax]
  constructor
  · rintro ⟨hs, hu, hc, hd⟩
    refine ⟨⟨?_, ?_, hc⟩, ⟨?_, ?_, hd⟩⟩ <;> omega
  · rintro ⟨⟨hcs, hcu, hc⟩, ⟨hds, hdu, hd⟩⟩
    refine ⟨?_, ?_, hc, hd⟩ <;> omega

/-- An intersection has exactly the common members. -/
theorem contains_of_intersect? (h : p.intersect? a b = some v) :
    v.Contains x ↔ a.Contains x ∧ b.Contains x := by
  unfold intersect? at h
  split at h
  · rename_i hab
    cases h
    rw [← hab, and_self]
  · exact (contains_of_make? h).trans contains_intersectConstraint

/-- Values without an intersection have no common member. -/
theorem not_contains_of_intersect? (h : p.intersect? a b = none) (hx : a.Contains x) :
    ¬ b.Contains x := by
  intro hb
  unfold intersect? at h
  split at h
  · cases h
  · exact make?_eq_none_iff.mp h x (contains_intersectConstraint.mpr ⟨hx, hb⟩)

/-- An intersection belongs to the policy. -/
theorem valid_of_intersect? (ha : p.Valid a) (h : p.intersect? a b = some v) : p.Valid v := by
  unfold intersect? at h
  split at h
  · cases h
    exact ha
  · exact valid_of_make? h

/-! ## Widening -/

/-- Where a fully widened value comes from. -/
theorem widenFully?_cases (h : p.widenFully? nv limit = some v) :
    p.domain? w = some v ∨
      (p.make? (abandonBounds nv limit) p.maxWiden = some v ∧ nv.IsSubset v) := by
  unfold widenFully? at h
  split at h
  · exact Or.inl h
  · rename_i u hu
    split at h
    · rename_i hsubset
      cases h
      exact Or.inr ⟨hu, hsubset⟩
    · exact Or.inl h

/-- Where a widened value comes from: it is the new value, an old value that covers it, the
value of all words, the new value counted up, or what is left of it within the limit. -/
theorem widen?_cases (h : p.widen? nv old limit = some v) :
    v = nv ∨ (old = some v ∧ nv.IsSubset v) ∨ p.domain? w = some v ∨
      (nv.widen < p.maxWiden ∧ p.make? nv.constraint (nv.widen + 1) = some v) ∨
      (p.make? (abandonBounds nv limit) p.maxWiden = some v ∧ nv.IsSubset v) := by
  unfold widen? at h
  split at h
  · exact Or.inl (Option.some.inj h).symm
  · rename_i o
    split at h
    · rename_i hsame
      cases h
      exact Or.inr (Or.inl ⟨rfl, hsame.isSubset⟩)
    · split at h
      · rename_i hsubset
        cases h
        exact Or.inr (Or.inl ⟨rfl, hsubset⟩)
      · split at h
        · exact Or.inr (Or.inr (Or.inl h))
        · split at h
          · exact Or.inl (Option.some.inj h).symm
          · split at h
            · exact Or.inl (Option.some.inj h).symm
            · split at h
              · rename_i hbudget
                exact Or.inr (Or.inr (Or.inr (Or.inl ⟨hbudget, h⟩)))
              · rcases widenFully?_cases h with hdomain | hlimit
                · exact Or.inr (Or.inr (Or.inl hdomain))
                · exact Or.inr (Or.inr (Or.inr (Or.inr hlimit)))

/-- A value that has used up its budget can be widened. -/
theorem exists_widenFully? (p : Policy) (nv : Value w) (limit : Option (Value w)) :
    ∃ v, p.widenFully? nv limit = some v := by
  unfold widenFully?
  split
  · exact ⟨_, domain?_eq_some p w⟩
  · split
    · exact ⟨_, rfl⟩
    · exact ⟨_, domain?_eq_some p w⟩

/-- A value of any policy can be widened. -/
theorem widen?_eq_some {q : Policy} (h : q.Valid nv) (old limit : Option (Value w)) :
    p.widen? nv old limit = some (p.widen nv old limit) := by
  have hsome : ∃ v, p.widen? nv old limit = some v := by
    unfold widen?
    split
    · exact ⟨_, rfl⟩
    · split
      · exact ⟨_, rfl⟩
      · split
        · exact ⟨_, rfl⟩
        · split
          · exact ⟨_, domain?_eq_some p w⟩
          · split
            · exact ⟨_, rfl⟩
            · split
              · exact ⟨_, rfl⟩
              · split
                · exact exists_make? p _ h.contains_lo
                · exact exists_widenFully? p nv limit
  obtain ⟨v, hv⟩ := hsome
  rw [widen, hv, Option.getD_some]

/-- A widened value belongs to the policy. -/
theorem valid_of_widen? (hnv : p.Valid nv) (hold : ∀ o, old = some o → p.Valid o)
    (h : p.widen? nv old limit = some v) : p.Valid v := by
  rcases widen?_cases h with rfl | ⟨ho, -⟩ | hdomain | ⟨-, hmake⟩ | ⟨hmake, -⟩
  · exact hnv
  · exact hold v ho
  · exact valid_of_make? hdomain
  · exact valid_of_make? hmake
  · exact valid_of_make? hmake

/-- A widened value contains the members of the new value. -/
theorem contains_widen (hx : nv.Contains x) : (p.widen nv old limit).Contains x := by
  unfold widen
  cases hwiden : p.widen? nv old limit with
  | none => exact hx
  | some v =>
      rw [Option.getD_some]
      rcases widen?_cases hwiden with rfl | ⟨-, hsubset⟩ | hdomain | ⟨-, hmake⟩ | ⟨-, hsubset⟩
      · exact hx
      · exact hsubset.contains hx
      · exact (contains_of_make? hdomain).mpr (Constraint.contains_full x)
      · exact (contains_of_make? hmake).mpr hx
      · exact hsubset.contains hx

/-- An old value that covers the new one stays. -/
theorem widen_of_isSubset {o : Value w} (h : nv.IsSubset o) : p.widen nv (some o) limit = o := by
  unfold widen widen?
  simp only [if_pos h, ite_self, Option.getD_some]

/-- Values of which neither includes the other are widened to all words. -/
theorem widen_of_not_isSubset {o : Value w} (h : ¬ nv.IsSubset o) (ho : ¬ o.IsSubset nv) :
    p.widen nv (some o) limit = p.domain w := by
  have hsame : ¬ nv.SameSet o := fun hsame => h hsame.isSubset
  unfold widen widen?
  simp only [if_neg hsame, if_neg h, if_pos ho, domain?_eq_some, Option.getD_some]

/-- A widened value contains the members of the old value. -/
theorem contains_widen_old {o : Value w} (hx : o.Contains x) :
    (p.widen nv (some o) limit).Contains x := by
  by_cases hsubset : nv.IsSubset o
  · rw [widen_of_isSubset hsubset]
    exact hx
  · by_cases hascends : o.IsSubset nv
    · exact contains_widen (hascends.contains hx)
    · rw [widen_of_not_isSubset hsubset hascends]
      exact contains_domain p x

/-- Widening that changes the old value adds a member. -/
theorem exists_contains_widen_of_ne {o : Value w} (hnv : p.Valid nv)
    (hne : p.widen nv (some o) limit ≠ o) :
    ∃ x, (p.widen nv (some o) limit).Contains x ∧ ¬ o.Contains x := by
  have hsubset : ¬ nv.IsSubset o := fun h => hne (widen_of_isSubset h)
  obtain ⟨x, hx⟩ := not_forall.mp fun h => hsubset (hnv.isSubset h)
  obtain ⟨hmember, hnot⟩ := Classical.not_imp.mp hx
  exact ⟨x, contains_widen hmember, hnot⟩

/-- Widening a widened value against the same new value changes nothing. -/
theorem widen_widen (hnv : nv.IsCanonical) :
    p.widen nv (some (p.widen nv old limit)) limit = p.widen nv old limit :=
  widen_of_isSubset (hnv.isSubset fun _ hx => contains_widen hx)

/-! ## Narrowing -/

/-- Where a narrowed value comes from: it is the new value or an old value that covers it. -/
theorem narrow_cases (p : Policy) (nv : Value w) (old : Option (Value w)) :
    p.narrow nv old = nv ∨
      (old = some (p.narrow nv old) ∧ nv.IsSubset (p.narrow nv old)) := by
  unfold narrow
  split
  · exact Or.inl rfl
  · split
    · exact Or.inl rfl
    · split
      · rename_i hsame
        exact Or.inr ⟨rfl, hsame.isSubset⟩
      · split
        · exact Or.inl rfl
        · split
          · exact Or.inl rfl
          · rename_i hsubset
            split
            · exact Or.inl rfl
            · split
              · exact Or.inr ⟨rfl, not_not.mp hsubset⟩
              · exact Or.inl rfl

/-- A narrowed value belongs to the policy. -/
theorem valid_narrow (hnv : p.Valid nv) (hold : ∀ o, old = some o → p.Valid o) :
    p.Valid (p.narrow nv old) := by
  rcases narrow_cases p nv old with heq | ⟨ho, -⟩
  · rw [heq]
    exact hnv
  · exact hold _ ho

/-- A narrowed value contains the members of the new value. -/
theorem contains_narrow (hx : nv.Contains x) : (p.narrow nv old).Contains x := by
  rcases narrow_cases p nv old with heq | ⟨-, hsubset⟩
  · rw [heq]
    exact hx
  · exact hsubset.contains hx

/-- Narrowing a value to itself changes nothing. -/
theorem narrow_self (p : Policy) (nv : Value w) : p.narrow nv (some nv) = nv := by
  have hsame : nv.SameSet nv := rfl
  unfold narrow
  simp only [if_pos hsame, ite_self]

/-- Narrowing a narrowed value to the same new value changes nothing. -/
theorem narrow_narrow (p : Policy) (nv : Value w) (old : Option (Value w)) :
    p.narrow nv (some (p.narrow nv old)) = p.narrow nv old := by
  rcases narrow_cases p nv old with heq | ⟨ho, -⟩
  · rw [heq, narrow_self]
  · rw [← ho]

end Policy
end WordRanges
