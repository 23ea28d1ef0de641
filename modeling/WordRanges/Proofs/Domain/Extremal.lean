import WordRanges.Proofs.Domain.Combining

/-!
# Least hulls and greatest intersections

The hull of two values is the least value with the members of both, and their intersection is
the greatest value that both include.  The joined parts of a hull are tight as they are.  The
combined parts of an intersection need not be, and that they contradict each other may show only
once bounds and known bits are settled together; settling keeps exactly the common members.

The operands may come from different policies, since only counters depend on the policy.

Main results:

- Theorem {lit}`Policy.hull_isLeast`: a hull is the least value with the members of both operands.
- Theorem {lit}`Policy.intersect?_isGreatest`: an intersection is the greatest value within both
  operands, and it is missing exactly if they have no common member.
-/

namespace WordRanges
namespace Policy

variable {w : Nat} {p q r : Policy} {a b v : Value w}

/-! ## The least hull -/

/-- A hull is made under its policy, or it is one of two equal operands. -/
theorem makes_hull (p : Policy) (ha : q.Makes a) (hb : r.Makes b) :
    p.Makes (p.hull a b) ∨ q.Makes (p.hull a b) := by
  by_cases hab : a = b
  · right
    rw [← hab, hull_self]
    exact ha
  · left
    have hmake := (constraint_hull p ha.valid hb.valid).1
    rw [hull?, if_neg hab] at hmake
    exact (valid_of_make? hmake).makes

/-- The hull of two values that were made always exists and is the least value with the members
of both.  Its bounds are the smaller and the larger ones in both orders, and its known bits are
those known in both; these parts are canonical as they are joined. -/
theorem hull_isLeast (p : Policy) (ha : q.Makes a) (hb : r.Makes b) :
    (p.hull? a b = some (p.hull a b) ∧ (p.Makes (p.hull a b) ∨ q.Makes (p.hull a b))) ∧
    (∀ x, a.Contains x ∨ b.Contains x → (p.hull a b).Contains x) ∧
    (∀ c : Value w, (∀ x, a.Contains x ∨ b.Contains x → c.Contains x) →
      (p.hull a b).IsSubset c) ∧
    ((p.hull a b).lo.toInt = min a.lo.toInt b.lo.toInt ∧
      (p.hull a b).hi.toInt = max a.hi.toInt b.hi.toInt) ∧
    ((p.hull a b).ulo.toNat = min a.ulo.toNat b.ulo.toNat ∧
      (p.hull a b).uhi.toNat = max a.uhi.toNat b.uhi.toNat) ∧
    ((p.hull a b).bits.zeros = a.bits.zeros &&& b.bits.zeros ∧
      (p.hull a b).bits.ones = a.bits.ones &&& b.bits.ones) ∧
    (hullConstraint a.constraint b.constraint).canonical? = some (p.hull a b).constraint ∧
    (p.hull a b).constraint = hullConstraint a.constraint b.constraint := by
  obtain ⟨hsome, hparts⟩ := constraint_hull p ha.valid hb.valid
  have htightest := ha.valid.isTightest_hull hb.valid
  have hleast : (p.hull a b).constraint.IsTightest fun x => a.Contains x ∨ b.Contains x := by
    rw [hparts]
    exact htightest
  refine ⟨⟨hsome, makes_hull p ha hb⟩, fun x hx => hleast.contains hx,
    fun c hc => Value.isSubset_of_isTightest hleast hc, ?_, ?_, ?_, ?_, hparts⟩
  · rw [Value.lo, Value.hi, hparts]
    exact ⟨Word.toInt_smin _ _, Word.toInt_smax _ _⟩
  · rw [Value.ulo, Value.uhi, hparts]
    exact ⟨Word.toNat_umin _ _, Word.toNat_umax _ _⟩
  · rw [Value.bits, hparts]
    exact ⟨rfl, rfl⟩
  · rw [hparts]
    exact htightest.canonical?_eq

/-! ### Two words around zero and two words above them -/

namespace Strided

/-- The value of minus three and five. -/
def around : Value 8 :=
  ⟨⟨⟨-3, 5⟩, ⟨5, -3⟩, ⟨0x02, 0x05⟩⟩, 0⟩

/-- The value of nine and thirteen. -/
def above : Value 8 :=
  ⟨⟨⟨9, 13⟩, ⟨9, 13⟩, ⟨0xf2, 0x09⟩⟩, 0⟩

/-- The value of the odd words from minus three to thirteen. -/
def odd : Value 8 :=
  ⟨⟨⟨-3, 13⟩, ⟨1, -1⟩, ⟨0x00, 0x01⟩⟩, 0⟩

theorem makes_around : Policy.default.Makes around :=
  Valid.makes ⟨by decide +kernel, by decide⟩

theorem makes_above : (Policy.mk 0 0 0).Makes above :=
  Valid.makes ⟨by decide +kernel, by decide⟩

/-- The hull keeps the gap at zero and both known bits, so it is smaller than the odd words. -/
theorem hull_around_above : Policy.default.Makes around ∧ (Policy.mk 0 0 0).Makes above ∧
    (Policy.default.hull around above).IsSubset odd ∧
    (Policy.default.hull around above).ulo.toNat = 5 ∧
    (Policy.default.hull around above).uhi.toNat = 253 ∧
    (Policy.default.hull around above).bits = ⟨0x02, 0x01⟩ := by
  obtain ⟨-, -, hleast, -, ⟨hulo, huhi⟩, ⟨hzeros, hones⟩, -⟩ :=
    hull_isLeast Policy.default makes_around makes_above
  have haround : around.IsSubset odd := by decide
  have habove : above.IsSubset odd := by decide
  refine ⟨makes_around, makes_above, hleast odd ?_, hulo.trans (by decide),
    huhi.trans (by decide), ?_⟩
  · rintro x (hx | hx)
    · exact haround.contains hx
    · exact habove.contains hx
  · exact congrArg₂ KnownBits.mk (hzeros.trans (by decide)) (hones.trans (by decide))

end Strided

/-! ## The greatest intersection -/

/-- An intersection is made under its policy, or it is one of two equal operands. -/
theorem makes_of_intersect? (ha : q.Makes a) (h : p.intersect? a b = some v) :
    p.Makes v ∨ q.Makes v := by
  unfold intersect? at h
  split at h
  · cases h
    exact .inr ha
  · exact .inl (valid_of_make? h).makes

/-- An intersection is missing exactly if there is no common member. -/
theorem intersect?_eq_none_iff (ha : q.Valid a) :
    p.intersect? a b = none ↔ ∀ x, ¬ (a.Contains x ∧ b.Contains x) := by
  constructor
  · rintro h x ⟨hxa, hxb⟩
    exact not_contains_of_intersect? h hxa hxb
  · intro hdisjoint
    unfold intersect?
    split
    · rename_i hab
      have hlo := ha.contains_lo
      exact absurd ⟨hlo, hab ▸ hlo⟩ (hdisjoint a.lo)
    · exact make?_eq_none_iff.mpr fun x hx => hdisjoint x (contains_intersectConstraint.mp hx)

/-- The intersection of two values that were made is missing exactly if they have no common
member.  Otherwise it has the common members and is the greatest value that both include, among
the values that any policy makes. -/
theorem intersect?_isGreatest (p : Policy) (ha : q.Makes a) (b : Value w) :
    (p.intersect? a b = none ↔ ∀ x, ¬ (a.Contains x ∧ b.Contains x)) ∧
    ∀ v, p.intersect? a b = some v →
      (p.Makes v ∨ q.Makes v) ∧ (∀ x, v.Contains x ↔ a.Contains x ∧ b.Contains x) ∧
      (v.IsSubset a ∧ v.IsSubset b) ∧
      ∀ (s : Policy) (c : Value w), s.Makes c → c.IsSubset a → c.IsSubset b → c.IsSubset v := by
  refine ⟨intersect?_eq_none_iff ha.valid, fun v hv => ?_⟩
  have hmembers (x : BitVec w) : v.Contains x ↔ a.Contains x ∧ b.Contains x :=
    contains_of_intersect? hv
  have hmakes := makes_of_intersect? ha hv
  obtain ⟨s, hs⟩ : ∃ s : Policy, s.Valid v :=
    hmakes.elim (fun h => ⟨p, h.valid⟩) fun h => ⟨q, h.valid⟩
  refine ⟨hmakes, hmembers, ⟨?_, ?_⟩, ?_⟩
  · exact hs.isSubset fun x hx => ((hmembers x).mp hx).1
  · exact hs.isSubset fun x hx => ((hmembers x).mp hx).2
  · intro s c hc hca hcb
    exact hc.valid.isSubset fun x hx => (hmembers x).mpr ⟨hca.contains hx, hcb.contains hx⟩

/-! ### Words that leave remainder one or three -/

namespace Strided

/-- The words from minus seven to thirteen that leave remainder one when divided by four. -/
def remainderOne : Value 8 :=
  ⟨⟨⟨-7, 13⟩, ⟨1, -3⟩, ⟨0x02, 0x01⟩⟩, 0⟩

/-- The words from minus five to eleven that leave remainder three when divided by four. -/
def remainderThree : Value 8 :=
  ⟨⟨⟨-5, 11⟩, ⟨3, -1⟩, ⟨0x00, 0x03⟩⟩, 0⟩

/-- The words from minus four to seven. -/
def small : Value 8 :=
  ⟨⟨⟨-4, 7⟩, ⟨0, -1⟩, ⟨0x00, 0x00⟩⟩, 0⟩

theorem makes_remainderOne : Policy.default.Makes remainderOne :=
  Valid.makes ⟨by decide +kernel, by decide⟩

/-- All bounds of the two remainders overlap on both sides of zero, but they have no common
member.  The small words do have common members with remainder one, which minus three and five
are among. -/
theorem remainders_disjoint : Policy.default.Makes remainderOne ∧
    (∀ x, ¬ (remainderOne.Contains x ∧ remainderThree.Contains x)) ∧
    ∃ v, Policy.default.intersect? remainderOne small = some v ∧ around.IsSubset v ∧
      v.Contains 1 ∧ ¬ v.Contains 2 ∧ v.IsSubset small := by
  have hsome : (Policy.default.intersect? remainderOne small).isSome = true := by decide +kernel
  obtain ⟨v, hv⟩ := Option.isSome_iff_exists.mp hsome
  obtain ⟨hmembers, ⟨-, hsmall⟩, hgreatest⟩ :=
    ((intersect?_isGreatest Policy.default makes_remainderOne small).2 v hv).2
  refine ⟨makes_remainderOne, ?_, v, hv, ?_, ?_, ?_, hsmall⟩
  · have hdisjoint := intersect?_isGreatest Policy.default makes_remainderOne remainderThree
    exact hdisjoint.1.mp (by decide +kernel)
  · exact hgreatest Policy.default around makes_around (by decide) (by decide)
  · exact (hmembers 1).mpr (by decide)
  · exact mt (hmembers 2).mp (by decide)

end Strided

end Policy
end WordRanges
