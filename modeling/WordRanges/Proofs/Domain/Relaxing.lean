import WordRanges.Proofs.Domain.Converging

/-!
# Bounds that are given up

Widening gives up the bounds of a value that has spent its budget.  If the limit covers the value,
the words of the limit that agree with its known bits are left; a limit that does not cover the
value gives way to all words.  Giving up bounds within a covering limit is therefore never without
a result, never loses a known bit and never leaves the limit.

Main results:

- Theorem {lit}`Policy.contains_of_widenFully?`: which words are left.
- Theorem {lit}`Policy.Ascends.relaxes`: an ascending step keeps the parts of the new value or
  gives up its bounds.
- Theorem {lit}`Policy.widen_keeps_bits`: an ascending step within a covering limit keeps the known
  bits and stays within the limit.
-/

namespace WordRanges
namespace Policy

variable {w : Nat} {p q : Policy} {nv old v : Value w} {limit : Option (Value w)} {x : BitVec w}

/-! ## The words that are left -/

/-- A word is left of a value whose bounds are given up: it agrees with the known bits and lies
within the limit.  Every word is left if the limit does not cover the value. -/
def Leaves (nv : Value w) (limit : Option (Value w)) (x : BitVec w) : Prop :=
  (∀ l ∈ limit, nv.IsSubset l) → nv.bits.Satisfies x ∧ ∀ l ∈ limit, l.Contains x

/-- The members of a value are left when its bounds are given up. -/
theorem leaves_of_contains (limit : Option (Value w)) (hx : nv.Contains x) :
    Leaves nv limit x :=
  fun hlimit => ⟨hx.2.2, fun l hl => (hlimit l hl).contains hx⟩

/-- Within a covering limit there is always something left, and it covers the value. -/
theorem widenFully?_of_covers (p : Policy) (hnv : q.Valid nv)
    (hlimit : ∀ l ∈ limit, nv.IsSubset l) :
    p.widenFully? nv limit = p.make? (abandonBounds nv limit) p.maxWiden := by
  have hleft (y : BitVec w) (hy : nv.Contains y) : (abandonBounds nv limit).Contains y :=
    contains_abandonBounds.mpr (leaves_of_contains limit hy hlimit)
  obtain ⟨v, hv⟩ := exists_make? p p.maxWiden (hleft nv.lo hnv.contains_lo)
  have hsubset : nv.IsSubset v := by
    apply hnv.isSubset
    intro y hy
    exact (contains_of_make? hv).mpr (hleft y hy)
  simp only [widenFully?, hv, if_pos hsubset]

/-- A limit that does not cover the value gives way to all words. -/
theorem widenFully?_of_not_covers (p : Policy) (hnv : q.Valid nv)
    (hlimit : ¬ ∀ l ∈ limit, nv.IsSubset l) : p.widenFully? nv limit = p.domain? w := by
  unfold widenFully?
  split
  · rfl
  · rename_i v hv
    rw [if_neg]
    intro hsubset
    -- What is left lies within the limit, so the limit would cover the value.
    refine hlimit fun l hl => hnv.isSubset fun y hy => ?_
    exact (contains_abandonBounds.mp ((contains_of_make? hv).mp (hsubset.contains hy))).2 l hl

/-- A value that has spent its budget becomes exactly the words that are left of it. -/
theorem contains_of_widenFully? (hnv : q.Valid nv) (h : p.widenFully? nv limit = some v) :
    v.Contains x ↔ Leaves nv limit x := by
  by_cases hlimit : ∀ l ∈ limit, nv.IsSubset l
  · rw [widenFully?_of_covers p hnv hlimit] at h
    rw [contains_of_make? h, contains_abandonBounds]
    exact ⟨fun hleft _ => hleft, fun hleft => hleft hlimit⟩
  · rw [widenFully?_of_not_covers p hnv hlimit] at h
    have hmember : v.Contains x := (contains_of_make? h).mpr (Constraint.contains_full x)
    exact ⟨fun _ hcovers => absurd hcovers hlimit, fun _ => hmember⟩

/-! ## Widening a value that covers the old one -/

/-- A new value that covers the old one is widened by an ascending step, unless the old one covers
it too and stays. -/
theorem widen_cases_of_covers (p : Policy) (hnv : q.Valid nv) (hcovers : old.IsSubset nv)
    (limit : Option (Value w)) :
    nv.IsSubset old ∧ p.widen nv (some old) limit = old ∨
      ¬ nv.IsSubset old ∧ p.Ascends nv old limit (p.widen nv (some old) limit) := by
  by_cases hstays : nv.IsSubset old
  · exact .inl ⟨hstays, widen_of_isSubset hstays⟩
  · exact .inr ⟨hstays, ascends_widen hnv hcovers hstays⟩

/-- An ascending step within a covering limit keeps the parts of the new value, or it gives up
its bounds. -/
theorem Ascends.relaxes (h : p.Ascends nv old limit v) (hnv : q.Valid nv)
    (hlimit : ∀ l ∈ limit, nv.IsSubset l) :
    v.SameSet nv ∨ p.make? (abandonBounds nv limit) p.maxWiden = some v := by
  cases h with
  | constant => exact .inl rfl
  | counted => exact .inl rfl
  | counting _ _ _ hmake => exact .inl (hnv.constraint_of_make? hmake)
  | spent _ _ _ hfully =>
      rw [widenFully?_of_covers p hnv hlimit] at hfully
      exact .inr hfully

section Limits

variable (hnv : q.Valid nv) (hcovers : old.IsSubset nv) (hlimit : ∀ l ∈ limit, nv.IsSubset l)
include hnv hcovers hlimit

/-- Widening a value that covers the old one adds no member, or it gives up the bounds. -/
theorem widen_relaxes (p : Policy) :
    (p.widen nv (some old) limit).IsSubset nv ∨
      p.make? (abandonBounds nv limit) p.maxWiden = some (p.widen nv (some old) limit) := by
  rcases widen_cases_of_covers p hnv hcovers limit with ⟨-, heq⟩ | ⟨-, hascends⟩
  · left
    rw [heq]
    exact hcovers
  · exact (hascends.relaxes hnv hlimit).imp_left Value.SameSet.isSubset

/-- Widening a value that covers the old one neither loses nor gains a known bit. -/
theorem bits_widen (p : Policy) : (p.widen nv (some old) limit).bits = nv.bits := by
  have hsubset : nv.IsSubset (p.widen nv (some old) limit) := hnv.isSubset fun _ => contains_widen
  rcases widen_relaxes hnv hcovers hlimit p with hback | hmake
  · exact KnownBits.Refines.antisymm hback.2.2.2.2 hsubset.2.2.2.2
  · exact (bits_of_make?_abandonBounds hmake hsubset).symm

/-- Widening a value that covers the old one stays within a limit that covers the value. -/
theorem widen_isSubset_limit (p : Policy) :
    ∀ l ∈ limit, (p.widen nv (some old) limit).IsSubset l := by
  intro l hl
  rcases widen_relaxes hnv hcovers hlimit p with hback | hmake
  · exact hback.trans (hlimit l hl)
  · apply (valid_of_make? hmake).isSubset
    intro y hy
    exact (contains_abandonBounds.mp ((contains_of_make? hmake).mp hy)).2 l hl

/-- Widening a value that covers the old one has the members of the new value, or all words of
the limit that agree with its known bits. -/
theorem contains_widen_iff_or (p : Policy) :
    (∀ y, (p.widen nv (some old) limit).Contains y ↔ nv.Contains y) ∨
      ∀ y, (p.widen nv (some old) limit).Contains y ↔
        nv.bits.Satisfies y ∧ ∀ l ∈ limit, l.Contains y := by
  rcases widen_relaxes hnv hcovers hlimit p with hback | hmake
  · exact .inl fun y => ⟨hback.contains, contains_widen⟩
  · right
    intro y
    rw [contains_of_make? hmake, contains_abandonBounds]

end Limits

/-- Widening a value that was made and covers the old one, within no limit or one that covers the
value, always has a result.  The same bits are known of it as of the new value, and it is included
in the limit.  Its members are those of the new value, or all words of the limit that agree with
the known bits. -/
theorem widen_keeps_bits (p : Policy) (hnv : q.Makes nv) (hcovers : old.IsSubset nv)
    (hlimit : ∀ l ∈ limit, nv.IsSubset l) :
    p.widen? nv (some old) limit = some (p.widen nv (some old) limit) ∧
    (∀ i, (nv.bits.zeros.getLsbD i = true ↔
        (p.widen nv (some old) limit).bits.zeros.getLsbD i = true) ∧
      (nv.bits.ones.getLsbD i = true ↔
        (p.widen nv (some old) limit).bits.ones.getLsbD i = true)) ∧
    (∀ l ∈ limit, (p.widen nv (some old) limit).IsSubset l) ∧
    ((∀ x, (p.widen nv (some old) limit).Contains x ↔ nv.Contains x) ∨
      ∀ x, (p.widen nv (some old) limit).Contains x ↔
        nv.bits.Satisfies x ∧ ∀ l ∈ limit, l.Contains x) := by
  refine ⟨widen?_eq_some hnv.valid _ _, ?_, widen_isSubset_limit hnv.valid hcovers hlimit p,
    contains_widen_iff_or hnv.valid hcovers hlimit p⟩
  intro i
  rw [bits_widen hnv.valid hcovers hlimit p]
  exact ⟨Iff.rfl, Iff.rfl⟩

/-! ### Multiples of four within the even words -/

namespace Spreading

/-- The multiples of four from minus eight to forty, whose budget is spent. -/
def fours : Value 8 :=
  ⟨⟨⟨-8, 40⟩, ⟨0, -4⟩, ⟨0x03, 0x00⟩⟩, 3⟩

/-- The multiples of four from minus sixty to ninety-six, whose budget is spent. -/
def manyFours : Value 8 :=
  ⟨⟨⟨-60, 96⟩, ⟨0, -4⟩, ⟨0x03, 0x00⟩⟩, 3⟩

/-- The even words from minus seventy to one hundred and ten. -/
def even : Value 8 :=
  ⟨⟨⟨-70, 110⟩, ⟨0, -2⟩, ⟨0x01, 0x00⟩⟩, 0⟩

theorem makes_manyFours : Policy.default.Makes manyFours :=
  Valid.makes ⟨by decide +kernel, by decide⟩

/-- The multiples of four spread on both sides of zero and keep both of their known bits, though
the limit knows only one of them.  They stay within the limit. -/
theorem fours_within_even : Policy.default.Makes manyFours ∧ fours.IsSubset manyFours ∧
    manyFours.IsSubset even ∧
    (Policy.default.widen manyFours (some fours) (some even)).bits.zeros.getLsbD 1 = true ∧
    (Policy.default.widen manyFours (some fours) (some even)).IsSubset even ∧
    (Policy.default.widen manyFours (some fours) (some even)).Contains 108 := by
  have hcovers : fours.IsSubset manyFours := by decide
  have hlimit : ∀ l ∈ some even, manyFours.IsSubset l := by
    rintro l ⟨⟩
    decide
  obtain ⟨-, hbits, hwithin, -⟩ :=
    widen_keeps_bits Policy.default makes_manyFours hcovers hlimit
  exact ⟨makes_manyFours, hcovers, hlimit even rfl, (hbits 1).1.mp (by decide),
    hwithin even rfl, by decide +kernel⟩

end Spreading

end Policy
end WordRanges
