import WordRanges.Proofs.Domain.Combining

/-!
# Widening covers and stays

A widened value has the members of the new and of the old value, however these and the limit are
related.  An old value that covers the new one stays as it is, with its counter, and it is the
only one that stays.

A new value that covers the old one and has further members is taken as it is if the old one is a
constant or if counting went up already; otherwise it is counted up, and once its budget is spent
its bounds are given up.

Main results:

- Theorem {lit}`Policy.ascends_widen`: how a value that covers the old one is widened.
- Theorem {lit}`Policy.widen_covers`: a widened value covers both values, and it is the old one
  exactly if that covers the new one.
-/

namespace WordRanges
namespace Policy

variable {w : Nat} {p q : Policy} {nv old v : Value w} {limit : Option (Value w)}

/-! ## Ascending steps -/

/-- What becomes of a new value that covers the old one and has further members. -/
inductive Ascends (p : Policy) (nv old : Value w) (limit : Option (Value w)) : Value w → Prop where
  /-- Constants grow without being counted. -/
  | constant (hconstant : old.constant? ≠ none) : Ascends p nv old limit nv
  /-- The new value is counted already. -/
  | counted (hvaries : old.constant? = none) (hcounted : old.widen < nv.widen) :
      Ascends p nv old limit nv
  /-- The new value is counted up within its budget. -/
  | counting {v : Value w} (hvaries : old.constant? = none) (hle : nv.widen ≤ old.widen)
      (hbudget : nv.widen < p.maxWiden) (hmake : p.make? nv.constraint (nv.widen + 1) = some v) :
      Ascends p nv old limit v
  /-- The budget is spent. -/
  | spent {v : Value w} (hvaries : old.constant? = none) (hle : nv.widen ≤ old.widen)
      (hspent : p.maxWiden ≤ nv.widen) (hfully : p.widenFully? nv limit = some v) :
      Ascends p nv old limit v

/-- A new value that covers the old one and has further members is widened by an ascending
step. -/
theorem ascends_widen (hnv : q.Valid nv) (hcovers : old.IsSubset nv)
    (hlarger : ¬ nv.IsSubset old) : p.Ascends nv old limit (p.widen nv (some old) limit) := by
  have hwiden := widen?_eq_some (p := p) hnv (some old) limit
  have hsame : ¬ nv.SameSet old := fun h => hlarger h.isSubset
  simp only [widen?, if_neg hsame, if_neg hlarger, hcovers, not_true_eq_false, if_false] at hwiden
  split at hwiden
  · rename_i hconstant
    rw [← Option.some.inj hwiden]
    exact .constant (Option.isSome_iff_ne_none.mp hconstant)
  · rename_i hvaries
    rw [Option.not_isSome_iff_eq_none] at hvaries
    split at hwiden
    · rename_i hcounted
      rw [← Option.some.inj hwiden]
      exact .counted hvaries hcounted
    · rename_i hle
      split at hwiden
      · rename_i hbudget
        exact .counting hvaries (Int.not_lt.mp hle) hbudget hwiden
      · rename_i hspent
        exact .spent hvaries (Int.not_lt.mp hle) (Int.not_lt.mp hspent) hwiden

/-- Counting up a value keeps its parts. -/
theorem Valid.constraint_of_make? {n : Int} (hnv : q.Valid nv)
    (h : p.make? nv.constraint n = some v) : v.constraint = nv.constraint :=
  Option.some.inj ((make?_eq_some_iff.mp h).1.symm.trans hnv.canonical)

/-- An ascending step makes a value of the policy. -/
theorem Ascends.valid (h : p.Ascends nv old limit v) (hnv : p.Valid nv) : p.Valid v := by
  cases h with
  | constant => exact hnv
  | counted => exact hnv
  | counting _ _ _ hmake => exact valid_of_make? hmake
  | spent _ _ _ hfully =>
      rcases widenFully?_cases hfully with hdomain | ⟨hmake, -⟩
      · exact valid_of_make? hdomain
      · exact valid_of_make? hmake

/-- An ascending step covers the new value. -/
theorem Ascends.isSubset (h : p.Ascends nv old limit v) (hnv : q.Valid nv) : nv.IsSubset v := by
  cases h with
  | constant => exact .refl nv
  | counted => exact .refl nv
  | counting _ _ _ hmake =>
      have hsame : nv.SameSet v := (hnv.constraint_of_make? hmake).symm
      exact hsame.isSubset
  | spent _ _ _ hfully =>
      rcases widenFully?_cases hfully with hdomain | ⟨-, hcovers⟩
      · exact hnv.isSubset fun y _ =>
          (contains_of_make? hdomain).mpr (Constraint.contains_full y)
      · exact hcovers

/-! ## Covering both values -/

/-- Widening a value that was made against any old value and within any limit always has a
result.  It has the members of both values, and it is the old value, counter included, exactly if
that has all members of the new one. -/
theorem widen_covers (p : Policy) (hnv : q.Makes nv) (old : Value w) (limit : Option (Value w)) :
    p.widen? nv (some old) limit = some (p.widen nv (some old) limit) ∧
    (∀ x, nv.Contains x → (p.widen nv (some old) limit).Contains x) ∧
    (∀ x, old.Contains x → (p.widen nv (some old) limit).Contains x) ∧
    (p.widen nv (some old) limit = old ↔ ∀ x, nv.Contains x → old.Contains x) := by
  refine ⟨widen?_eq_some hnv.valid _ _, fun x => contains_widen, fun x => contains_widen_old, ?_⟩
  constructor
  · intro hstays x hx
    have hcovered : (p.widen nv (some old) limit).Contains x := contains_widen hx
    rwa [hstays] at hcovered
  · intro hsubset
    exact widen_of_isSubset (hnv.valid.isSubset hsubset)

/-! ### A limit that gives way -/

namespace Spent

/-- The words from zero to nine, whose budget is spent. -/
def digits : Value 8 :=
  ⟨⟨⟨0, 9⟩, ⟨0, 9⟩, ⟨0xf0, 0⟩⟩, 3⟩

/-- The words from zero to nineteen, whose budget is spent. -/
def teens : Value 8 :=
  ⟨⟨⟨0, 19⟩, ⟨0, 19⟩, ⟨0xe0, 0⟩⟩, 3⟩

/-- The odd words below a hundred. -/
def odd : Value 8 :=
  ⟨⟨⟨1, 99⟩, ⟨1, 99⟩, ⟨0x80, 1⟩⟩, 0⟩

theorem makes_digits : Policy.default.Makes digits :=
  Valid.makes ⟨by decide +kernel, by decide⟩

theorem makes_teens : Policy.default.Makes teens :=
  Valid.makes ⟨by decide +kernel, by decide⟩

/-- Within a limit that lacks even words, the wider words still cover eighteen and replace the
digits.  The digits do not replace the wider words. -/
theorem odd_gives_way : Policy.default.Makes teens ∧ Policy.default.Makes digits ∧
    (Policy.default.widen teens (some digits) (some odd)).Contains 18 ∧
    (Policy.default.widen teens (some digits) (some odd)).Contains 8 ∧
    Policy.default.widen teens (some digits) (some odd) ≠ digits ∧
    Policy.default.widen digits (some teens) (some odd) = teens := by
  obtain ⟨-, hnew, hold, hstays⟩ := widen_covers Policy.default makes_teens digits (some odd)
  obtain ⟨-, -, -, hcovered⟩ := widen_covers Policy.default makes_digits teens (some odd)
  have hsubset : digits.IsSubset teens := by decide
  refine ⟨makes_teens, makes_digits, hnew 18 (by decide), hold 8 (by decide), ?_, ?_⟩
  · intro heq
    have hmember := hstays.mp heq 18 (by decide)
    revert hmember
    decide
  · exact hcovered.mpr fun _ => hsubset.contains

end Spent

end Policy
end WordRanges
