import WordRanges.Proofs.Config.Precedence
import WordRanges.Proofs.Domain.Relaxing

/-!
# The budget of widening as configured

A small set has counter zero however often it is widened, so widening keeps its members as long as
the policy has a budget at all.  Settings may leave no budget: a configuration file can define it
as zero.  Then the budget of a small set is spent from the start, and its bounds are given up like
those of any other set.

Main results:

- Theorem {lit}`Policy.Ascends.small_cases`: what becomes of a small set in an ascending step.
- Theorem {lit}`Settings.small_kept_iff`: when widening keeps the members of a small set.
-/

namespace WordRanges

/-! ## Ascending steps of small sets -/

namespace Policy

variable {w : Nat} {p : Policy} {nv old v : Value w} {limit : Option (Value w)}

/-- A policy without a budget counts nothing. -/
theorem widen_eq_zero_of_make? {c : Constraint w} (hmax : p.maxWiden = 0)
    (h : p.make? c p.maxWiden = some v) : v.widen = 0 := by
  have hwiden := (make?_eq_some_iff.mp h).2
  have hcases := normalWiden_cases p v.constraint p.maxWiden
  omega

section Small

variable (hmax : 0 ≤ p.maxWiden) (hnv : p.Valid nv) (hold : p.Valid old)
  (hcovers : old.IsSubset nv) (hsmall : nv.constraint.span.toNat ≤ p.smallSpan.toNat)
include hmax hnv hold hcovers hsmall

/-- An ascending step of a small set is not counted.  It keeps the set if there is a budget or the
old value is a constant; otherwise it gives up the bounds. -/
theorem Ascends.small_cases (h : p.Ascends nv old limit v) :
    v.widen = 0 ∧
      ((0 < p.maxWiden ∨ old.constant? ≠ none) ∧ v.SameSet nv ∨
        ¬ (0 < p.maxWiden ∨ old.constant? ≠ none) ∧ ∀ x, v.Contains x ↔ Leaves nv limit x) := by
  have hzero : nv.widen = 0 := hnv.widen_eq_zero hnv (.refl nv) hsmall
  have hzero' : old.widen = 0 := hold.widen_eq_zero hnv hcovers hsmall
  cases h with
  | constant hconstant => exact ⟨hzero, .inl ⟨.inr hconstant, rfl⟩⟩
  | counted _ hcounted => omega
  | counting _ _ hbudget hmake =>
      have hparts := hnv.constraint_of_make? hmake
      have hwiden := (make?_eq_some_iff.mp hmake).2
      rw [hparts, normalWiden_of_small hsmall] at hwiden
      exact ⟨hwiden, .inl ⟨.inl (by omega), hparts⟩⟩
  | spent hvaries _ hspent hfully =>
      -- A counter of zero is not below the budget only if there is none.
      have hnone : p.maxWiden = 0 := by omega
      have hleft (x : BitVec w) : v.Contains x ↔ Leaves nv limit x :=
        contains_of_widenFully? hnv hfully
      refine ⟨?_, .inr ⟨not_or.mpr ⟨by omega, not_not.mpr hvaries⟩, hleft⟩⟩
      rcases widenFully?_cases hfully with hdomain | ⟨hmake, -⟩
      · exact widen_eq_zero_of_make? hnone hdomain
      · exact widen_eq_zero_of_make? hnone hmake

/-- Widening does not count small sets. -/
theorem widen_widen_of_small (limit : Option (Value w)) :
    (p.widen nv (some old) limit).widen = 0 := by
  rcases widen_cases_of_covers p hnv hcovers limit with ⟨-, heq⟩ | ⟨-, hascends⟩
  · rw [heq]
    exact hold.widen_eq_zero hnv hcovers hsmall
  · exact (hascends.small_cases hmax hnv hold hcovers hsmall).1

/-- Widening keeps the members of a small set exactly if there is a budget, the old value is a
constant or covers the set, or nothing but the members is left when the bounds are given up. -/
theorem contains_widen_of_small_iff (limit : Option (Value w)) :
    (∀ x, (p.widen nv (some old) limit).Contains x ↔ nv.Contains x) ↔
      0 < p.maxWiden ∨ old.constant? ≠ none ∨ nv.IsSubset old ∨
        ∀ x, Leaves nv limit x → nv.Contains x := by
  rcases widen_cases_of_covers p hnv hcovers limit with ⟨hstays, heq⟩ | ⟨hlarger, hascends⟩
  · rw [heq]
    exact ⟨fun _ => .inr (.inr (.inl hstays)), fun _ x => ⟨hcovers.contains, hstays.contains⟩⟩
  · rcases (hascends.small_cases hmax hnv hold hcovers hsmall).2 with
      ⟨hkept, hsame⟩ | ⟨hgiven, hleft⟩
    · have hmembers (x : BitVec w) : (p.widen nv (some old) limit).Contains x ↔ nv.Contains x :=
        ⟨hsame.isSubset.contains, contains_widen⟩
      exact ⟨fun _ => hkept.imp_right .inl, fun _ => hmembers⟩
    · simp only [hleft]
      constructor
      · intro hmembers
        exact .inr (.inr (.inr fun x => (hmembers x).mp))
      · rintro (hbudget | hconstant | hstays | honly) x
        · exact absurd (.inl hbudget) hgiven
        · exact absurd (.inr hconstant) hgiven
        · exact absurd hstays hlarger
        · exact ⟨honly x, leaves_of_contains limit⟩

end Small

end Policy

/-! ## Small sets under settings that make sense -/

namespace Settings

/-- Widening small sets under settings that make sense.  Widening always has a result, and the
counter of a small set that covers the old value stays zero, whatever the limit is.  The members
stay as they are if the settings leave a budget.  Without one they still do if the old value has
just one member or covers the set, or if no other words are left when its bounds are given up, and
only then. -/
theorem small_kept_iff {s : Settings} {w : Nat} {nv old : Value w} (hs : s.validate = .ok s)
    (limit : Option (Value w)) (hnv : s.policy.Makes nv) (hold : s.policy.Makes old)
    (hcovers : old.IsSubset nv)
    (hsmall : nv.constraint.span.toNat ≤ s.policy.smallSpan.toNat) :
    s.policy.widen? nv (some old) limit = some (s.policy.widen nv (some old) limit) ∧
    (s.policy.widen nv (some old) limit).widen = 0 ∧
    ((∀ x, (s.policy.widen nv (some old) limit).Contains x ↔ nv.Contains x) ↔
      0 < s.policy.maxWiden ∨ (∃ c, ∀ x, old.Contains x → x = c) ∨
        (∀ x, nv.Contains x → old.Contains x) ∨
        ∀ x, Policy.Leaves nv limit x → nv.Contains x) := by
  have hmax : 0 ≤ s.policy.maxWiden := by
    rcases validate_cases s with ⟨-, hwiden, -⟩ | ⟨⟨fault, herror⟩, -⟩
    · exact Int.not_lt.mp hwiden
    · cases hs.symm.trans herror
  refine ⟨Policy.widen?_eq_some hnv.valid _ _,
    Policy.widen_widen_of_small hmax hnv.valid hold.valid hcovers hsmall limit, ?_⟩
  rw [← hold.valid.constant?_ne_none_iff, ← hnv.valid.isSubset_iff]
  exact Policy.contains_widen_of_small_iff hmax hnv.valid hold.valid hcovers hsmall limit

/-! ### Two configuration files with budgets -/

namespace Unbudgeted

/-- A file at the root that leaves no budget, and one farther down that leaves the least. -/
def files (path : Path) : Opened :=
  if path = fileIn [] then .found (.text "[domain]\nmax_widen = 0\n[cli]\nwidth = 8\n")
  else if path = fileIn ["home"] then .found (.text "[domain]\nmax_widen = 1\n")
  else .missing

/-- The words zero and one. -/
def two : Value 8 :=
  ⟨⟨⟨0, 1⟩, ⟨0, 1⟩, ⟨0xfe, 0⟩⟩, 0⟩

/-- The words from zero to two. -/
def three : Value 8 :=
  ⟨⟨⟨0, 2⟩, ⟨0, 2⟩, ⟨0xfc, 0⟩⟩, 0⟩

/-- Both sets are small, and neither is counted. -/
theorem makes_small (budget : Int) :
    (Policy.mk 3 budget 6).Makes two ∧ (Policy.mk 3 budget 6).Makes three :=
  ⟨Policy.Valid.makes ⟨by decide +kernel, rfl⟩, Policy.Valid.makes ⟨by decide +kernel, rfl⟩⟩

/-- The least budget keeps the members of a small set, also within a limit that lacks one of
them. -/
theorem three_kept_below_home : load files ["home", "me"] = .ok ⟨⟨3, 1, 6⟩, 8, false⟩ ∧
    (∀ x, ((Policy.mk 3 1 6).widen three (some two) (some two)).Contains x ↔ three.Contains x) ∧
    ((Policy.mk 3 1 6).widen three (some two) (some two)).widen = 0 := by
  have hvalid : Settings.validate ⟨⟨3, 1, 6⟩, 8, false⟩ = .ok ⟨⟨3, 1, 6⟩, 8, false⟩ := by decide
  obtain ⟨-, hwiden, hkept⟩ := small_kept_iff hvalid (some two) (makes_small 1).2 (makes_small 1).1
    (by decide) (by decide)
  exact ⟨by decide +kernel, hkept.mpr (.inl (by decide)), hwiden⟩

/-- Without a budget a small set is widened: it gains the word three, and if the limit lacks one
of its members it becomes all words. -/
theorem three_widened_at_root : load files [] = .ok ⟨⟨3, 0, 6⟩, 8, false⟩ ∧
    (Policy.mk 3 0 6).Makes two ∧ (Policy.mk 3 0 6).Makes three ∧ two.IsSubset three ∧
    three.constraint.span.toNat ≤ (Policy.mk 3 0 6).smallSpan.toNat ∧
    ¬ three.Contains 3 ∧ ((Policy.mk 3 0 6).widen three (some two) none).Contains 3 ∧
    ((Policy.mk 3 0 6).widen three (some two) (some two)).isDomain = true := by
  exact ⟨by decide +kernel, (makes_small 0).1, (makes_small 0).2, by decide, by decide, by decide,
    by decide +kernel, by decide +kernel⟩

end Unbudgeted

end Settings
end WordRanges
