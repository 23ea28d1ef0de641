import WordRanges.Proofs.Config.Precedence
import WordRanges.Proofs.Domain.Narrowing

/-!
# The slack of narrowing as configured

Narrowing keeps an old value if the new one has a span beyond half of the old span and the slack
of the policy.  Both are added in 64 bits, and a configuration file may define any integer of 64
bits as the slack, which is taken modulo {lit}`2 ^ 64`.  The sum is as large as it should be unless
the slack is negative and half of the old span makes up for it: then the sum wraps around, and
narrowing keeps values that it should give up.

Main results:

- Theorem {lit}`Policy.toNat_narrowLimit`: the limit on spans as a number.
- Theorem {lit}`Policy.Weighs.narrow_eq`: when narrowing comes down to comparing spans.
- Theorem {lit}`Settings.narrow_of_load`: narrowing under settings that were loaded.
-/

namespace WordRanges

/-! ## Comparing spans -/

namespace Policy

variable {w : Nat} {p : Policy} {nv old : Value w}

/-- The limit on spans as a number: the sum wraps around. -/
theorem toNat_narrowLimit (p : Policy) (hw : w ≤ 64) (span : BitVec w) :
    (p.narrowLimit span).toNat = (span.toNat / 2 + p.narrowSlack.toNat) % 2 ^ 64 := by
  have hspan : span.toNat < 2 ^ 64 :=
    Nat.lt_of_lt_of_le span.isLt (Nat.pow_le_pow_right Nat.two_pos hw)
  rw [narrowLimit, UInt64.toNat_add, UInt64.toNat_ofNat_of_lt' (by rw [UInt64.size]; omega)]

/-- Narrowing has nothing but the spans to go by: the new value has some of the members of the old
one, though not just one of them, the old one has not every word, and the same bits are known. -/
structure Weighs (p : Policy) (nv old : Value w) : Prop where
  valid : p.Valid nv
  valid_old : p.Valid old
  several : ∃ x y, nv.Contains x ∧ nv.Contains y ∧ x ≠ y
  within : ∀ x, nv.Contains x → old.Contains x
  fewer : ∃ x, old.Contains x ∧ ¬ nv.Contains x
  not_all : ∃ x, ¬ old.Contains x
  same_bits : nv.bits = old.bits

/-- Narrowing that has only the spans to go by compares the new one with the limit. -/
theorem Weighs.narrow_eq (h : p.Weighs nv old) :
    p.narrow nv (some old) =
      if (p.narrowLimit old.constraint.span).toNat < nv.constraint.span.toNat then old else nv := by
  have hsubset : nv.IsSubset old := h.valid.isSubset_iff.mpr h.within
  have hconstant : ¬ nv.constant? ≠ none := by
    rw [h.valid.constant?_ne_none_iff]
    rintro ⟨c, honly⟩
    obtain ⟨x, y, hx, hy, hne⟩ := h.several
    exact hne ((honly x hx).trans (honly y hy).symm)
  have hdomain : ¬ old.isDomain = true := by
    intro hall
    obtain ⟨x, hx⟩ := h.not_all
    exact hx (h.valid_old.isDomain_iff.mp hall x)
  split
  · rename_i hlimit
    apply narrow_of_not_accepts hsubset
    rintro (hone | hall | hbits | hspan)
    · exact hconstant hone
    · exact hdomain hall
    · exact hbits h.same_bits
    · exact Nat.not_le.mpr hlimit hspan
  · rename_i hlimit
    have haccepts : p.Accepts nv old := .inr (.inr (.inr (Nat.not_lt.mp hlimit)))
    apply haccepts.narrow_eq
    intro hset
    obtain ⟨x, hx, hnot⟩ := h.fewer
    exact hnot (((h.valid.sameSet_iff h.valid_old).mp hset x).mpr hx)

/-- Narrowing by spans in numbers that do not wrap around. -/
def weigh (p : Policy) (nv old : Value w) : Value w :=
  if old.constraint.span.toNat / 2 + p.narrowSlack.toNat < nv.constraint.span.toNat then old
  else nv

/-- The limit is at most the sum in numbers, so narrowing differs from comparing spans in numbers
exactly if the new span is beyond the limit but not beyond the sum. -/
theorem Weighs.narrow_ne_weigh_iff (h : p.Weighs nv old) (hw : w ≤ 64) :
    p.narrow nv (some old) ≠ p.weigh nv old ↔
      (p.narrowLimit old.constraint.span).toNat < nv.constraint.span.toNat ∧
        nv.constraint.span.toNat ≤ old.constraint.span.toNat / 2 + p.narrowSlack.toNat := by
  have hne : old ≠ nv := by
    rintro rfl
    obtain ⟨x, hx, hnot⟩ := h.fewer
    exact hnot hx
  have hle : (p.narrowLimit old.constraint.span).toNat ≤
      old.constraint.span.toNat / 2 + p.narrowSlack.toNat := by
    rw [toNat_narrowLimit p hw]
    exact Nat.mod_le _ _
  rw [h.narrow_eq, weigh]
  by_cases hlimit : (p.narrowLimit old.constraint.span).toNat < nv.constraint.span.toNat
  · by_cases hsum : old.constraint.span.toNat / 2 + p.narrowSlack.toNat < nv.constraint.span.toNat
    · rw [if_pos hlimit, if_pos hsum]
      exact ⟨fun hself => absurd rfl hself, fun hspan => absurd hsum (Nat.not_lt.mpr hspan.2)⟩
    · rw [if_pos hlimit, if_neg hsum]
      exact ⟨fun _ => ⟨hlimit, Nat.not_lt.mp hsum⟩, fun _ => hne⟩
  · have hsum : ¬ old.constraint.span.toNat / 2 + p.narrowSlack.toNat <
        nv.constraint.span.toNat := fun hlt => hlimit (Nat.lt_of_le_of_lt hle hlt)
    rw [if_neg hlimit, if_neg hsum]
    exact ⟨fun hself => absurd rfl hself, fun hspan => absurd hspan.1 hlimit⟩

end Policy

/-! ## Integers as words -/

/-- An integer as a word is taken modulo the number of words. -/
theorem Layer.toNat_word (n : Int) : ((word n).toNat : Int) = n % 2 ^ 64 := by
  have hnonneg : 0 ≤ n % UInt64.size := Int.emod_nonneg n (by decide)
  have hlt : n % UInt64.size < UInt64.size := Int.emod_lt_of_pos n (by decide)
  rw [word, UInt64.toNat_ofNat_of_lt' (by omega), Int.toNat_of_nonneg hnonneg]
  rfl

namespace Settings

variable {open_ : Path → Opened} {directory : Path} {key : List String}

/-- A word that prevails comes from an integer that does. -/
theorem Prevails.exists_integer {n : Int} {slack : UInt64}
    (h : Prevails open_ directory key Layer.wordOf (Layer.word n) slack) :
    ∃ m, Prevails open_ directory key Layer.integerOf n m ∧ slack = Layer.word m := by
  cases h with
  | nearest hp hitem hvalue hnearer =>
      obtain ⟨m, hm, rfl⟩ := Option.map_eq_some_iff.mp hvalue
      exact ⟨m, .nearest hp hitem hm hnearer, rfl⟩
  | undefined hnone => exact ⟨n, .undefined hnone, rfl⟩

/-! ## Narrowing under settings that were loaded -/

/-- How narrowing weighs spans under settings that were loaded.  The slack that prevails is an
integer of 64 bits, and its sum with half of the old span is taken modulo {lit}`2 ^ 64`.  That
is no different from comparing spans as numbers unless a negative slack does not use up the half
and what it leaves is below the new span. -/
theorem narrow_of_load {s : Settings} {w : Nat} {nv old : Value w}
    (h : load open_ directory = .ok s) (hw : w ≤ 64) (hweighs : s.policy.Weighs nv old) :
    ∃ n : Int, Prevails open_ directory ["domain", "narrow_slack"] Layer.integerOf 6 n ∧
      (-2 ^ 63 ≤ n ∧ n < 2 ^ 63) ∧ (s.policy.narrowSlack.toNat : Int) = n % 2 ^ 64 ∧
      s.policy.narrow nv (some old) =
        (if ((old.constraint.span.toNat / 2 : Nat) + n) % 2 ^ 64 < nv.constraint.span.toNat then old
        else nv) ∧
      (s.policy.narrow nv (some old) ≠ s.policy.weigh nv old ↔
        n < 0 ∧ 0 ≤ (old.constraint.span.toNat / 2 : Nat) + n ∧
          (old.constraint.span.toNat / 2 : Nat) + n < nv.constraint.span.toNat) := by
  have hprevails : Prevails open_ directory ["domain", "narrow_slack"] Layer.wordOf (Layer.word 6)
      s.policy.narrowSlack := isItem_narrowSlack.prevails h
  obtain ⟨n, hn, hslack⟩ := hprevails.exists_integer
  have hsized := hn.sized (by decide)
  have hword : (s.policy.narrowSlack.toNat : Int) = n % 2 ^ 64 := by
    rw [hslack, Layer.toNat_word]
  have hspan (v : Value w) : v.constraint.span.toNat < 2 ^ 64 :=
    Nat.lt_of_lt_of_le v.constraint.span.isLt (Nat.pow_le_pow_right Nat.two_pos hw)
  have hlimit : ((s.policy.narrowLimit old.constraint.span).toNat : Int) =
      ((old.constraint.span.toNat / 2 : Nat) + n) % 2 ^ 64 := by
    have hnat := Policy.toNat_narrowLimit s.policy hw old.constraint.span
    omega
  refine ⟨n, hn, hsized, hword, ?_, ?_⟩
  · rw [hweighs.narrow_eq, ← hlimit]
    simp only [Int.ofNat_lt]
  · rw [hweighs.narrow_ne_weigh_iff hw]
    have hnew := hspan nv
    have hold := hspan old
    omega

/-! ## Two configuration files with slack -/

namespace Slackened

/-- A file at the root that defines a negative slack, and one farther down with a positive one. -/
def files (path : Path) : Opened :=
  if path = fileIn [] then .found (.text "[domain]\nnarrow_slack = -1\n[cli]\nwidth = 8\n")
  else if path = fileIn ["home"] then .found (.text "[domain]\nnarrow_slack = 40\n")
  else .missing

/-- The words from zero to one hundred. -/
def wide : Value 8 :=
  ⟨⟨⟨0, 100⟩, ⟨0, 100⟩, ⟨0x80, 0⟩⟩, 0⟩

/-- The words from zero to ninety-three. -/
def narrower : Value 8 :=
  ⟨⟨⟨0, 93⟩, ⟨0, 93⟩, ⟨0x80, 0⟩⟩, 0⟩

/-- Narrowing has only the spans of the two values to go by, whatever the slack is. -/
theorem weighs_narrower (slack : UInt64) : (Policy.mk 3 3 slack).Weighs narrower wide where
  valid := ⟨by decide +kernel, rfl⟩
  valid_old := ⟨by decide +kernel, rfl⟩
  several := ⟨0, 1, by decide⟩
  within := by decide
  fewer := ⟨100, by decide⟩
  not_all := ⟨101, by decide⟩
  same_bits := rfl

/-- Below the second file its slack prevails, and the old value is kept: ninety-three is beyond
fifty and forty together. -/
theorem wide_kept_below_home : load files ["home", "me"] = .ok ⟨⟨3, 3, 40⟩, 8, false⟩ ∧
    (Policy.mk 3 3 40).Weighs narrower wide ∧
    (Policy.mk 3 3 40).narrow narrower (some wide) = wide ∧
    (Policy.mk 3 3 40).weigh narrower wide = wide := by
  have hload : load files ["home", "me"] = .ok ⟨⟨3, 3, 40⟩, 8, false⟩ := by decide +kernel
  obtain ⟨n, -, hsized, hword, hnarrow, hdiffers⟩ :=
    narrow_of_load hload (by decide) (weighs_narrower 40)
  have hn : n = 40 := by
    have hslack : ((40 : UInt64).toNat : Int) = 40 := rfl
    rw [hslack] at hword
    omega
  subst hn
  have hsame := not_not.mp (mt hdiffers.mp fun hwraps => absurd hwraps.1 (by decide))
  exact ⟨hload, weighs_narrower 40, hnarrow, hsame.symm.trans hnarrow⟩

/-- At the root the slack prevails that is one less than the number of words.  A sum with it would
be far beyond any span, but it wraps around and the old value is kept. -/
theorem wide_kept_at_root : load files [] = .ok ⟨⟨3, 3, 18446744073709551615⟩, 8, false⟩ ∧
    (Policy.mk 3 3 18446744073709551615).Weighs narrower wide ∧
    (Policy.mk 3 3 18446744073709551615).narrow narrower (some wide) = wide ∧
    (Policy.mk 3 3 18446744073709551615).weigh narrower wide = narrower := by
  exact ⟨by decide +kernel, weighs_narrower _, by decide +kernel, by decide +kernel⟩

end Slackened

end Settings
end WordRanges
