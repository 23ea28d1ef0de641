import Mathlib.Algebra.Group.Int.Defs
import Mathlib.Algebra.Group.Nat.Defs
import WordRanges.Text.Numeral

/-!
# Decimal numerals are read back

Numbers are written in decimal and read in any base that a numeral announces.  A decimal text
announces no base: it has digits only, and it starts with a zero only if it is the number zero,
which is zero in every base.  So reading gives the number that was written, as long as it lies
in the range that is asked for.

Main results:

- Theorem {lit}`readDigits_eq_ok`: what decimal digits are read as.
- Theorem {lit}`readUnsigned_toDigits`: a natural number is read back.
- Theorem {lit}`repr_injective`: an integer is told by its decimal text.
- Theorems {lit}`readSigned_repr` and {lit}`readDecimal_repr`: integers are read back.
- Theorems {lit}`range_of_readSigned` and {lit}`range_of_readDecimal`: no other integers are read.
-/

namespace WordRanges
namespace Numeral

variable {bound n : Nat} {cs : List Char} {c : Char}

/-! ## Decimal digits -/

/-- A decimal digit has the value that its place among the digits says. -/
theorem digit?_of_isDigit (h : c.isDigit = true) : digit? c = some (c.toNat - 48) := by
  have hrange : '0' ≤ c ∧ c ≤ '9' := by
    simp only [Char.isDigit, Bool.and_eq_true, decide_eq_true_eq] at h
    exact h
  rw [digit?, if_pos hrange]

/-- The value of a decimal digit is less than ten. -/
theorem toNat_sub_lt_of_isDigit (h : c.isDigit = true) : c.toNat - 48 < 10 := by
  simp only [Char.isDigit, Bool.and_eq_true, decide_eq_true_eq, UInt32.le_iff_toNat_le] at h
  have hle : c.toNat ≤ 57 := h.2
  omega

/-- Digits that follow do not make a number smaller. -/
theorem le_ofDigitChars (cs : List Char) (n : Nat) : n ≤ Nat.ofDigitChars 10 cs n := by
  induction cs generalizing n with
  | nil => exact Nat.le_refl n
  | cons c cs ih =>
      rw [Nat.ofDigitChars_cons]
      refine Nat.le_trans ?_ (ih _)
      omega

/-- Decimal digits are read as the number that they write, if it is not too large. -/
theorem readDigits_eq_ok (underscores : Bool) (hdigits : ∀ c ∈ cs, c.isDigit = true)
    (hbound : Nat.ofDigitChars 10 cs n ≤ bound) :
    readDigits 10 bound underscores n cs = .ok (Nat.ofDigitChars 10 cs n) := by
  induction cs generalizing n with
  | nil => rfl
  | cons c cs ih =>
      rw [List.forall_mem_cons] at hdigits
      have hdigit : digit? c = some (c.toNat - 48) := digit?_of_isDigit hdigits.1
      have hsmall : c.toNat - 48 < 10 := toNat_sub_lt_of_isDigit hdigits.1
      have hunderscore : c ≠ '_' := by
        rintro rfl
        exact absurd hdigits.1 (by decide)
      have hnext : Nat.ofDigitChars 10 (c :: cs) n =
          Nat.ofDigitChars 10 cs (n * 10 + (c.toNat - 48)) := by
        rw [Nat.ofDigitChars_cons, Nat.mul_comm]
        rfl
      rw [hnext] at hbound ⊢
      have hle := le_ofDigitChars cs (n * 10 + (c.toNat - 48))
      rw [readDigits, if_neg (fun h => hunderscore h.1), hdigit]
      simp only
      rw [if_neg (Nat.not_le.mpr hsmall), if_neg (Nat.not_lt.mpr (Nat.le_trans hle hbound))]
      exact ih hdigits.2 hbound

/-- The digits of a decimal text. -/
theorem isDigit_of_mem_toDigits {m : Nat} (hc : c ∈ Nat.toDigits 10 m) : c.isDigit = true :=
  Nat.isDigit_of_mem_toDigits (by decide) (by decide) hc

/-- Only the number zero is written with a leading zero. -/
theorem head?_toDigits_ne (hn : n ≠ 0) : (Nat.toDigits 10 n).head? ≠ some '0' := by
  induction n using Nat.strongRecOn with
  | ind n ih =>
      by_cases hsmall : n < 10
      · rw [Nat.toDigits_of_lt_base hsmall, List.head?_cons]
        have hdigit := Nat.toNat_digitChar_sub_48_of_lt_ten hsmall
        intro hzero
        rw [Option.some.inj hzero] at hdigit
        exact hn hdigit.symm
      · have hfirst := ih (n / 10) (by omega) (by omega)
        rw [Nat.toDigits_of_base_le (by decide) (Nat.le_of_not_lt hsmall)]
        cases hdigits : Nat.toDigits 10 (n / 10) with
        | nil => exact absurd hdigits Nat.toDigits_ne_nil
        | cons c cs =>
            rw [hdigits] at hfirst
            exact hfirst

/-- A numeral without a leading zero is decimal. -/
theorem splitBase_of_head?_ne (h : cs.head? ≠ some '0') : splitBase cs = (10, cs) := by
  cases cs with
  | nil => rfl
  | cons c cs =>
      have hc : c ≠ '0' := fun hc => h (hc ▸ rfl)
      unfold splitBase
      split
      · rename_i heq
        exact absurd (List.cons.inj heq).1 hc
      · rename_i heq
        exact absurd (List.cons.inj heq).1 hc
      · rfl

/-! ## Numbers -/

/-- A natural number is read back. -/
theorem readUnsigned_toDigits (hbound : n ≤ bound) :
    readUnsigned bound (Nat.toDigits 10 n) = .ok n := by
  have hread : readDigits (splitBase (Nat.toDigits 10 n)).1 bound true 0
      (splitBase (Nat.toDigits 10 n)).2 = .ok n := by
    by_cases hn : n = 0
    · subst hn
      rfl
    · have hnumber : Nat.ofDigitChars 10 (Nat.toDigits 10 n) 0 = n := Nat.ofDigitChars_ten_toDigits
      rw [splitBase_of_head?_ne (head?_toDigits_ne hn),
        readDigits_eq_ok true (fun c => isDigit_of_mem_toDigits) (by rwa [hnumber]), hnumber]
  rw [readUnsigned, if_neg (by simp), hread]
  simp only
  rw [if_neg (fun h => Nat.underscore_not_in_toDigits h.1)]

/-- The sign of a decimal text and its digits. -/
theorem toList_repr_cases (n : Int) :
    (0 ≤ n ∧ n.repr.toList = Nat.toDigits 10 n.natAbs) ∨
      (n < 0 ∧ n.repr.toList = '-' :: Nat.toDigits 10 n.natAbs) := by
  cases n with
  | ofNat m => exact .inl ⟨Int.natCast_nonneg m, Nat.toList_repr⟩
  | negSucc m =>
      refine .inr ⟨Int.negSucc_lt_zero m, ?_⟩
      rw [Int.repr, String.toList_append, Nat.toList_repr]
      rfl

/-- A decimal text has digits and perhaps a minus sign. -/
theorem isDigit_of_mem_repr {n : Int} (hc : c ∈ n.repr.toList) : c.isDigit = true ∨ c = '-' := by
  rcases toList_repr_cases n with ⟨-, h⟩ | ⟨-, h⟩ <;> rw [h] at hc
  · exact .inl (isDigit_of_mem_toDigits hc)
  · rcases List.mem_cons.mp hc with rfl | hc
    · exact .inr rfl
    · exact .inl (isDigit_of_mem_toDigits hc)

/-- Digits have no sign before them. -/
theorem splitSign_of_isDigit (h : ∀ c ∈ cs, c.isDigit = true) : splitSign cs = (false, cs) := by
  unfold splitSign
  split
  · exact absurd (h '+' List.mem_cons_self) (by decide)
  · exact absurd (h '-' List.mem_cons_self) (by decide)
  · rfl

/-- The sign of a decimal text is split off. -/
theorem splitSign_repr (n : Int) :
    splitSign n.repr.toList = (decide (n < 0), Nat.toDigits 10 n.natAbs) := by
  rcases toList_repr_cases n with ⟨hn, h⟩ | ⟨hn, h⟩
  · rw [h, splitSign_of_isDigit fun c => isDigit_of_mem_toDigits, decide_eq_false (by omega)]
  · rw [h, decide_eq_true hn]
    rfl

/-- An integer is told by its decimal text. -/
theorem repr_injective {m n : Int} (h : m.repr.toList = n.repr.toList) : m = n := by
  have hparts := congrArg splitSign h
  rw [splitSign_repr, splitSign_repr, Prod.mk.injEq, decide_eq_decide] at hparts
  have habs : m.natAbs = n.natAbs := by
    rw [← Nat.ofDigitChars_ten_toDigits (n := m.natAbs), hparts.2, Nat.ofDigitChars_ten_toDigits]
  omega

/-- An integer within the limit is put together from its sign and its size. -/
theorem withSign_natAbs {limit : Nat} {n : Int} (hlo : -limit ≤ n) (hhi : n < limit) :
    withSign limit (decide (n < 0)) n.natAbs = .ok n := by
  unfold withSign
  simp only [decide_eq_true_eq]
  split
  · rw [if_neg (by omega), Int.ofNat_natAbs_of_nonpos (by omega), Int.neg_neg]
  · rw [if_neg (by omega), Int.natAbs_of_nonneg (by omega)]

/-- A number with its sign is within the limit. -/
theorem range_of_withSign {limit : Nat} {negative : Bool} {m : Int} (hlimit : 0 < limit)
    (h : withSign limit negative n = .ok m) : -limit ≤ m ∧ m < limit := by
  unfold withSign at h
  split at h
  all_goals
    split at h
    · cases h
    · cases h
      omega

/-- An integer in the range of a width is read back. -/
theorem readSigned_repr {w : Nat} {n : Int} (habs : n.natAbs < 2 ^ w) (hlo : -2 ^ (w - 1) ≤ n)
    (hhi : n < 2 ^ (w - 1)) : readSigned w n.repr.toList = .ok n := by
  have hread : readUnsigned (Nat.pow 2 w - 1) (Nat.toDigits 10 n.natAbs) = .ok n.natAbs :=
    readUnsigned_toDigits (Nat.le_sub_one_of_lt habs)
  have hpow : ((Nat.pow 2 (w - 1) : Nat) : Int) = 2 ^ (w - 1) := Int.natCast_pow 2 (w - 1)
  rw [readSigned, splitSign_repr, hread]
  exact withSign_natAbs (by rwa [hpow]) (by rwa [hpow])

/-- A numeral of a width is read as a number in its range. -/
theorem range_of_readSigned {w : Nat} {m : Int} (h : readSigned w cs = .ok m) :
    -2 ^ (w - 1) ≤ m ∧ m < 2 ^ (w - 1) := by
  have hpow : ((Nat.pow 2 (w - 1) : Nat) : Int) = 2 ^ (w - 1) := Int.natCast_pow 2 (w - 1)
  unfold readSigned at h
  split at h
  · cases h
  · rw [← hpow]
    exact range_of_withSign (Nat.two_pow_pos (w - 1)) h

/-- A counter is read back. -/
theorem readDecimal_repr {n : Int} (hlo : -2 ^ 63 ≤ n) (hhi : n < 2 ^ 63) :
    readDecimal n.repr.toList = .ok n := by
  have hread : readDigits 10 (Nat.pow 2 64 - 1) false 0 (Nat.toDigits 10 n.natAbs) =
      .ok n.natAbs := by
    rw [readDigits_eq_ok false (fun c => isDigit_of_mem_toDigits), Nat.ofDigitChars_ten_toDigits]
    rw [Nat.ofDigitChars_ten_toDigits]
    simp only [Nat.pow_eq]
    omega
  rw [readDecimal, splitSign_repr, hread, if_neg (by simp)]
  exact withSign_natAbs hlo hhi

/-- A counter has 64 bits. -/
theorem range_of_readDecimal {m : Int} (h : readDecimal cs = .ok m) : -2 ^ 63 ≤ m ∧ m < 2 ^ 63 := by
  unfold readDecimal at h
  split at h
  · cases h
  · split at h
    · cases h
    · exact range_of_withSign (by decide) h

end Numeral
end WordRanges
