import Mathlib.Data.Rat.Cast.Defs
import WordRanges.Proofs.Analysis.Integers

/-!
# Constants that a type can hold

A constant is accepted as a value of an integer type exactly if it is an integer, whatever its
kind, and lies between the least and the greatest integer of the type.  The code decides this in
two steps: the constant has to be an integer of 64 bits of the sign of the type, and its word has to
be a member of the value of the type.  Since words of integers of one sign and 64 bits are told
apart, nothing is gained or lost.

A complex constant is turned into an integer by way of a fraction or, if its real part has too
many bits, of a rounded number.  In the latter case it is not recognised as an integer any more, but
then it is too large for every type.

Main results:

- Theorem {lit}`Rounded.toInt?_of_ofInt?`: integers with too many bits for a fraction are not
  recovered from their rounded number.
- Theorems {lit}`Constant.isInteger_of_toInt?` and {lit}`Constant.IsInteger.toInt?_eq`: which
  constants are taken for integers.
- Theorem {lit}`Constant.value?_eq_some_iff`: which constants have a value, in terms of the shape of
  the type.
- Theorem {lit}`Constant.value?_accepts_representable`: the same by the limits of each type.
-/

namespace WordRanges
namespace Source

/-! ## Numbers of bits -/

/-- A number has more bits than the exponent of a power of two that it reaches. -/
theorem lt_bitCount_iff {e n : Nat} : e < bitCount n ↔ 2 ^ e ≤ n := by
  unfold bitCount
  split
  · rename_i hzero
    have hpos := Nat.two_pow_pos e
    omega
  · rename_i hne
    rw [Nat.lt_succ_iff, Nat.le_log2 hne]

/-- A greater number has no fewer bits. -/
theorem bitCount_mono {m n : Nat} (h : m ≤ n) : bitCount m ≤ bitCount n := by
  by_contra hlt
  have hpow := lt_bitCount_iff.mp (Nat.lt_of_not_le hlt)
  exact Nat.lt_irrefl _ (lt_bitCount_iff.mpr (Nat.le_trans hpow h))

/-- Halving an even number takes one bit away. -/
theorem bitCount_half {m : Nat} (hm : m ≠ 0) (heven : m % 2 = 0) :
    bitCount (m / 2) + 1 = bitCount m := by
  have hhalf : m / 2 ≠ 0 := by omega
  have htwo : 2 ≤ m := by omega
  rw [bitCount, bitCount, if_neg hhalf, if_neg hm, Nat.log2_def m, if_pos htwo]

namespace Rounded

/-- Factors of two move from a magnitude to its exponent. -/
theorem bitCount_stripTwos (fuel : Nat) {m : Nat} (hm : m ≠ 0) (e : Int) :
    bitCount (stripTwos fuel m e).1 + (stripTwos fuel m e).2 = bitCount m + e := by
  induction fuel generalizing m e with
  | zero => rfl
  | succ fuel ih =>
      rw [stripTwos]
      split
      · rename_i heven
        rw [ih (by omega), ← bitCount_half hm heven]
        push_cast
        omega
      · rfl

/-- The leading bits of a magnitude that has enough of them are not fewer than asked for. -/
theorem le_bitCount_leadingBits {bits m : Nat} (h : bits ≤ bitCount m) (d : Direction)
    (rest : Bool) : bits ≤ bitCount (leadingBits bits d m rest) := by
  have hkept : bits ≤ bitCount (m >>> (bitCount m - bits)) := by
    rcases Nat.eq_zero_or_pos bits with hzero | hpos
    · omega
    · have hlast : bits - 1 < bitCount (m >>> (bitCount m - bits)) := by
        rw [lt_bitCount_iff, Nat.shiftRight_eq_div_pow, Nat.le_div_iff_mul_le (Nat.two_pow_pos _),
          ← Nat.pow_add, ← lt_bitCount_iff]
        omega
      omega
  have hup (up : Bool) (q : Nat) : q ≤ if up then q + 1 else q := by cases up <;> simp
  exact Nat.le_trans hkept (bitCount_mono (hup _ _))

/-- Rounding an integer with enough bits keeps its size. -/
theorem le_top_of_make? {bits m : Nat} {d : Direction} {negative rest : Bool} {x : Rounded}
    (hpos : 0 < bits) (hbits : bits ≤ bitCount m)
    (h : make? bits d negative m rest 0 = some x) : bitCount m ≤ x.top := by
  have hm : m ≠ 0 := by
    rintro rfl
    simp [bitCount] at hbits
    omega
  have hq := le_bitCount_leadingBits hbits d rest
  have hq0 : leadingBits bits d m rest ≠ 0 := by
    intro hzero
    rw [hzero] at hq
    simp [bitCount] at hq
    omega
  have hstrip := bitCount_stripTwos (bitCount (leadingBits bits d m rest)) hq0
    (0 + (bitCount m - bits : Nat))
  unfold make? at h
  rw [if_neg hm] at h
  simp only at h
  generalize stripTwos (bitCount (leadingBits bits d m rest)) (leadingBits bits d m rest)
    (0 + (bitCount m - bits : Nat)) = stripped at h hstrip
  obtain ⟨q, e⟩ := stripped
  simp only at h hstrip
  split at h
  · cases h
  · split at h
    · rename_i hlow
      unfold lowest at hlow
      omega
    · cases h
      have hmagnitude : magnitude ⟨if negative then -(q : Int) else q, e⟩ = q := by
        cases negative <;> simp [magnitude]
      rw [top, hmagnitude]
      simp only
      omega

/-- Integers with too many bits for a fraction are not recovered from their rounded number. -/
theorem toInt?_of_ofInt? {n : Int} (h : fractionBits ≤ bitCount n.natAbs) :
    (ofInt? n).bind toInt? = none := by
  cases hx : ofInt? n with
  | none => rfl
  | some x =>
      have hprecision : precision ≤ bitCount n.natAbs := Nat.le_trans (by decide) h
      have htop := le_top_of_make? (by decide) hprecision hx
      have hlarge : x.isModerate = false := by
        rw [isModerate, decide_eq_false_iff_not]
        omega
      simp [toInt?, hlarge]

end Rounded

/-! ## Numbers that are integers -/

namespace Number

/-- A number is zero. -/
inductive IsZero : Number → Prop where
  | int : IsZero (.int 0)
  | fraction : IsZero (.fraction 0)
  | rounded (e : Int) : IsZero (.rounded ⟨0, e⟩)

/-- A number is an integer.  A rounded number counts as the integer that it is but for its last
bits. -/
inductive IsInteger : Number → Int → Prop where
  | int (n : Int) : IsInteger (.int n) n
  | fraction {r : Rat} {n : Int} (h : r = n) : IsInteger (.fraction r) n
  | rounded {x : Rounded} {n : Int} (h : x.toInt? = some n) : IsInteger (.rounded x) n

variable {x : Number} {m n : Int}

/-- Zero is recognised. -/
theorem isZero_iff : x.isZero = true ↔ x.IsZero := by
  constructor
  · intro h
    cases x with
    | int n =>
        cases eq_of_beq h
        exact .int
    | fraction r =>
        cases eq_of_beq h
        exact .fraction
    | rounded y =>
        obtain ⟨m, e⟩ := y
        cases eq_of_beq h
        exact .rounded e
  · intro h
    cases h <;> rfl

/-- A fraction is the integer that it equals. -/
theorem integral?_eq_some_iff {r : Rat} : integral? r = some n ↔ r = n := by
  unfold integral?
  constructor
  · intro h
    split at h
    · rename_i hden
      cases h
      exact ((Rat.den_eq_one_iff r).mp hden).symm
    · cases h
  · rintro rfl
    simp

/-- A number is taken for the integer that it is. -/
theorem toInt?_eq_some_iff : x.toInt? = some n ↔ x.IsInteger n := by
  constructor
  · intro h
    cases x with
    | int m =>
        cases h
        exact .int n
    | fraction r => exact .fraction (integral?_eq_some_iff.mp h)
    | rounded y => exact .rounded h
  · intro h
    cases h with
    | int => rfl
    | fraction h => exact integral?_eq_some_iff.mpr h
    | rounded h => exact h

/-- A number is at most one integer. -/
theorem IsInteger.eq (hm : x.IsInteger m) (hn : x.IsInteger n) : m = n :=
  Option.some.inj ((toInt?_eq_some_iff.mpr hm).symm.trans (toInt?_eq_some_iff.mpr hn))

/-- What a number is taken for after it was turned into a number of another kind it is itself. -/
theorem isInteger_of_toFloat? (h : x.toFloat?.bind toInt? = some n) : x.IsInteger n := by
  cases x with
  | int m =>
      simp only [toFloat?] at h
      split at h
      · have heq : ((m : Int) : Rat) = n := integral?_eq_some_iff.mp h
        cases Rat.intCast_inj.mp heq
        exact .int n
      · rename_i hlarge
        have hnone := Rounded.toInt?_of_ofInt? (Nat.le_of_not_lt hlarge)
        rw [Option.bind_map] at h
        cases hnone.symm.trans h
  | fraction r => exact toInt?_eq_some_iff.mp h
  | rounded y => exact toInt?_eq_some_iff.mp h

/-- Integers with few enough bits for a fraction survive a change of kind. -/
theorem IsInteger.toFloat?_bind (h : x.IsInteger n)
    (hsmall : bitCount n.natAbs < Rounded.fractionBits) : x.toFloat?.bind toInt? = some n := by
  cases h with
  | int =>
      rw [toFloat?, if_pos hsmall]
      exact integral?_eq_some_iff.mpr rfl
  | fraction h => exact integral?_eq_some_iff.mpr h
  | rounded h => exact h

end Number

/-! ## Constants that are integers -/

namespace Constant

/-- A constant is an integer: a number that is one, or a complex number without imaginary part
whose real part is one.  Texts and truth values are not. -/
inductive IsInteger : Constant → Int → Prop where
  | number {x : Number} {n : Int} (h : x.IsInteger n) : IsInteger (.number x) n
  | complex {re im : Number} {n : Int} (hre : re.IsInteger n) (him : im.IsZero) :
      IsInteger (.complex re im) n

variable {k : Constant} {m n : Int}

/-- A constant is at most one integer. -/
theorem IsInteger.eq (hm : k.IsInteger m) (hn : k.IsInteger n) : m = n := by
  cases hm with
  | number hm =>
      cases hn with
      | number hn => exact hm.eq hn
  | complex hm _ =>
      cases hn with
      | complex hn _ => exact hm.eq hn

/-- A constant is taken for an integer only if it is that integer. -/
theorem isInteger_of_toInt? (h : k.toInt? = some n) : k.IsInteger n := by
  cases k with
  | bool _ => cases h
  | string _ => cases h
  | number x => exact .number (Number.toInt?_eq_some_iff.mp h)
  | complex re im =>
      rw [toInt?] at h
      split at h
      · rename_i him
        exact .complex (Number.isInteger_of_toFloat? h) (Number.isZero_iff.mp him)
      · cases h

/-- A constant that is an integer with few enough bits for a fraction is taken for it. -/
theorem IsInteger.toInt?_eq (h : k.IsInteger n)
    (hsmall : bitCount n.natAbs < Rounded.fractionBits) : k.toInt? = some n := by
  cases h with
  | number h => exact Number.toInt?_eq_some_iff.mpr h
  | complex hre him =>
      rw [toInt?, if_pos (Number.isZero_iff.mpr him)]
      exact hre.toFloat?_bind hsmall

end Constant

/-! ## Limits of types -/

namespace BasicType

/-- The least and the greatest integer of an integer type; nothing for other types. -/
def extremes? : BasicType → Option (Int × Int)
  | .int8 => some (-128, 127)
  | .int16 => some (-32768, 32767)
  | .int32 | .rune | .untypedRune => some (-2147483648, 2147483647)
  | .int | .int64 | .untypedInt => some (-9223372036854775808, 9223372036854775807)
  | .uint8 | .byte => some (0, 255)
  | .uint16 => some (0, 65535)
  | .uint32 => some (0, 4294967295)
  | .uint | .uint64 | .uintptr => some (0, 18446744073709551615)
  | _ => none

/-- The least and the greatest integer of a shape. -/
def IntegerShape.limits (s : IntegerShape) : Int × Int :=
  if s.unsigned then (0, 2 ^ s.width - 1) else (-2 ^ (s.width - 1), 2 ^ (s.width - 1) - 1)

/-- The integers of a type are those between the limits of its shape. -/
theorem IntegerShape.holds_iff_limits {s : IntegerShape} {n : Int} :
    s.Holds n ↔ s.limits.1 ≤ n ∧ n ≤ s.limits.2 := by
  unfold Holds limits
  split
  · simp only
    omega
  · simp only
    omega

/-- The integer types are those with limits, which are those of their shape. -/
theorem extremes?_eq_map (b : BasicType) : b.extremes? = b.integer?.map IntegerShape.limits := by
  cases b <;> rfl

end BasicType

/-! ## Values of constants -/

namespace Constant

open BasicType

variable {k : Constant} {b : BasicType} {s : IntegerShape} {v : Value 64} {n : Int}

/-- Integers of 64 bits have few enough bits for a fraction. -/
theorem bitCount_lt_of_holds (hs : s.IsSized) (h : s.Holds n) :
    bitCount n.natAbs < Rounded.fractionBits := by
  by_contra hlarge
  have hpow : 2 ^ 65 ≤ n.natAbs :=
    lt_bitCount_iff.mp (Nat.lt_of_lt_of_le (by decide) (Nat.le_of_not_lt hlarge))
  by_cases hunsigned : s.unsigned = true
  · have hbounds := h.lt_of_unsigned hs hunsigned
    omega
  · have hbounds := h.lt_of_signed hs hunsigned
    omega

/-- A constant has a value of an integer type exactly if it is taken for an integer of the type.
The value is that of the word of this integer. -/
theorem value?_eq_some_iff (hb : b.integer? = some s) :
    k.value? b = some v ↔
      ∃ n, k.toInt? = some n ∧ s.Holds n ∧ v = integerPolicy.const (BitVec.ofInt 64 n) := by
  have hs := isSized_of_integer? hb
  have hunsigned : b.isUnsigned = s.unsigned := by simp [isUnsigned, hb]
  obtain ⟨all, hall⟩ := exists_values? hb
  have hvalue : k.value? b = some v ↔ ∃ x, k.word? s.unsigned = some x ∧ all.Contains x ∧
      v = integerPolicy.const x := by
    unfold value?
    rw [hall, hunsigned]
    simp only
    cases k.word? s.unsigned with
    | none => simp
    | some x => simp [eq_comm]
  rw [hvalue]
  constructor
  · rintro ⟨x, hword, hmember, rfl⟩
    obtain ⟨n, hn, hwide, rfl⟩ := word?_eq_some_iff.mp hword
    obtain ⟨m, hm, heq⟩ := (contains_values? hb hall).mp hmember
    -- Both integers have 64 bits and the same word.
    have hsame : m = n :=
      (hm.extend hs).eq_of_word_eq hwide ⟨Nat.zero_lt_succ 63, Nat.le_refl 64⟩ heq
    exact ⟨n, hn, hsame ▸ hm, rfl⟩
  · rintro ⟨n, hn, hholds, rfl⟩
    exact ⟨_, word?_eq_some_iff.mpr ⟨n, hn, hholds.extend hs, rfl⟩,
      (contains_values? hb hall).mpr ⟨n, hholds, rfl⟩, rfl⟩

/-- The value of a constant has the remainder of its integer as its only member. -/
theorem contains_const_ofInt {x : BitVec 64} :
    (integerPolicy.const (BitVec.ofInt 64 n)).Contains x ↔ (x.toNat : Int) = n % 2 ^ 64 := by
  have hnonneg : 0 ≤ n % 2 ^ 64 := Int.emod_nonneg n (by decide)
  rw [Policy.contains_const, ← BitVec.toNat_inj, BitVec.toNat_ofInt]
  omega

/-- A constant is accepted as a value of a type exactly if the type can represent it.  Types that
are not integer types accept none.  An integer type accepts a constant of any kind exactly if it
is an integer between the limits of the type, and the only member of the value is then the word of
that integer modulo two to the power of 64. -/
theorem value?_accepts_representable (k : Constant) (b : BasicType) :
    (b.extremes? = none → k.value? b = none) ∧
    ∀ lo hi, b.extremes? = some (lo, hi) →
      ((∃ v, k.value? b = some v) ↔ ∃ n, k.IsInteger n ∧ lo ≤ n ∧ n ≤ hi) ∧
      ∀ n v, k.IsInteger n → k.value? b = some v →
        ∀ x : BitVec 64, v.Contains x ↔ (x.toNat : Int) = n % 2 ^ 64 := by
  rw [extremes?_eq_map]
  constructor
  · intro h
    rw [Option.map_eq_none_iff] at h
    simp [value?, values?, h]
  · intro lo hi h
    obtain ⟨s, hb, hlimits⟩ := Option.map_eq_some_iff.mp h
    have hholds (n : Int) : s.Holds n ↔ lo ≤ n ∧ n ≤ hi := by
      rw [IntegerShape.holds_iff_limits, hlimits]
    refine ⟨⟨?_, ?_⟩, ?_⟩
    · rintro ⟨v, hv⟩
      obtain ⟨n, hn, hs, -⟩ := (value?_eq_some_iff hb).mp hv
      exact ⟨n, isInteger_of_toInt? hn, (hholds n).mp hs⟩
    · rintro ⟨n, hn, hbetween⟩
      have hs := (hholds n).mpr hbetween
      have hint := hn.toInt?_eq (bitCount_lt_of_holds (isSized_of_integer? hb) hs)
      exact ⟨_, (value?_eq_some_iff hb).mpr ⟨n, hint, hs, rfl⟩⟩
    · intro n v hn hv x
      obtain ⟨m, hm, -, rfl⟩ := (value?_eq_some_iff hb).mp hv
      rw [(isInteger_of_toInt? hm).eq hn]
      exact contains_const_ofInt

/-- A complex constant without imaginary part is the greatest integer of the unsigned type of 64
bits, whose word is minus one in signed order.  The signed type does not accept it. -/
theorem greatest_unsigned_accepted :
    (∃ v, (Constant.complex (.fraction 18446744073709551615) (.int 0)).value? .uint64 = some v ∧
      v.Contains (-1)) ∧
    ¬ ∃ v, (Constant.complex (.fraction 18446744073709551615) (.int 0)).value? .int64 = some v := by
  have hinteger : (Constant.complex (.fraction 18446744073709551615) (.int 0)).IsInteger
      18446744073709551615 := .complex (.fraction rfl) .int
  obtain ⟨-, hunsigned⟩ := value?_accepts_representable
    (.complex (.fraction 18446744073709551615) (.int 0)) .uint64
  obtain ⟨-, hsigned⟩ := value?_accepts_representable
    (.complex (.fraction 18446744073709551615) (.int 0)) .int64
  obtain ⟨haccepts, hmember⟩ := hunsigned _ _ rfl
  obtain ⟨hrefuses, -⟩ := hsigned _ _ rfl
  constructor
  · obtain ⟨v, hv⟩ := haccepts.mpr ⟨_, hinteger, by decide, by decide⟩
    exact ⟨v, hv, (hmember _ v hinteger hv (-1)).mpr (by decide)⟩
  · rw [hrefuses]
    rintro ⟨n, hn, -, hle⟩
    rw [hn.eq hinteger] at hle
    exact absurd hle (by decide)

end Constant
end Source
end WordRanges
