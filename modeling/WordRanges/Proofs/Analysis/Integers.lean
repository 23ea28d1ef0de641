import WordRanges.Analysis.Integers
import WordRanges.Proofs.Domain.Operations

/-!
# Integers of a type and their words

An integer type holds the integers of its width and sign.  The word of an integer is its
remainder modulo two to the power of 64, so signed integers are sign-extended and unsigned
ones zero-extended.  The value of a type has the words of its integers as members, and no
others.

Main results:

- Theorem {lit}`IntegerShape.wrap_eq_of_word_eq`: an integer whose word is that of an integer of
  a type is wrapped to the latter.
- Theorem {lit}`IntegerShape.preserves_of_holds`: a conversion maps a set of words of integers of
  its type into itself.
- Theorem {lit}`IntegerShape.ofInt_bitAnd`: the word of a conjunction is that of the words.
- Theorem {lit}`contains_values?`: the members of the value of a type.
- Theorem {lit}`Constant.word?_eq_some_iff`: which constants have a word.
-/

namespace WordRanges

/-! ## Words of integers -/

/-- The word of an integer of the unsigned type of 64 bits is the integer. -/
theorem toNat_ofInt_of_lt {v : Int} (h0 : 0 ≤ v) (h : v < 2 ^ 64) :
    ((BitVec.ofInt 64 v).toNat : Int) = v := by
  rw [BitVec.toNat_ofInt]
  omega

/-- The word of an integer of the signed type of 64 bits is the integer. -/
theorem toInt_ofInt_of_lt {v : Int} (h0 : -2 ^ 63 ≤ v) (h : v < 2 ^ 63) :
    (BitVec.ofInt 64 v).toInt = v :=
  BitVec.toInt_ofInt_eq_self (by decide) h0 h

/-- The bounds of a word in signed order. -/
theorem toInt_mem_bounds (x : BitVec 64) : -2 ^ 63 ≤ x.toInt ∧ x.toInt < 2 ^ 63 :=
  ⟨BitVec.le_toInt x, BitVec.toInt_lt⟩

/-- The least word in signed order. -/
theorem toInt_intMin : (BitVec.intMin 64).toInt = -2 ^ 63 := by
  decide

/-- The greatest word in signed order. -/
theorem toInt_intMax : (BitVec.intMax 64).toInt = 2 ^ 63 - 1 := by
  decide

/-- The word before a word in signed order. -/
theorem toInt_sub_one {x : BitVec 64} (h : x ≠ BitVec.intMin 64) : (x - 1).toInt = x.toInt - 1 := by
  have hbounds := toInt_mem_bounds x
  have hmin : x.toInt ≠ -2 ^ 63 :=
    fun heq => h (BitVec.eq_of_toInt_eq (heq.trans toInt_intMin.symm))
  rw [BitVec.toInt_sub, show (1 : BitVec 64).toInt = 1 by decide]
  exact Int.bmod_eq_of_le (by omega) (by omega)

/-- The word after a word in signed order. -/
theorem toInt_add_one {x : BitVec 64} (h : x ≠ BitVec.intMax 64) : (x + 1).toInt = x.toInt + 1 := by
  have hbounds := toInt_mem_bounds x
  have hmax : x.toInt ≠ 2 ^ 63 - 1 :=
    fun heq => h (BitVec.eq_of_toInt_eq (heq.trans toInt_intMax.symm))
  rw [BitVec.toInt_add, show (1 : BitVec 64).toInt = 1 by decide]
  exact Int.bmod_eq_of_le (by omega) (by omega)

/-- The remainder of division towards zero has the sign of the dividend. -/
theorem tmod_nonpos {a : Int} (b : Int) (h : a ≤ 0) : a.tmod b ≤ 0 := by
  have hneg := Int.tmod_nonneg b (Int.neg_nonneg_of_nonpos h)
  rw [Int.neg_tmod] at hneg
  omega

/-- An integer that is smaller than the divisor is its own remainder. -/
theorem tmod_eq_self_of_natAbs_lt {a b : Int} (h : a.natAbs < b.natAbs) : a.tmod b = a := by
  have habs : (a.tmod b).natAbs = a.natAbs := by
    rw [Int.natAbs_tmod, Nat.mod_eq_of_lt h]
  by_cases ha : 0 ≤ a
  · have hnonneg := Int.tmod_nonneg b ha
    omega
  · have hnonpos := tmod_nonpos b (Int.le_of_not_le ha)
    omega

namespace Source
namespace BasicType
namespace IntegerShape

/-- The integers of a type. -/
def Holds (s : IntegerShape) (v : Int) : Prop :=
  if s.unsigned then 0 ≤ v ∧ v < 2 ^ s.width else -2 ^ (s.width - 1) ≤ v ∧ v < 2 ^ (s.width - 1)

instance (s : IntegerShape) (v : Int) : Decidable (s.Holds v) :=
  inferInstanceAs (Decidable (if s.unsigned then 0 ≤ v ∧ v < 2 ^ s.width
    else -2 ^ (s.width - 1) ≤ v ∧ v < 2 ^ (s.width - 1)))

/-- The integer that a word of the width of a type stands for. -/
def decode (s : IntegerShape) (x : BitVec s.width) : Int :=
  if s.unsigned then x.toNat else x.toInt

/-- An integer converted to a type. -/
def wrap (s : IntegerShape) (v : Int) : Int :=
  s.decode (BitVec.ofInt s.width v)

/-- The integer whose bits are one in both of two integers of a type. -/
def bitAnd (s : IntegerShape) (a b : Int) : Int :=
  s.decode (BitVec.ofInt s.width a &&& BitVec.ofInt s.width b)

/-- The integer whose bits are one in either of two integers of a type. -/
def bitOr (s : IntegerShape) (a b : Int) : Int :=
  s.decode (BitVec.ofInt s.width a ||| BitVec.ofInt s.width b)

/-- A width that integer types have. -/
def IsSized (s : IntegerShape) : Prop :=
  0 < s.width ∧ s.width ≤ 64

instance (s : IntegerShape) : Decidable s.IsSized :=
  inferInstanceAs (Decidable (_ ∧ _))

variable {s : IntegerShape} {a b v u : Int}

/-- The integers of an unsigned type. -/
theorem holds_iff_of_unsigned (h : s.unsigned = true) : s.Holds v ↔ 0 ≤ v ∧ v < 2 ^ s.width := by
  rw [Holds, if_pos h]

/-- The integers of a signed type. -/
theorem holds_iff_of_signed (h : ¬ s.unsigned = true) :
    s.Holds v ↔ -2 ^ (s.width - 1) ≤ v ∧ v < 2 ^ (s.width - 1) := by
  rw [Holds, if_neg h]

/-! ## Integers and words of a type -/

/-- A type holds the integer of each of its words. -/
theorem holds_decode (s : IntegerShape) (x : BitVec s.width) : s.Holds (s.decode x) := by
  unfold Holds decode
  split
  · have hlt := x.isLt
    refine ⟨Int.natCast_nonneg _, ?_⟩
    exact_mod_cast hlt
  · exact ⟨BitVec.le_toInt x, BitVec.toInt_lt⟩

/-- A type holds zero. -/
theorem holds_zero (s : IntegerShape) : s.Holds 0 := by
  have hdecode : s.decode 0 = 0 := by simp [decode]
  exact hdecode ▸ s.holds_decode 0

/-- An integer of a type is not changed by a conversion to the type. -/
theorem wrap_of_holds (hs : s.IsSized) (h : s.Holds v) : s.wrap v = v := by
  unfold Holds at h
  unfold wrap decode
  split at h
  · rename_i hunsigned
    rw [if_pos hunsigned, BitVec.toNat_ofInt, Int.emod_eq_of_lt h.1 (by exact_mod_cast h.2),
      Int.toNat_of_nonneg h.1]
  · rename_i hsigned
    rw [if_neg hsigned, BitVec.toInt_ofInt_eq_self hs.1 h.1 h.2]

/-- An integer of an unsigned type is one of 64 bits. -/
theorem Holds.lt_of_unsigned (h : s.Holds v) (hs : s.IsSized) (hunsigned : s.unsigned = true) :
    0 ≤ v ∧ v < 2 ^ 64 := by
  rw [holds_iff_of_unsigned hunsigned] at h
  have hpow : (2 : Int) ^ s.width ≤ 2 ^ 64 := by
    exact_mod_cast Nat.pow_le_pow_right (by decide) hs.2
  omega

/-- An integer of a signed type is one of 64 bits. -/
theorem Holds.lt_of_signed (h : s.Holds v) (hs : s.IsSized) (hsigned : ¬ s.unsigned = true) :
    -2 ^ 63 ≤ v ∧ v < 2 ^ 63 := by
  rw [holds_iff_of_signed hsigned] at h
  have hwidth : s.width - 1 ≤ 63 := Nat.sub_le_sub_right hs.2 1
  have hpow : (2 : Int) ^ (s.width - 1) ≤ 2 ^ 63 := by
    exact_mod_cast Nat.pow_le_pow_right (by decide) hwidth
  omega

/-- An integer of a type is one of 64 bits of the same sign. -/
theorem Holds.extend (h : s.Holds v) (hs : s.IsSized) :
    (IntegerShape.mk 64 s.unsigned).Holds v := by
  by_cases hunsigned : s.unsigned = true
  · exact (holds_iff_of_unsigned (s := ⟨64, s.unsigned⟩) hunsigned).mpr
      (h.lt_of_unsigned hs hunsigned)
  · exact (holds_iff_of_signed (s := ⟨64, s.unsigned⟩) hunsigned).mpr (h.lt_of_signed hs hunsigned)

/-- A remainder is an integer of the type of the dividend. -/
theorem Holds.tmod (h : s.Holds a) (b : Int) : s.Holds (a.tmod b) := by
  have hsize : (a.tmod b).natAbs ≤ a.natAbs := by
    rw [Int.natAbs_tmod]
    exact Nat.mod_le _ _
  by_cases hunsigned : s.unsigned = true
  · rw [holds_iff_of_unsigned hunsigned] at h ⊢
    have hnonneg := Int.tmod_nonneg b h.1
    omega
  · rw [holds_iff_of_signed hunsigned] at h ⊢
    by_cases ha : 0 ≤ a
    · have hnonneg := Int.tmod_nonneg b ha
      omega
    · have hnonpos := tmod_nonpos b (Int.le_of_not_le ha)
      omega

/-- The word of a type is part of the word of 64 bits. -/
theorem setWidth_ofInt (hs : s.IsSized) (v : Int) :
    (BitVec.ofInt 64 v).setWidth s.width = BitVec.ofInt s.width v := by
  apply BitVec.eq_of_toNat_eq
  rw [BitVec.toNat_setWidth, BitVec.toNat_ofInt, BitVec.toNat_ofInt]
  have hdvd : ((2 ^ s.width : Nat) : Int) ∣ ((2 ^ 64 : Nat) : Int) :=
    Int.natCast_dvd_natCast.mpr (Nat.pow_dvd_pow 2 hs.2)
  have hnonneg : 0 ≤ v % ((2 ^ 64 : Nat) : Int) := Int.emod_nonneg _ (by decide)
  have hmod : ((v % ((2 ^ 64 : Nat) : Int)).toNat % 2 ^ s.width : Nat) =
      (v % ((2 ^ 64 : Nat) : Int) % ((2 ^ s.width : Nat) : Int)).toNat := by
    rw [Int.toNat_emod hnonneg (Int.natCast_nonneg _), Int.toNat_natCast]
  rw [hmod, Int.emod_emod_of_dvd _ hdvd]

/-- Integers with the same word are converted to the same integer. -/
theorem wrap_congr (hs : s.IsSized) (h : BitVec.ofInt 64 v = BitVec.ofInt 64 u) :
    s.wrap v = s.wrap u := by
  unfold wrap
  rw [← setWidth_ofInt hs v, ← setWidth_ofInt hs u, h]

/-- An integer whose word is that of an integer of a type is converted to the latter. -/
theorem wrap_eq_of_word_eq (hs : s.IsSized) (hu : s.Holds u)
    (h : BitVec.ofInt 64 v = BitVec.ofInt 64 u) : s.wrap v = u :=
  (wrap_congr hs h).trans (wrap_of_holds hs hu)

/-- Integers of a type with the same word are equal. -/
theorem Holds.eq_of_word_eq (hv : s.Holds v) (hu : s.Holds u) (hs : s.IsSized)
    (h : BitVec.ofInt 64 v = BitVec.ofInt 64 u) : v = u :=
  (wrap_of_holds hs hv).symm.trans (wrap_eq_of_word_eq hs hu h)

/-- A conversion to a type maps a set of words into itself. -/
def Preserves (s : IntegerShape) (set : Value 64) : Prop :=
  ∀ x, set.Contains x → set.Contains (BitVec.ofInt 64 (s.wrap x.toInt))

/-- Converting an integer whose word is in such a set gives one whose word is in the set. -/
theorem Preserves.contains {set : Value 64} (h : s.Preserves set) (hs : s.IsSized)
    (hv : set.Contains (BitVec.ofInt 64 v)) : set.Contains (BitVec.ofInt 64 (s.wrap v)) := by
  have hwrap : s.wrap (BitVec.ofInt 64 v).toInt = s.wrap v := wrap_congr hs BitVec.ofInt_toInt
  exact hwrap ▸ h _ hv

/-- A conversion to a type maps a set of words of integers of the type into itself, since it does
not change them. -/
theorem preserves_of_holds {set : Value 64} (hs : s.IsSized)
    (h : ∀ x, set.Contains x → ∃ u, s.Holds u ∧ BitVec.ofInt 64 u = x) : s.Preserves set := by
  intro x hx
  obtain ⟨u, hu, rfl⟩ := h x hx
  rwa [wrap_eq_of_word_eq hs hu BitVec.ofInt_toInt]

/-- The word of 64 bits of what a word of a type stands for. -/
theorem ofInt_decode (x : BitVec s.width) :
    BitVec.ofInt 64 (s.decode x) = if s.unsigned then x.setWidth 64 else x.signExtend 64 := by
  unfold decode
  split
  · rw [BitVec.ofInt_natCast, BitVec.ofNat_toNat]
  · rfl

/-- The word of 64 bits of an integer of a type extends its word of the type. -/
theorem ofInt_of_holds (hs : s.IsSized) (h : s.Holds v) :
    BitVec.ofInt 64 v = if s.unsigned then (BitVec.ofInt s.width v).setWidth 64
      else (BitVec.ofInt s.width v).signExtend 64 := by
  rw [← ofInt_decode]
  exact congrArg (BitVec.ofInt 64) (wrap_of_holds hs h).symm

/-- The word of a conjunction is that of the words. -/
theorem ofInt_bitAnd (hs : s.IsSized) (ha : s.Holds a) (hb : s.Holds b) :
    BitVec.ofInt 64 (s.bitAnd a b) = BitVec.ofInt 64 a &&& BitVec.ofInt 64 b := by
  rw [bitAnd, ofInt_decode, ofInt_of_holds hs ha, ofInt_of_holds hs hb]
  split
  · exact BitVec.setWidth_and
  · exact BitVec.signExtend_and

/-- The word of a disjunction is that of the words. -/
theorem ofInt_bitOr (hs : s.IsSized) (ha : s.Holds a) (hb : s.Holds b) :
    BitVec.ofInt 64 (s.bitOr a b) = BitVec.ofInt 64 a ||| BitVec.ofInt 64 b := by
  rw [bitOr, ofInt_decode, ofInt_of_holds hs ha, ofInt_of_holds hs hb]
  split
  · exact BitVec.setWidth_or
  · exact BitVec.signExtend_or

end IntegerShape

/-! ## The value of a type -/

open IntegerShape

variable {b : BasicType} {s : IntegerShape} {all : Value 64} {x : BitVec 64}

/-- Integer types have up to 64 bits. -/
theorem isSized_of_integer? (h : b.integer? = some s) : s.IsSized := by
  unfold integer? at h
  split at h <;> cases h <;> decide

/-- Every integer type has a value. -/
theorem exists_values? (h : b.integer? = some s) : ∃ all, b.values? = some all := by
  rw [← Option.isSome_iff_exists]
  unfold integer? at h
  split at h <;> cases h <;> decide +kernel

/-- The value of a type belongs to the policy of integers. -/
theorem valid_of_values? (h : b.values? = some all) : integerPolicy.Valid all := by
  unfold values? at h
  split at h
  · cases h
  · split at h
    · cases h
      exact Policy.valid_of_make? (Policy.domain?_eq_some integerPolicy 64)
    · split at h <;> exact Policy.valid_of_make? h

/-- The words up to the greatest integer of a narrow unsigned type are those of its integers. -/
theorem contains_of_unsigned (hwidth : s.width ≤ 63) (hunsigned : s.unsigned = true)
    (h : integerPolicy.urange? 0 (BitVec.ofNat 64 (2 ^ s.width - 1)) = some all) :
    all.Contains x ↔ ∃ v, s.Holds v ∧ BitVec.ofInt 64 v = x := by
  have hpow : 2 ^ s.width ≤ 2 ^ 63 := Nat.pow_le_pow_right (by decide) hwidth
  have hpos := Nat.two_pow_pos s.width
  have htop : (BitVec.ofNat 64 (2 ^ s.width - 1)).toNat = 2 ^ s.width - 1 := by
    rw [BitVec.toNat_ofNat]
    omega
  have hcast : ((2 ^ s.width : Nat) : Int) = 2 ^ s.width := by norm_cast
  simp only [Policy.contains_of_urange? h, htop, holds_iff_of_unsigned hunsigned]
  constructor
  · rintro ⟨-, hx⟩
    exact ⟨x.toNat, ⟨by omega, by omega⟩, by simp⟩
  · rintro ⟨v, hv, rfl⟩
    have hword := toNat_ofInt_of_lt hv.1 (by omega)
    exact ⟨Nat.zero_le _, by omega⟩

/-- The words between the extreme integers of a narrow signed type are those of its integers. -/
theorem contains_of_signed (hwidth : s.width ≤ 63) (hsigned : ¬ s.unsigned = true)
    (h : integerPolicy.range? (BitVec.ofInt 64 (-2 ^ (s.width - 1)))
      (BitVec.ofInt 64 (2 ^ (s.width - 1) - 1)) = some all) :
    all.Contains x ↔ ∃ v, s.Holds v ∧ BitVec.ofInt 64 v = x := by
  have hpow : (2 : Int) ^ (s.width - 1) ≤ 2 ^ 62 := by
    exact_mod_cast Nat.pow_le_pow_right (by decide) (Nat.sub_le_sub_right hwidth 1)
  have hpos : (0 : Int) < 2 ^ (s.width - 1) := Int.pow_pos (by decide)
  rw [Policy.contains_of_range? h, toInt_ofInt_of_lt (by omega) (by omega),
    toInt_ofInt_of_lt (by omega) (by omega)]
  simp only [holds_iff_of_signed hsigned]
  constructor
  · intro hx
    exact ⟨x.toInt, by omega, BitVec.ofInt_toInt⟩
  · rintro ⟨v, hv, rfl⟩
    rw [toInt_ofInt_of_lt (by omega) (by omega)]
    omega

/-- Every word is that of an integer of a type of 64 bits. -/
theorem exists_holds_of_width (hwidth : s.width = 64) (x : BitVec 64) :
    ∃ v, s.Holds v ∧ BitVec.ofInt 64 v = x := by
  have hlt := x.isLt
  by_cases hunsigned : s.unsigned = true
  · refine ⟨x.toNat, ?_, by simp⟩
    rw [holds_iff_of_unsigned hunsigned, hwidth]
    omega
  · refine ⟨x.toInt, ?_, BitVec.ofInt_toInt⟩
    rw [holds_iff_of_signed hunsigned, hwidth]
    exact toInt_mem_bounds x

/-- The members of the value of a type are the words of its integers. -/
theorem contains_values? (hb : b.integer? = some s) (h : b.values? = some all) :
    all.Contains x ↔ ∃ v, s.Holds v ∧ BitVec.ofInt 64 v = x := by
  obtain ⟨-, hle⟩ := isSized_of_integer? hb
  unfold values? at h
  rw [hb] at h
  simp only [Nat.pow_eq] at h
  split at h
  · rename_i hwidth
    cases h
    exact ⟨fun _ => exists_holds_of_width hwidth x, fun _ => Policy.contains_domain _ x⟩
  · have hwidth : s.width ≤ 63 := by omega
    split at h
    · rename_i hunsigned
      exact contains_of_unsigned hwidth hunsigned h
    · rename_i hsigned
      push_cast at h
      exact contains_of_signed hwidth hsigned h

end BasicType

/-! ## The word of a constant -/

/-- A constant has a word exactly if it is taken for an integer of 64 bits of that sign. -/
theorem Constant.word?_eq_some_iff {k : Constant} {unsigned : Bool} {x : BitVec 64} :
    k.word? unsigned = some x ↔ ∃ n, k.toInt? = some n ∧
      (BasicType.IntegerShape.mk 64 unsigned).Holds n ∧ BitVec.ofInt 64 n = x := by
  have hif {p : Prop} [Decidable p] {y : BitVec 64} :
      (if p then some y else none) = some x ↔ p ∧ y = x := by
    rw [Option.ite_none_right_eq_some, Option.some.injEq]
  unfold word?
  cases k.toInt? with
  | none => simp
  | some n =>
      simp only [Option.some.injEq, exists_eq_left']
      cases unsigned with
      | true => exact hif
      | false => exact hif

end Source
end WordRanges
