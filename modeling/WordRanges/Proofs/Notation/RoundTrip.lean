import WordRanges.Notation.Value
import WordRanges.Proofs.Domain.Operations
import WordRanges.Proofs.Notation.Patterns
import WordRanges.Proofs.Text.Numerals

/-!
# The notation of values is read back

The text of a value has all its parts, each ended by a character that does not occur in the
parts before: two dots end the first number of a range, a comma ends a range, and an at sign
ends the pattern.  So reading finds the parts that were written, and each of them is read back.

Main results:

- Theorems {lit}`Text.cut_append` and {lit}`Text.splitParts_append`: parts are found again.
- Theorems {lit}`ValueText.readSignedPart_rangeChars` and
  {lit}`ValueText.readUnsignedPart_rangeChars`: ranges are read back.
- Theorem {lit}`ValueText.read_write`: what the text of a value is read as.
- Theorem {lit}`ValueText.exists_make?_write_eq`: what is made of it.
-/

namespace WordRanges

/-! ## Parts of a text -/

namespace Text

variable {d separator : Char} {ds before after cs : List Char}

/-- The text after its own beginning. -/
theorem afterStart?_append (ds cs : List Char) : afterStart? ds (ds ++ cs) = some cs := by
  induction ds with
  | nil => rfl
  | cons d ds ih => rw [List.cons_append, afterStart?, if_pos rfl, ih]

/-- A separator does not start where its first character does not stand. -/
theorem afterStart?_of_ne {c : Char} (h : c ≠ d) : afterStart? (d :: ds) (c :: cs) = none := by
  rw [afterStart?, if_neg h]

/-- A text is cut at a separator whose first character does not occur before. -/
theorem cut_append (h : d ∉ before) :
    cut (d :: ds) (before ++ (d :: ds ++ after)) = (before, some after) := by
  induction before with
  | nil =>
      rw [List.nil_append, List.cons_append, cut]
      have hstart := afterStart?_append (d :: ds) after
      rw [List.cons_append] at hstart
      rw [hstart]
  | cons c before ih =>
      rw [List.mem_cons, not_or] at h
      rw [List.cons_append, cut, afterStart?_of_ne (Ne.symm h.1), ih h.2]

/-- A text without the first character of a separator is not cut. -/
theorem cut_of_not_mem (h : d ∉ cs) : cut (d :: ds) cs = (cs, none) := by
  induction cs with
  | nil => rfl
  | cons c cs ih =>
      rw [List.mem_cons, not_or] at h
      rw [cut, afterStart?_of_ne (Ne.symm h.1), ih h.2]

/-- A text without separators is one part. -/
theorem splitParts_of_not_mem (h : separator ∉ cs) : splitParts separator cs = (cs, []) := by
  induction cs with
  | nil => rfl
  | cons c cs ih =>
      rw [List.mem_cons, not_or] at h
      rw [splitParts, ih h.2]
      exact if_neg (Ne.symm h.1)

/-- The first part of a text ends at the first separator. -/
theorem splitParts_append (h : separator ∉ before) (after : List Char) :
    splitParts separator (before ++ separator :: after) =
      (before, (splitParts separator after).1 :: (splitParts separator after).2) := by
  induction before with
  | nil => exact if_pos rfl
  | cons c before ih =>
      rw [List.mem_cons, not_or] at h
      rw [List.cons_append, splitParts, ih h.2]
      exact if_neg (Ne.symm h.1)

/-- A character that does not occur is not dropped. -/
theorem dropFinal_of_not_mem (h : d ∉ cs) : dropFinal d cs = cs :=
  if_neg fun hlast => h (List.mem_of_getLast? hlast)

end Text

namespace ValueText

variable {w : Nat} {p : Policy} {v : Value w}

/-! ## Ranges -/

/-- The characters of a range between two numbers. -/
def rangeChars (lo hi : Int) : List Char :=
  lo.repr.toList ++ (['.', '.'] ++ hi.repr.toList)

/-- Numbers have no other characters than digits and a minus sign. -/
theorem not_mem_repr {c : Char} (hdigit : c.isDigit = false) (hminus : c ≠ '-') (n : Int) :
    c ∉ n.repr.toList := by
  intro hc
  rcases Numeral.isDigit_of_mem_repr hc with h | h
  · rw [hdigit] at h
    cases h
  · exact hminus h

/-- Ranges have no other characters than those of numbers and dots. -/
theorem not_mem_rangeChars {c : Char} (hdigit : c.isDigit = false) (hminus : c ≠ '-')
    (hdot : c ≠ '.') (lo hi : Int) : c ∉ rangeChars lo hi := by
  have hlo := not_mem_repr hdigit hminus lo
  have hhi := not_mem_repr hdigit hminus hi
  simp [rangeChars, hlo, hhi, hdot]

/-- A range is cut at its dots. -/
theorem cut_rangeChars (lo hi : Int) :
    Text.cut ['.', '.'] (rangeChars lo hi) = (lo.repr.toList, some hi.repr.toList) :=
  Text.cut_append (not_mem_repr (by decide) (by decide) lo)

/-- A range is read as the words of its two numbers. -/
theorem readRange_rangeChars {sign : Sign} {lo hi : Int}
    (hlo : readNumber w sign lo.repr.toList = .ok lo)
    (hhi : readNumber w sign hi.repr.toList = .ok hi) (hle : lo ≤ hi) :
    readRange w sign (rangeChars lo hi) = .ok ⟨BitVec.ofInt w lo, BitVec.ofInt w hi⟩ := by
  unfold readRange
  rw [cut_rangeChars]
  simp only [hlo, hhi, Option.getD_some]
  exact if_neg (Int.not_lt.mpr hle)

/-- The signed number of a word is read back. -/
theorem readNumber_toInt (x : BitVec w) :
    readNumber w .signed x.toInt.repr.toList = .ok x.toInt := by
  have habs : x.toInt.natAbs < 2 ^ w := by
    have hlo : -2 ^ w ≤ 2 * x.toInt := BitVec.le_two_mul_toInt
    have hhi : 2 * x.toInt < 2 ^ w := BitVec.two_mul_toInt_lt
    have hpow : ((2 ^ w : Nat) : Int) = 2 ^ w := Int.natCast_pow 2 w
    have hpos : 0 < 2 ^ w := Nat.two_pow_pos w
    omega
  have hread := Numeral.readSigned_repr habs (BitVec.le_toInt x) (BitVec.toInt_lt (x := x))
  simp only [readNumber, hread]
  rfl

/-- The unsigned number of a word is read back. -/
theorem readNumber_toNat (x : BitVec w) :
    readNumber w .unsigned (x.toNat : Int).repr.toList = .ok (x.toNat : Int) := by
  have hread : Numeral.readUnsigned (Nat.pow 2 w - 1) (x.toNat : Int).repr.toList =
      .ok x.toNat := by
    have hlist : (x.toNat : Int).repr.toList = Nat.toDigits 10 x.toNat := Nat.toList_repr
    rw [hlist]
    exact Numeral.readUnsigned_toDigits (Nat.le_sub_one_of_lt x.isLt)
  simp only [readNumber, hread]
  rfl

/-- A signed range that is not empty is read back. -/
theorem readSignedPart_rangeChars {b : Bounds w} (h : b.lo.toInt ≤ b.hi.toInt) :
    readSignedPart w (rangeChars b.lo.toInt b.hi.toInt) = .ok b := by
  have hstar : rangeChars b.lo.toInt b.hi.toInt ≠ ['*'] := by
    intro heq
    have hmem : '.' ∈ rangeChars b.lo.toInt b.hi.toInt := by simp [rangeChars]
    rw [heq] at hmem
    exact absurd hmem (by decide)
  rw [readSignedPart, if_neg hstar,
    readRange_rangeChars (readNumber_toInt _) (readNumber_toInt _) h, BitVec.ofInt_toInt,
    BitVec.ofInt_toInt]
  rfl

/-- An unsigned range that is not empty is read back. -/
theorem readUnsignedPart_rangeChars {b : Bounds w} (h : b.lo ≤ b.hi) (others : List (List Char)) :
    readUnsignedPart w (rangeChars b.lo.toNat b.hi.toNat :: others) = .ok (b, others) := by
  have hfinal : Text.dropFinal 'u' (rangeChars b.lo.toNat b.hi.toNat) =
      rangeChars b.lo.toNat b.hi.toNat :=
    Text.dropFinal_of_not_mem (not_mem_rangeChars (by decide) (by decide) (by decide) _ _)
  have hread := readRange_rangeChars (readNumber_toNat b.lo) (readNumber_toNat b.hi)
    (Int.ofNat_le.mpr (BitVec.le_def.mp h))
  simp only [readUnsignedPart, cut_rangeChars, hfinal, hread, BitVec.ofInt_natCast,
    BitVec.ofNat_toNat, BitVec.setWidth_eq]
  rfl

/-! ## Values -/

/-- Patterns have no other characters than the three that are allowed. -/
theorem not_mem_patternChars {c : Char} (hzero : c ≠ '0') (hone : c ≠ '1') (hstar : c ≠ '*')
    (k : KnownBits w) : c ∉ k.patternChars := by
  intro hc
  obtain ⟨i, -, hi⟩ := List.mem_map.mp hc
  unfold KnownBits.patternChar at hi
  split at hi
  · exact hzero hi.symm
  · split at hi
    · exact hone hi.symm
    · exact hstar hi.symm

/-- The three parts of a value are read back. -/
theorem readParts_eq_ok {c : Constraint w} (hsigned : c.signed.lo.toInt ≤ c.signed.hi.toInt)
    (hunsigned : c.unsigned.lo ≤ c.unsigned.hi) (hbits : c.bits.Disjoint) :
    readParts w (rangeChars c.signed.lo.toInt c.signed.hi.toInt)
      [rangeChars c.unsigned.lo.toNat c.unsigned.hi.toNat, c.bits.patternChars] = .ok c := by
  have hpattern : readPatternPart w [c.bits.patternChars] = .ok (c.bits, []) := by
    have hread := KnownBits.ofPattern_pattern hbits
    rw [KnownBits.pattern] at hread
    simp only [readPatternPart, hread]
  unfold readParts
  rw [if_neg (by simp)]
  simp only [readSignedPart_rangeChars hsigned, readUnsignedPart_rangeChars hunsigned, bind,
    Except.bind, hpattern]
  rfl

/-- The characters of a counter, which is written only if it is positive. -/
def counterChars (n : Int) : List Char :=
  if 0 < n then '@' :: n.repr.toList else []

/-- The characters of the text of a value. -/
theorem toList_write (v : Value w) :
    (write v).toList =
      (rangeChars v.constraint.signed.lo.toInt v.constraint.signed.hi.toInt ++ ',' ::
        (rangeChars v.constraint.unsigned.lo.toNat v.constraint.unsigned.hi.toNat ++ ',' ::
          v.bits.patternChars)) ++ counterChars v.widen := by
  have hcounter : (if 0 < v.widen then "@" ++ v.widen.repr else "").toList =
      counterChars v.widen := by
    unfold counterChars
    split
    · rw [String.toList_append]
      rfl
    · rfl
  have hnatural (n : Nat) : (n : Int).repr = n.repr := rfl
  simp only [write, Bounds.signedText, Bounds.unsignedText, Word.signedText, Word.unsignedText,
    KnownBits.pattern, String.toList_append, String.toList_ofList, hcounter, rangeChars, hnatural]
  simp

/-- The counter is cut off the text of a value. -/
theorem cut_counterChars {body : List Char} (hbody : '@' ∉ body) (n : Int) :
    Text.cut ['@'] (body ++ counterChars n) =
      (body, if 0 < n then some n.repr.toList else none) := by
  unfold counterChars
  split
  · exact Text.cut_append hbody
  · rw [List.append_nil]
    exact Text.cut_of_not_mem hbody

/-- A counter is read as zero if it is not positive. -/
theorem readCounter_repr {n : Int} (hn : n < 2 ^ 63) :
    readCounter (if 0 < n then some n.repr.toList else none) = .ok (max 0 n) := by
  by_cases hpos : 0 < n
  · have hread : Numeral.readDecimal n.repr.toList = .ok n :=
      Numeral.readDecimal_repr (by omega) hn
    rw [if_pos hpos]
    simp only [readCounter, hread]
    rw [if_neg (by omega), Int.max_eq_right (by omega)]
  · rw [if_neg hpos, Int.max_eq_left (by omega)]
    rfl

/-- The text of a value of a policy is read as its constraint and its counter, or as zero
in place of a negative counter. -/
theorem read_write (hv : p.Valid v) (hcounter : v.widen < 2 ^ 63) :
    read w (write v) = .ok ⟨v.constraint, max 0 v.widen⟩ := by
  have hmember := hv.isTightest.signed_lo.1
  have hsigned : v.constraint.signed.lo.toInt ≤ v.constraint.signed.hi.toInt :=
    BitVec.sle_iff_toInt_le.mp hmember.1.2
  have hunsigned : v.constraint.unsigned.lo ≤ v.constraint.unsigned.hi :=
    hv.isTightest.unsigned_lo.1.2.1.2
  have hcomma (lo hi : Int) : ',' ∉ rangeChars lo hi :=
    not_mem_rangeChars (by decide) (by decide) (by decide) lo hi
  have hat (lo hi : Int) : '@' ∉ rangeChars lo hi :=
    not_mem_rangeChars (by decide) (by decide) (by decide) lo hi
  have hpattern : ',' ∉ v.bits.patternChars ∧ '@' ∉ v.bits.patternChars :=
    ⟨not_mem_patternChars (by decide) (by decide) (by decide) _,
      not_mem_patternChars (by decide) (by decide) (by decide) _⟩
  have hparts := readParts_eq_ok hsigned hunsigned hv.disjoint_bits
  unfold read
  rw [toList_write, cut_counterChars (by simp [hat, hpattern.2])]
  simp only [Text.splitParts_append (hcomma _ _), Text.splitParts_of_not_mem hpattern.1,
    readCounter_repr hcounter, bind, Except.bind]
  rw [Value.bits, hparts]
  rfl

/-! ## What texts are read as -/

/-- A counter that is read has 64 bits. -/
theorem lt_of_readCounter {counter? : Option (List Char)} {n : Int}
    (h : readCounter counter? = .ok n) : n < 2 ^ 63 := by
  unfold readCounter at h
  split at h
  · cases h
    decide
  · split at h
    · rename_i hread
      split at h
      · cases h
      · cases h
        exact (Numeral.range_of_readDecimal hread).2
    · cases h

/-- The counter of a text has 64 bits. -/
theorem widen_lt_of_read {text : String} {reading : Reading w} (h : read w text = .ok reading) :
    reading.widen < 2 ^ 63 := by
  unfold read at h
  cases hcounter : readCounter (Text.cut ['@'] text.toList).2 with
  | error cause =>
      simp only [hcounter, bind, Except.bind] at h
      cases h
  | ok n =>
      simp only [hcounter, bind, Except.bind] at h
      split at h
      · cases h
      · cases h
        exact lt_of_readCounter hcounter

/-- Counters that are not positive are not written. -/
theorem write_eq_of_nonpos {c : Constraint w} {m n : Int} (hm : m ≤ 0) (hn : n ≤ 0) :
    write ⟨c, m⟩ = write ⟨c, n⟩ := by
  simp only [write, Value.bits]
  rw [if_neg (Int.not_lt.mpr hm), if_neg (Int.not_lt.mpr hn)]

/-- The value that is made from the text of a value has the same text.  It is the value itself
unless that has a negative counter, which is not written. -/
theorem exists_make?_write_eq (hv : p.Valid v) :
    ∃ u, p.make? v.constraint (max 0 v.widen) = some u ∧ write u = write v := by
  refine ⟨⟨v.constraint, p.normalWiden v.constraint (max 0 v.widen)⟩, ?_, ?_⟩
  · rw [Policy.make?, hv.canonical, Option.map_some]
  · rcases Int.le_total 0 v.widen with hwiden | hwiden
    · rw [Int.max_eq_right hwiden, hv.normal]
    · have hnormal := hv.normal
      rw [Int.max_eq_left hwiden]
      unfold Policy.normalWiden at hnormal ⊢
      split
      · exact write_eq_of_nonpos (Int.le_refl 0) hwiden
      · rename_i hlarge
        rw [if_neg hlarge] at hnormal
        split
        · rename_i hfull
          rw [if_pos hfull] at hnormal
          rw [hnormal]
        · exact write_eq_of_nonpos (Int.le_refl 0) hwiden

end ValueText
end WordRanges
