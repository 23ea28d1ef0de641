import WordRanges.Proofs.Notation.Grammar

/-!
# Reading accepts exactly the grammar

Each step of reading a value accepts the texts of one kind of form and gives what the form
denotes.  Put together, a text is read exactly if it is the text of a form; there is only one
such form, and what was read is what it denotes.

Main results:

- Theorem {lit}`readNumber_eq_ok_iff`: a number of a word.
- Theorems {lit}`readSignedPart_eq_ok_iff`, {lit}`readUnsignedPart_eq_ok_iff` and
  {lit}`readPatternPart_eq_ok_iff`: the parts of a value.
- Theorem {lit}`read_eq_ok_iff_form`: a whole value.
-/

namespace WordRanges

/-! ## Cutting and splitting -/

namespace Text

variable {separator : Char} {ds cs before after rest : List Char}

/-- A text starts with the given beginning if something is left after it. -/
theorem eq_append_of_afterStart? (h : afterStart? ds cs = some rest) : cs = ds ++ rest := by
  induction ds generalizing cs with
  | nil =>
      cases h
      rfl
  | cons d ds ih =>
      cases cs with
      | nil => cases h
      | cons c cs =>
          rw [afterStart?] at h
          by_cases hc : c = d
          · rw [if_pos hc] at h
            rw [hc, ih h, List.cons_append]
          · rw [if_neg hc] at h
            cases h

/-- What stands before the first separator and what stands after it make up the text. -/
theorem cut_eq (ds cs : List Char) :
    (cut ds cs).1 ++ (cut ds cs).2.elim [] (ds ++ ·) = cs := by
  induction cs with
  | nil =>
      cases hstart : afterStart? ds [] with
      | none => simp [cut, hstart]
      | some rest => simpa [cut, hstart] using (eq_append_of_afterStart? hstart).symm
  | cons c cs ih =>
      cases hstart : afterStart? ds (c :: cs) with
      | none => simp [cut, hstart, ih]
      | some rest => simpa [cut, hstart] using (eq_append_of_afterStart? hstart).symm

/-- The parts between separators make up the text. -/
theorem splitParts_eq (separator : Char) (cs : List Char) :
    (splitParts separator cs).1 ++ (splitParts separator cs).2.flatMap (separator :: ·) = cs := by
  induction cs with
  | nil => rfl
  | cons c cs ih =>
      rw [splitParts]
      by_cases hc : c = separator
      · simp [hc, ih]
      · simp [hc, ih]

/-- A text is the one without its final character, perhaps with this character after it. -/
theorem dropFinal_cases (final : Char) (cs : List Char) :
    cs = dropFinal final cs ∨ cs = dropFinal final cs ++ [final] := by
  unfold dropFinal
  by_cases hlast : cs.getLast? = some final
  · rw [if_pos hlast]
    right
    rcases List.getLast?_eq_some_iff.mp hlast with ⟨ds, rfl⟩
    simp
  · rw [if_neg hlast]
    exact .inl rfl

end Text

/-! ## Bit patterns -/

namespace KnownBits

variable {w : Nat} {c : Char} {cs : List Char} {k : KnownBits w}

open ValueText

/-- The byte of a character of a pattern. -/
def byteOf (c : Char) : UInt8 := UInt8.ofNat c.toNat

/-- The characters of patterns are single bytes. -/
theorem encode_of_mem (hc : c ∈ patternAlphabet) : String.utf8EncodeChar c = [byteOf c] := by
  have hall : ∀ c ∈ patternAlphabet, String.utf8EncodeChar c = [byteOf c] := by
    simp only [patternAlphabet, List.forall_mem_cons, List.not_mem_nil, false_implies,
      implies_true, and_true]
    decide
  exact hall c hc

/-- The byte is one of those that are allowed in patterns. -/
def IsPatternByte (b : UInt8) : Prop :=
  b = zeroByte ∨ b = oneByte ∨ b = unknownByte

/-- A character all of whose bytes are allowed in patterns is allowed itself: other characters
have a first byte of another kind. -/
theorem mem_of_encode (h : ∀ b ∈ String.utf8EncodeChar c, IsPatternByte b) :
    c ∈ patternAlphabet := by
  have hcode : c.val.toNat = c.toNat := rfl
  have hbyte {n : Nat} (hn : n < 256) (hb : IsPatternByte (UInt8.ofNat n)) :
      n = 48 ∨ n = 49 ∨ n = 42 := by
    have htoNat : (UInt8.ofNat n).toNat = n := by
      rw [UInt8.toNat_ofNat']
      omega
    rcases hb with hb | hb | hb <;> rw [hb] at htoNat
    · exact .inl htoNat.symm
    · exact .inr (.inl htoNat.symm)
    · exact .inr (.inr htoNat.symm)
  have hchar {d : Char} (hd : c.toNat = d.toNat) : c = d := Char.toNat_inj.mp hd
  unfold String.utf8EncodeChar at h
  simp only [hcode] at h
  split at h
  · rcases hbyte (by omega) (h _ List.mem_cons_self) with hn | hn | hn
    · rw [hchar (d := '0') hn]
      decide
    · rw [hchar (d := '1') hn]
      decide
    · rw [hchar (d := '*') hn]
      decide
  · split at h
    · have hfirst := hbyte (by omega) (h _ List.mem_cons_self)
      omega
    · split at h
      · have hfirst := hbyte (by omega) (h _ List.mem_cons_self)
        omega
      · have hfirst := hbyte (by omega) (h _ List.mem_cons_self)
        omega

/-- Patterns of allowed characters have one byte for each of them. -/
theorem bytes_of_allowed (h : ∀ c ∈ cs, c ∈ patternAlphabet) :
    (String.ofList cs).toUTF8.toList = cs.map byteOf := by
  rw [bytes_ofList]
  induction cs with
  | nil => rfl
  | cons c cs ih =>
      rw [List.forall_mem_cons] at h
      rw [List.flatMap_cons, encode_of_mem h.1, ih h.2, List.map_cons, List.singleton_append]

/-- The mask of the byte of a character is the mask of the character. -/
theorem maskOf_eq_mask (f : PatternForm w) (hc : c ∈ patternAlphabet) :
    maskOf w (byteOf c) (f.chars.map byteOf) = f.mask c := by
  have hbytes : ∀ d ∈ patternAlphabet, ∀ e ∈ patternAlphabet, byteOf d = byteOf e → d = e := by
    simp [patternAlphabet, byteOf]
  refine BitVec.eq_of_getLsbD_eq fun i hi => ?_
  rw [getLsbD_maskOf hi, f.getLsbD_mask hi, ← List.map_reverse, List.getElem?_map]
  cases hplace : f.chars.reverse[i]? with
  | none => simp
  | some d =>
      have hd : d ∈ patternAlphabet :=
        f.allowed d (List.mem_reverse.mp (List.mem_of_getElem? hplace))
      simp only [Option.map_some, Option.some.injEq, decide_eq_decide]
      exact ⟨hbytes d hd c hc, congrArg byteOf⟩

/-- The masks of the bytes of a pattern are the bits that it denotes. -/
theorem maskOf_eq_bits (f : PatternForm w) :
    ⟨maskOf w zeroByte (f.chars.map byteOf), maskOf w oneByte (f.chars.map byteOf)⟩ = f.bits := by
  have hzeros := maskOf_eq_mask (c := '0') f (by decide)
  have hones := maskOf_eq_mask (c := '1') f (by decide)
  exact congrArg₂ KnownBits.mk hzeros hones

/-- No byte is found that is not allowed exactly if all bytes are allowed. -/
theorem find?_eq_none_iff_isPatternByte (bytes : List UInt8) :
    bytes.find? (fun b => b ≠ zeroByte ∧ b ≠ oneByte ∧ b ≠ unknownByte) = none ↔
      ∀ b ∈ bytes, IsPatternByte b := by
  simp only [List.find?_eq_none, decide_eq_true_eq, IsPatternByte]
  refine forall₂_congr fun b _ => ?_
  tauto

/-- A text all of whose bytes are allowed in patterns has allowed characters only. -/
theorem allowed_of_bytes (h : ∀ b ∈ (String.ofList cs).toUTF8.toList, IsPatternByte b) :
    ∀ c ∈ cs, c ∈ patternAlphabet := by
  intro c hc
  refine mem_of_encode fun b hb => h b ?_
  rw [bytes_ofList]
  exact List.mem_flatMap.mpr ⟨c, hc, hb⟩

/-- The bytes of a pattern are allowed. -/
theorem isPatternByte_of_mem (f : PatternForm w) : ∀ b ∈ f.chars.map byteOf, IsPatternByte b := by
  have hall : ∀ c ∈ patternAlphabet, IsPatternByte (byteOf c) := by
    simp [patternAlphabet, IsPatternByte, byteOf, zeroByte, oneByte, unknownByte]
  intro b hb
  rcases List.mem_map.mp hb with ⟨c, hc, rfl⟩
  exact hall c (f.allowed c hc)

/-- Exactly the patterns of a width are read, as the bits that they denote. -/
theorem ofPattern_eq_ok_iff :
    ofPattern w (String.ofList cs) = .ok k ↔ ∃ f : PatternForm w, f.chars = cs ∧ f.bits = k := by
  constructor
  · intro h
    unfold ofPattern at h
    simp only at h
    split at h
    · cases h
    · rename_i hlength
      split at h
      · cases h
      · rename_i hnone
        have hallowed := allowed_of_bytes ((find?_eq_none_iff_isPatternByte _).mp hnone)
        rw [bytes_of_allowed hallowed] at h hlength
        rw [List.length_map, not_not] at hlength
        refine ⟨⟨cs, hlength, hallowed⟩, rfl, ?_⟩
        rw [← Except.ok.inj h]
        exact (maskOf_eq_bits ⟨cs, hlength, hallowed⟩).symm
  · rintro ⟨f, rfl, rfl⟩
    have hnone := (find?_eq_none_iff_isPatternByte _).mpr (isPatternByte_of_mem f)
    unfold ofPattern
    rw [bytes_of_allowed f.allowed]
    simp only [hnone, List.length_map, f.length_eq, ne_eq, not_true_eq_false, if_false]
    exact congrArg Except.ok (maskOf_eq_bits f)

end KnownBits

namespace ValueText

variable {w : Nat} {sign : Sign} {cs : List Char} {b : Bounds w}

/-- A result does not depend on how failures are reported. -/
theorem mapError_eq_ok_iff {α ε δ : Type} {f : ε → δ} {x : Except ε α} {a : α} :
    x.mapError f = .ok a ↔ x = .ok a := by
  cases x <;> simp [Except.mapError]

/-- Two steps have a result exactly if the second one has it for a result of the first. -/
theorem bind_eq_ok_iff {α β ε : Type} {x : Except ε α} {f : α → Except ε β} {a : β} :
    x >>= f = .ok a ↔ ∃ y, x = .ok y ∧ f y = .ok a := by
  cases x <;> simp [bind, Except.bind]

/-! ## Ranges -/

/-- Exactly the literals with a sign are read as signed numbers that are in range. -/
theorem readNumber_signed_eq_ok_iff {n : Int} :
    readNumber w .signed cs = .ok n ↔
      Sign.signed.Denotes cs n ∧ -2 ^ w ≤ 2 * n ∧ 2 * n < 2 ^ w := by
  unfold readNumber
  rw [mapError_eq_ok_iff]
  exact Numeral.readSigned_eq_ok_iff

/-- Exactly the literals without a sign are read as unsigned numbers that are in range. -/
theorem readNumber_unsigned_eq_ok_iff {n : Int} :
    readNumber w .unsigned cs = .ok n ↔ Sign.unsigned.Denotes cs n ∧ n < 2 ^ w := by
  have hpos : 0 < 2 ^ w := Nat.two_pow_pos w
  have hpow : ((2 ^ w : Nat) : Int) = 2 ^ w := Int.natCast_pow 2 w
  have hread : (Numeral.readUnsigned (Nat.pow 2 w - 1) cs).map Int.ofNat = .ok n ↔
      ∃ m : Nat, Numeral.readUnsigned (2 ^ w - 1) cs = .ok m ∧ (m : Int) = n := by
    cases hm : Numeral.readUnsigned (2 ^ w - 1) cs with
    | error fault => simp_all [Except.map]
    | ok m => simp_all [Except.map]
  unfold readNumber
  rw [mapError_eq_ok_iff]
  simp only [hread, Numeral.readUnsigned_eq_ok_iff, Sign.Denotes]
  constructor
  · rintro ⟨m, ⟨hliteral, hm⟩, rfl⟩
    exact ⟨⟨m, hliteral, rfl⟩, by omega⟩
  · rintro ⟨⟨m, hliteral, rfl⟩, hm⟩
    exact ⟨m, ⟨hliteral, by omega⟩, rfl⟩

/-- Exactly the numbers of words are read. -/
theorem readNumber_eq_ok_iff {n : Int} :
    readNumber w sign cs = .ok n ↔
      ∃ f : NumberForm w sign, f.chars = cs ∧ sign.number f.word = n := by
  have hpow : ((2 ^ w : Nat) : Int) = 2 ^ w := Int.natCast_pow 2 w
  cases sign with
  | signed =>
      rw [readNumber_signed_eq_ok_iff]
      constructor
      · rintro ⟨hdenotes, hlo, hhi⟩
        have hword : Sign.signed.number (BitVec.ofInt w n) = n := by
          rw [Sign.number, BitVec.toInt_ofInt]
          exact Int.bmod_eq_of_le_mul_two (by omega) (by omega)
        exact ⟨⟨cs, BitVec.ofInt w n, by rwa [hword]⟩, rfl, hword⟩
      · rintro ⟨f, rfl, rfl⟩
        exact ⟨f.denotes, BitVec.le_two_mul_toInt, BitVec.two_mul_toInt_lt⟩
  | unsigned =>
      rw [readNumber_unsigned_eq_ok_iff]
      constructor
      · rintro ⟨hdenotes, hlt⟩
        rcases hdenotes with ⟨m, hliteral, rfl⟩
        have hword : Sign.unsigned.number (BitVec.ofNat w m) = m := by
          rw [Sign.number, BitVec.toNat_ofNat, Nat.mod_eq_of_lt (by omega)]
        exact ⟨⟨cs, BitVec.ofNat w m, m, hliteral, hword⟩, rfl, hword⟩
      · rintro ⟨f, rfl, rfl⟩
        have hlt := f.word.isLt
        refine ⟨f.denotes, ?_⟩
        rw [Sign.number]
        omega

/-- Exactly two numbers are read as a range that are not inverted.  A text without dots counts
twice. -/
theorem readRange_eq_ok_iff :
    readRange w sign cs = .ok b ↔
      ∃ lo hi : NumberForm w sign, lo.chars = (Text.cut ['.', '.'] cs).1 ∧
        hi.chars = (Text.cut ['.', '.'] cs).2.getD (Text.cut ['.', '.'] cs).1 ∧
        sign.number lo.word ≤ sign.number hi.word ∧ b = ⟨lo.word, hi.word⟩ := by
  unfold readRange
  constructor
  · intro h
    rcases bind_eq_ok_iff.mp h with ⟨m, hm, h⟩
    rcases bind_eq_ok_iff.mp h with ⟨n, hn, h⟩
    rcases readNumber_eq_ok_iff.mp (mapError_eq_ok_iff.mp hm) with ⟨lo, hlo, rfl⟩
    rcases readNumber_eq_ok_iff.mp (mapError_eq_ok_iff.mp hn) with ⟨hi, hhi, rfl⟩
    split at h
    · cases h
    · rename_i hordered
      refine ⟨lo, hi, hlo, hhi, Int.not_lt.mp hordered, ?_⟩
      rw [sign.ofInt_number, sign.ofInt_number] at h
      exact (Except.ok.inj h).symm
  · rintro ⟨lo, hi, hlo, hhi, hordered, rfl⟩
    have hreadLo := readNumber_eq_ok_iff.mpr ⟨lo, hlo, rfl⟩
    have hreadHi := readNumber_eq_ok_iff.mpr ⟨hi, hhi, rfl⟩
    have hbounds : (⟨BitVec.ofInt w (sign.number lo.word), BitVec.ofInt w (sign.number hi.word)⟩ :
        Bounds w) = ⟨lo.word, hi.word⟩ := by
      rw [sign.ofInt_number, sign.ofInt_number]
    simp only [hreadLo, hreadHi]
    rw [← hbounds]
    exact if_neg (Int.not_lt.mpr hordered)

/-- The text of a range is read as its bounds. -/
theorem RangeForm.readRange_eq (f : RangeForm w sign) :
    readRange w sign f.chars = .ok f.bounds := by
  rw [readRange_eq_ok_iff, f.cut_chars]
  exact ⟨f.lo, f.hi, rfl, rfl, f.ordered, rfl⟩

/-- What is read as a range is the text of a number or of a range. -/
theorem exists_of_readRange (h : readRange w sign cs = .ok b) :
    (∃ n : NumberForm w sign, n.chars = cs ∧ b = ⟨n.word, n.word⟩) ∨
      ∃ f : RangeForm w sign, f.chars = cs ∧ f.bounds = b := by
  rcases readRange_eq_ok_iff.mp h with ⟨lo, hi, hlo, hhi, hordered, rfl⟩
  have htext := Text.cut_eq ['.', '.'] cs
  cases hcut : (Text.cut ['.', '.'] cs).2 with
  | none =>
      rw [hcut, Option.elim_none, List.append_nil] at htext
      rw [hcut, Option.getD_none, ← hlo] at hhi
      have hsame : hi = lo := NumberForm.chars_injective hhi
      subst hsame
      exact .inl ⟨hi, hlo.trans htext, rfl⟩
  | some after =>
      rw [hcut, Option.elim_some] at htext
      rw [hcut, Option.getD_some] at hhi
      refine .inr ⟨⟨lo, hi, hordered⟩, ?_, rfl⟩
      rw [RangeForm.chars, hlo, hhi]
      exact htext

/-- Exactly the signed ranges are read, as the bounds that they denote. -/
theorem readSignedPart_eq_ok_iff :
    readSignedPart w cs = .ok b ↔ ∃ f : SignedForm w, f.chars = cs ∧ f.bounds = b := by
  unfold readSignedPart
  constructor
  · intro h
    split at h
    · rename_i hstar
      exact ⟨.all, hstar.symm, Except.ok.inj h⟩
    · rcases exists_of_readRange (mapError_eq_ok_iff.mp h) with ⟨n, hn, rfl⟩ | ⟨f, hf, hb⟩
      · exact ⟨.single n, hn, rfl⟩
      · exact ⟨.between f, hf, hb⟩
  · rintro ⟨f, rfl, rfl⟩
    by_cases hstar : f.chars = ['*']
    · have hall : f = .all := SignedForm.chars_injective hstar
      rw [if_pos hstar, hall]
      rfl
    · rw [if_neg hstar, mapError_eq_ok_iff]
      cases f with
      | all => exact absurd rfl hstar
      | single n =>
          have hcut : Text.cut ['.', '.'] n.chars = (n.chars, none) :=
            Text.cut_of_not_mem (n.denotes.not_mem (by decide))
          rw [readRange_eq_ok_iff, SignedForm.chars, hcut]
          exact ⟨n, n, rfl, rfl, Int.le_refl _, rfl⟩
      | between r => exact r.readRange_eq

/-! ## Parts -/

/-- An unsigned range is cut at its dots. -/
theorem UnsignedForm.isSome_cut (u : UnsignedForm w) :
    (Text.cut ['.', '.'] u.chars).2.isSome = true := by
  have hlo : '.' ∉ u.range.lo.chars := u.range.lo.denotes.not_mem (by decide)
  have hchars : u.chars = u.range.lo.chars ++
      (['.', '.'] ++ (u.range.hi.chars ++ if u.marked then ['u'] else [])) := by
    simp [chars, RangeForm.chars]
  rw [hchars, Text.cut_append hlo]
  rfl

/-- A part with dots that is read as a range, with or without its final letter, is an unsigned
range. -/
theorem exists_unsignedForm (hdots : (Text.cut ['.', '.'] cs).2.isSome = true)
    (h : readRange w .unsigned (Text.dropFinal 'u' cs) = .ok b) :
    ∃ u : UnsignedForm w, u.chars = cs ∧ u.range.bounds = b := by
  have hfinal := Text.dropFinal_cases 'u' cs
  rcases exists_of_readRange h with ⟨n, hn, -⟩ | ⟨r, hr, hb⟩
  · -- A single number has no dots, and its final letter is none.
    have hdot : '.' ∉ n.chars := n.denotes.not_mem (by decide)
    have hnone : '.' ∉ cs := by
      rw [← hn] at hfinal
      rcases hfinal with heq | heq <;> rw [heq] <;> simp [hdot]
    rw [Text.cut_of_not_mem hnone] at hdots
    cases hdots
  · rw [← hr] at hfinal
    rcases hfinal with heq | heq
    · exact ⟨⟨r, false⟩, by simp [UnsignedForm.chars, ← heq], hb⟩
    · exact ⟨⟨r, true⟩, by simp [UnsignedForm.chars, ← heq], hb⟩

/-- An unsigned range is read if the first part has dots, and the parts after it are left. -/
theorem readUnsignedPart_eq_ok_iff {parts rest : List (List Char)} :
    readUnsignedPart w parts = .ok (b, rest) ↔
      ∃ u? : Option (UnsignedForm w), parts = u?.toList.map UnsignedForm.chars ++ rest ∧
        b = u?.elim (.fullUnsigned w) (·.range.bounds) ∧
        (u? = none → ∀ part, parts.head? = some part →
          (Text.cut ['.', '.'] part).2.isSome = false) := by
  constructor
  · intro h
    cases parts with
    | nil =>
        cases h
        exact ⟨none, rfl, rfl, fun _ part hpart => by cases hpart⟩
    | cons part others =>
        rw [readUnsignedPart] at h
        by_cases hdots : (Text.cut ['.', '.'] part).2.isSome = true
        · rw [if_pos hdots] at h
          split at h
          · cases h
          · rename_i bounds hread
            cases h
            rcases exists_unsignedForm hdots hread with ⟨u, hu, hb⟩
            exact ⟨some u, by simp [hu], hb.symm, fun hnone => by cases hnone⟩
        · rw [if_neg hdots] at h
          cases h
          refine ⟨none, rfl, rfl, fun _ first hfirst => ?_⟩
          cases hfirst
          exact Bool.eq_false_of_not_eq_true hdots
  · rintro ⟨u?, rfl, rfl, hnone⟩
    cases u? with
    | none =>
        cases rest with
        | nil => rfl
        | cons part others =>
            have hdots := hnone rfl part rfl
            simp [readUnsignedPart, hdots]
    | some u =>
        have hread := u.range.readRange_eq
        simp [readUnsignedPart, u.isSome_cut, u.dropFinal_chars, hread]

/-- A pattern is read if there is a part, and the parts after it are left. -/
theorem readPatternPart_eq_ok_iff {parts rest : List (List Char)} {k : KnownBits w} :
    readPatternPart w parts = .ok (k, rest) ↔
      ∃ k? : Option (PatternForm w), parts = k?.toList.map PatternForm.chars ++ rest ∧
        k = k?.elim (.unknown w) (·.bits) ∧ (k? = none → parts = []) := by
  constructor
  · intro h
    cases parts with
    | nil =>
        cases h
        exact ⟨none, rfl, rfl, fun _ => rfl⟩
    | cons part others =>
        rw [readPatternPart] at h
        split at h
        · cases h
        · rename_i bits hread
          cases h
          rcases KnownBits.ofPattern_eq_ok_iff.mp hread with ⟨f, hf, hbits⟩
          exact ⟨some f, by simp [hf], hbits.symm, fun hnone => by cases hnone⟩
  · rintro ⟨k?, hparts, rfl, hnone⟩
    cases k? with
    | none =>
        have hnil := hnone rfl
        subst hnil
        have hrest : rest = [] := by simpa using hparts.symm
        rw [hrest]
        rfl
    | some f =>
        have hread := KnownBits.ofPattern_eq_ok_iff.mpr ⟨f, rfl, rfl⟩
        subst hparts
        simp [readPatternPart, hread]

/-- Exactly the parts of a constraint are read, as the constraint that they denote. -/
theorem readParts_eq_ok_iff {others : List (List Char)} {d : Constraint w} :
    readParts w cs others = .ok d ↔
      ∃ f : ConstraintForm w, f.signed.chars = cs ∧ f.others = others ∧ f.constraint = d := by
  constructor
  · intro h
    unfold readParts at h
    split at h
    · cases h
    · rcases bind_eq_ok_iff.mp h with ⟨signed, hsigned, h⟩
      rcases bind_eq_ok_iff.mp h with ⟨⟨unsigned, rest⟩, hunsigned, h⟩
      rcases bind_eq_ok_iff.mp h with ⟨⟨bits, last⟩, hpattern, h⟩
      cases last with
      | cons part parts => cases h
      | nil =>
          cases h
          rcases readSignedPart_eq_ok_iff.mp hsigned with ⟨s, hs, hbounds⟩
          rcases readUnsignedPart_eq_ok_iff.mp hunsigned with ⟨u?, rfl, rfl, -⟩
          rcases readPatternPart_eq_ok_iff.mp hpattern with ⟨k?, rfl, rfl, -⟩
          refine ⟨⟨s, u?, k?⟩, hs, by simp [ConstraintForm.others], ?_⟩
          rw [ConstraintForm.constraint, hbounds]
  · rintro ⟨f, rfl, rfl, rfl⟩
    have hlength : ¬ 2 < f.others.length := by
      rcases f with ⟨s, u?, k?⟩
      cases u? <;> cases k? <;> simp [ConstraintForm.others]
    have hsigned := readSignedPart_eq_ok_iff.mpr ⟨f.signed, rfl, rfl⟩
    have hunsigned : readUnsignedPart w f.others =
        .ok (f.constraint.unsigned, f.pattern?.toList.map PatternForm.chars) := by
      refine readUnsignedPart_eq_ok_iff.mpr ⟨f.unsigned?, rfl, rfl, fun hnone part hpart => ?_⟩
      -- Without an unsigned range the next part is the pattern, which has no dots.
      rw [ConstraintForm.others, hnone, Option.toList_none, List.map_nil, List.nil_append] at hpart
      rcases List.mem_map.mp (List.mem_of_head? hpart) with ⟨k, -, rfl⟩
      have hdot : '.' ∉ k.chars := k.not_mem (by decide)
      rw [Text.cut_of_not_mem hdot]
      rfl
    have hpattern : readPatternPart w (f.pattern?.toList.map PatternForm.chars) =
        .ok (f.constraint.bits, []) := by
      refine readPatternPart_eq_ok_iff.mpr ⟨f.pattern?, by simp, rfl, fun hnone => ?_⟩
      simp [hnone]
    unfold readParts
    rw [if_neg hlength]
    simp only [hsigned, hunsigned, bind, Except.bind, hpattern]
    rfl

/-- Exactly the counters are read, or zero if there is none. -/
theorem readCounter_eq_ok_iff {counter? : Option (List Char)} {n : Int} :
    readCounter counter? = .ok n ↔
      ∃ f? : Option CounterForm, f?.map CounterForm.chars = counter? ∧
        n = f?.elim (0 : Int) fun f => f.number := by
  constructor
  · intro h
    cases counter? with
    | none =>
        cases h
        exact ⟨none, rfl, rfl⟩
    | some cs =>
        rw [readCounter] at h
        cases hread : Numeral.readDecimal cs with
        | error fault =>
            rw [hread] at h
            cases h
        | ok m =>
            simp only [hread] at h
            split at h
            · cases h
            · rename_i hpos
              cases h
              rcases Numeral.readDecimal_eq_ok_iff.mp hread with ⟨hdenotes, -, hsmall⟩
              rcases Int.eq_ofNat_of_zero_le (Int.not_lt.mp hpos) with ⟨m, rfl⟩
              exact ⟨some ⟨cs, m, hdenotes, by omega⟩, rfl, rfl⟩
  · rintro ⟨f?, rfl, rfl⟩
    cases f? with
    | none => rfl
    | some f =>
        have hsmall := f.small
        have hread : Numeral.readDecimal f.chars = .ok (f.number : Int) :=
          Numeral.readDecimal_eq_ok_iff.mpr ⟨f.denotes, by omega, by omega⟩
        simp only [readCounter, Option.map_some, hread, Option.elim_some]
        exact if_neg (by omega)

/-! ## Values -/

/-- A text is read if its counter and its parts are. -/
theorem read_eq_ok_iff_parts {text : String} {r : Reading w} :
    read w text = .ok r ↔
      readCounter (Text.cut ['@'] text.toList).2 = .ok r.widen ∧
        readParts w (Text.splitParts ',' (Text.cut ['@'] text.toList).1).1
          (Text.splitParts ',' (Text.cut ['@'] text.toList).1).2 = .ok r.constraint := by
  rcases r with ⟨d, n⟩
  unfold read
  simp only [mapError_eq_ok_iff, bind_eq_ok_iff, pure, Except.pure, Except.ok.injEq,
    Reading.mk.injEq]
  constructor
  · rintro ⟨m, hcounter, e, hparts, rfl, rfl⟩
    exact ⟨hcounter, hparts⟩
  · rintro ⟨hcounter, hparts⟩
    exact ⟨n, hcounter, d, hparts, rfl, rfl⟩

/-- Exactly the texts of forms are read, as what the forms denote. -/
theorem read_eq_ok_iff_form {text : String} {r : Reading w} :
    read w text = .ok r ↔ ∃ f : Form w, f.text = text ∧ f.reading = r := by
  rw [read_eq_ok_iff_parts, readCounter_eq_ok_iff, readParts_eq_ok_iff]
  constructor
  · rintro ⟨⟨counter?, hcounter, hwiden⟩, f, hfirst, hothers, hconstraint⟩
    refine ⟨⟨f, counter?⟩, ?_, ?_⟩
    · have hbody : f.chars = (Text.cut ['@'] text.toList).1 := by
        rw [ConstraintForm.chars, hfirst, hothers]
        exact Text.splitParts_eq ',' _
      have htext := Text.cut_eq ['@'] text.toList
      rw [← hcounter, ← hbody] at htext
      rw [← String.ofList_toList (s := text), ← htext, Form.text, Form.chars]
      cases counter? <;> rfl
    · rcases r with ⟨d, n⟩
      simp only at hwiden hconstraint
      rw [Form.reading, hconstraint, hwiden]
  · rintro ⟨f, rfl, rfl⟩
    have hchars : f.text.toList = f.chars := String.toList_ofList
    rw [hchars, f.cut_chars, f.constraint.splitParts_chars]
    exact ⟨⟨f.counter?, rfl, rfl⟩, f.constraint, rfl, rfl, rfl⟩

/-- Signed ranges are not inverted. -/
theorem SignedForm.ordered (f : SignedForm w) : f.bounds.lo.toInt ≤ f.bounds.hi.toInt := by
  cases f with
  | all =>
      have hfull := Bounds.sContains_iff.mp (Bounds.sContains_fullSigned (0#w))
      exact Int.le_trans hfull.1 hfull.2
  | single n => exact Int.le_refl _
  | between r => exact r.ordered

/-- What a form denotes has bounds that are not inverted, no bit that is both zero and one, and
a counter that is not negative. -/
theorem Form.reading_ordered (f : Form w) :
    f.reading.constraint.signed.lo.toInt ≤ f.reading.constraint.signed.hi.toInt ∧
      f.reading.constraint.unsigned.lo ≤ f.reading.constraint.unsigned.hi ∧
      f.reading.constraint.bits.Disjoint ∧ 0 ≤ f.reading.widen := by
  rcases f with ⟨⟨signed, unsigned?, pattern?⟩, counter?⟩
  refine ⟨signed.ordered, ?_, ?_, ?_⟩
  · cases unsigned? with
    | none =>
        have hfull := Bounds.contains_fullUnsigned (0#w)
        exact BitVec.le_trans hfull.1 hfull.2
    | some u => exact BitVec.le_def.mpr (Int.ofNat_le.mp u.range.ordered)
  · cases pattern? with
    | none => exact BitVec.zero_and
    | some k => exact k.disjoint_bits
  · cases counter? with
    | none => exact Int.le_refl 0
    | some counter => exact Int.natCast_nonneg counter.number

/-- A text is read exactly if it is the text of a form, as what the form denotes, and it is the
text of one form at most.  All that is read has bounds that are not inverted, no bit that is
both zero and one, and a counter that is not negative. -/
theorem read_accepts_grammar (w : Nat) (text : String) :
    (∀ r : Reading w, read w text = .ok r ↔ ∃ f : Form w, f.text = text ∧ f.reading = r) ∧
      (∀ f g : Form w, f.text = text → g.text = text → f = g) ∧
      ∀ r : Reading w, read w text = .ok r →
        r.constraint.signed.lo.toInt ≤ r.constraint.signed.hi.toInt ∧
          r.constraint.unsigned.lo ≤ r.constraint.unsigned.hi ∧ r.constraint.bits.Disjoint ∧
          0 ≤ r.widen := by
  refine ⟨fun r => read_eq_ok_iff_form, fun f g hf hg => ?_, fun r hread => ?_⟩
  · exact Form.text_injective (hf.trans hg.symm)
  · rcases read_eq_ok_iff_form.mp hread with ⟨f, -, rfl⟩
    exact f.reading_ordered

/-- All parts of a value in notations of their own, with underscores, a final letter and a sign
before the counter. -/
def spelledOut : String := "-0x1_0..0o17,0b1..0_310u,***0***1@+02"

/-- The text is read, and there is one way to write it. -/
theorem spelledOut_read :
    read 8 spelledOut = .ok ⟨⟨⟨-16, 15⟩, ⟨1, 200⟩, ⟨16, 1⟩⟩, 2⟩ ∧
      (∃ f : Form 8, f.text = spelledOut ∧ f.reading = ⟨⟨⟨-16, 15⟩, ⟨1, 200⟩, ⟨16, 1⟩⟩, 2⟩ ∧
        ∀ g : Form 8, g.text = spelledOut → g = f) ∧
      ¬ ∃ f : Form 8, f.text = spelledOut ++ "@" := by
  have hread : read 8 spelledOut = .ok ⟨⟨⟨-16, 15⟩, ⟨1, 200⟩, ⟨16, 1⟩⟩, 2⟩ := by
    decide +kernel
  rcases read_accepts_grammar 8 spelledOut with ⟨haccepts, hunique, -⟩
  rcases (haccepts _).mp hread with ⟨f, hf, hreading⟩
  refine ⟨hread, ⟨f, hf, hreading, fun g hg => hunique g f hg hf⟩, ?_⟩
  rintro ⟨g, hg⟩
  have haccepted := ((read_accepts_grammar 8 (spelledOut ++ "@")).1 g.reading).mpr ⟨g, hg, rfl⟩
  have hrefused : (read 8 (spelledOut ++ "@")).toOption = none := by
    decide +kernel
  rw [haccepted] at hrefused
  cases hrefused

end ValueText
end WordRanges
