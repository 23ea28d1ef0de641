import WordRanges.Notation.Pattern
import WordRanges.Proofs.Domain.Nearest

/-!
# Bit patterns are read back

A bit pattern is written with one character for each bit and read as bytes, each of which adds
a lowest bit to the masks.  The three characters of patterns are single bytes, so the masks that
are read have the bits at the places that were written.

Main results:

- Theorem {lit}`KnownBits.bytes_ofList`: the bytes of a text are those of its characters.
- Theorem {lit}`KnownBits.getLsbD_maskOf`: the bits of the mask of a byte.
- Theorem {lit}`KnownBits.ofPattern_pattern`: known bits are read back from their pattern.
-/

namespace WordRanges
namespace KnownBits

variable {w : Nat}

/-! ## Bytes of a text -/

/-- Listing bytes from a position appends them to those before. -/
theorem toList_loop (bytes : ByteArray) (i : Nat) (done : List UInt8) :
    ByteArray.toList.loop bytes i done = done.reverse ++ bytes.data.toList.drop i := by
  induction i, done using ByteArray.toList.loop.induct bytes with
  | case1 i done hi ih =>
      have hlength : i < bytes.data.toList.length := by simpa using hi
      have hbyte : bytes.get! i = bytes.data.toList[i] := by
        have hsize : i < bytes.data.size := by simpa using hlength
        simp [ByteArray.get!, getElem!_pos bytes.data i hsize]
      rw [ByteArray.toList.loop, if_pos hi, ih, List.drop_eq_getElem_cons hlength, hbyte,
        List.reverse_cons, List.append_assoc, List.singleton_append]
  | case2 i done hi =>
      have hlength : bytes.data.toList.length ≤ i := by simpa using hi
      rw [ByteArray.toList.loop, if_neg hi, List.drop_of_length_le hlength, List.append_nil]

/-- The bytes of a text are the encodings of its characters. -/
theorem bytes_ofList (cs : List Char) :
    (String.ofList cs).toUTF8.toList = cs.flatMap String.utf8EncodeChar := by
  rw [String.toUTF8_eq_toByteArray, String.toByteArray_ofList, ByteArray.toList, toList_loop,
    List.utf8Encode, List.toList_data_toByteArray]
  rfl

/-! ## Masks -/

/-- The mask of a byte has the bits at the positions of the byte, counted from the end. -/
theorem getLsbD_maskOf {i : Nat} (hi : i < w) (byte : UInt8) (bytes : List UInt8) :
    (maskOf w byte bytes).getLsbD i = decide (bytes.reverse[i]? = some byte) := by
  unfold maskOf
  rw [List.foldl_eq_foldr_reverse]
  induction bytes.reverse generalizing i with
  | nil => simp
  | cons b bs ih =>
      rw [List.foldr_cons, BitVec.getLsbD_or, BitVec.getLsbD_shiftLeft]
      cases i with
      | zero =>
          by_cases hb : b = byte
          · simp [hb, hi]
          · simp [hb]
      | succ i =>
          have hbit : (if b = byte then (1 : BitVec w) else 0).getLsbD (i + 1) = false := by
            split <;> simp
          rw [hbit, Nat.add_sub_cancel, ih (Nat.lt_of_succ_lt hi)]
          simp [hi]

/-! ## Patterns -/

/-- The byte of the pattern character of a bit. -/
def patternByte (k : KnownBits w) (i : Nat) : UInt8 :=
  if k.zeros.getLsbD i then zeroByte else if k.ones.getLsbD i then oneByte else unknownByte

/-- The characters of patterns are single bytes. -/
theorem encode_patternChar (k : KnownBits w) (i : Nat) :
    String.utf8EncodeChar (k.patternChar i) = [k.patternByte i] := by
  unfold patternChar patternByte
  split
  · rfl
  · split <;> rfl

/-- The bytes of a pattern. -/
theorem bytes_pattern (k : KnownBits w) :
    k.pattern.toUTF8.toList = (List.range w).reverse.map k.patternByte := by
  rw [pattern, bytes_ofList, patternChars, List.flatMap_map, List.map_eq_flatMap]
  simp only [encode_patternChar]

/-- The mask of a byte in a pattern. -/
theorem getLsbD_maskOf_pattern (k : KnownBits w) {i : Nat} (hi : i < w) (byte : UInt8) :
    (maskOf w byte ((List.range w).reverse.map k.patternByte)).getLsbD i =
      decide (k.patternByte i = byte) := by
  rw [getLsbD_maskOf hi, ← List.map_reverse, List.reverse_reverse]
  simp [hi]

/-- Patterns have no other bytes than the three that are allowed. -/
theorem find?_patternByte (k : KnownBits w) (l : List Nat) :
    (l.map k.patternByte).find?
      (fun b => b ≠ zeroByte ∧ b ≠ oneByte ∧ b ≠ unknownByte) = none := by
  rw [List.find?_eq_none]
  intro b hb
  obtain ⟨i, -, rfl⟩ := List.mem_map.mp hb
  unfold patternByte
  split
  · simp
  · split <;> simp

/-- Known bits are read back from their pattern. -/
theorem ofPattern_pattern {k : KnownBits w} (h : k.Disjoint) : ofPattern w k.pattern = .ok k := by
  have hzeros : maskOf w zeroByte ((List.range w).reverse.map k.patternByte) = k.zeros := by
    refine BitVec.eq_of_getLsbD_eq fun i hi => ?_
    rw [getLsbD_maskOf_pattern k hi, patternByte]
    cases k.zeros.getLsbD i with
    | true => rfl
    | false => cases k.ones.getLsbD i <;> rfl
  have hones : maskOf w oneByte ((List.range w).reverse.map k.patternByte) = k.ones := by
    refine BitVec.eq_of_getLsbD_eq fun i hi => ?_
    rw [getLsbD_maskOf_pattern k hi, patternByte]
    cases hz : k.zeros.getLsbD i with
    -- A bit in both masks would be written as a zero.
    | true => rw [disjoint_iff.mp h i hz]; rfl
    | false => cases k.ones.getLsbD i <;> rfl
  unfold ofPattern
  rw [bytes_pattern]
  simp only [find?_patternByte, hzeros, hones]
  rw [if_neg (by simp)]

end KnownBits
end WordRanges
