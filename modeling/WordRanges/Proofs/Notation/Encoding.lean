import WordRanges.Proofs.Notation.Acceptance

/-!
# Bit patterns and masks encode each other

Known bits with disjoint masks are written as a pattern with one of three characters for each bit,
most significant bit first.  Reading goes through the bytes of a text from left to right and moves
the masks up at each byte.  So the character at a place counted from the end is that of the bit of
the same number, and writing what was read gives the text back.

Main results:

- Theorem {lit}`ValueText.PatternForm.patternChars_bits`: the bits that a pattern denotes are
  written as this pattern.
- Theorem {lit}`KnownBits.exists_ofPattern_iff`: which texts are read, by their bytes.
- Theorem {lit}`KnownBits.patterns_encode_masks`: patterns and disjoint masks are in bijection.
-/

namespace WordRanges

namespace ValueText.PatternForm

variable {w i : Nat}

/-- The character of a pattern at a place, counted from the end, is that of the bit there. -/
theorem getElem?_reverse_chars (f : PatternForm w) (hi : i < w) :
    f.chars.reverse[i]? = some (f.bits.patternChar i) := by
  have hplace : i < f.chars.reverse.length := by
    rw [List.length_reverse, f.length_eq]
    exact hi
  have hallowed : f.chars.reverse[i] ∈ patternAlphabet :=
    f.allowed _ (List.mem_reverse.mp (List.getElem_mem hplace))
  rw [KnownBits.patternChar, bits, f.getLsbD_mask hi, f.getLsbD_mask hi,
    List.getElem?_eq_getElem hplace]
  simp only [patternAlphabet, List.mem_cons, List.not_mem_nil, or_false] at hallowed
  rcases hallowed with hchar | hchar | hchar <;> simp [hchar]

/-- The bits that a pattern denotes are written as this pattern. -/
theorem patternChars_bits (f : PatternForm w) : f.bits.patternChars = f.chars := by
  rw [← List.reverse_inj, KnownBits.patternChars, ← List.map_reverse, List.reverse_reverse]
  apply List.ext_getElem?
  intro i
  by_cases hi : i < w
  · rw [f.getElem?_reverse_chars hi, List.getElem?_map, List.getElem?_range hi, Option.map_some]
  · have hlength : f.chars.reverse.length ≤ i := by
      rw [List.length_reverse, f.length_eq]
      exact Nat.le_of_not_lt hi
    rw [List.getElem?_eq_none hlength, List.getElem?_eq_none (by simpa using hi)]

end ValueText.PatternForm

namespace KnownBits

variable {w : Nat} {k : KnownBits w} {text : String}

/-- A text has as many bytes as its size says. -/
theorem length_bytes (text : String) : text.toUTF8.toList.length = text.utf8ByteSize := by
  rw [ByteArray.toList, toList_loop]
  simp

/-- A text is read exactly if it has one byte for each bit and all bytes are allowed. -/
theorem exists_ofPattern_iff :
    (∃ k, ofPattern w text = .ok k) ↔
      text.utf8ByteSize = w ∧ ∀ b ∈ text.toUTF8.toList, IsPatternByte b := by
  rw [← length_bytes, ← find?_eq_none_iff_isPatternByte]
  unfold ofPattern
  simp only
  split
  · rename_i hlength
    refine ⟨?_, fun h => absurd h.1 hlength⟩
    rintro ⟨k, hk⟩
    cases hk
  · rename_i hlength
    split
    · rename_i byte hfound
      refine ⟨?_, fun h => ?_⟩
      · rintro ⟨k, hk⟩
        cases hk
      · cases h.2.symm.trans hfound
    · rename_i hnone
      exact ⟨fun _ => ⟨not_not.mp hlength, hnone⟩, fun _ => ⟨_, rfl⟩⟩

/-- What is read from a text has disjoint masks and is written as the text. -/
theorem pattern_of_ofPattern (h : ofPattern w text = .ok k) : k.Disjoint ∧ k.pattern = text := by
  rw [← String.ofList_toList (s := text), ofPattern_eq_ok_iff] at h
  obtain ⟨f, hchars, rfl⟩ := h
  refine ⟨f.disjoint_bits, ?_⟩
  rw [pattern, f.patternChars_bits, hchars, String.ofList_toList]

/-- Bit patterns and disjoint masks of one width encode each other.  Disjoint masks are read back
from their pattern.  A text is read exactly if it has one byte for each bit, each of them one of
the three that are allowed; what is read then has disjoint masks, and its pattern is the text. -/
theorem patterns_encode_masks (w : Nat) :
    (∀ k : KnownBits w, k.Disjoint → ofPattern w k.pattern = .ok k) ∧
    ∀ text : String,
      ((∃ k, ofPattern w text = .ok k) ↔ text.utf8ByteSize = w ∧
        ∀ b ∈ text.toUTF8.toList, b = '0'.toUInt8 ∨ b = '1'.toUInt8 ∨ b = '*'.toUInt8) ∧
      ∀ k, ofPattern w text = .ok k → k.Disjoint ∧ k.pattern = text :=
  ⟨fun _ => ofPattern_pattern, fun _ => ⟨exists_ofPattern_iff, fun _ => pattern_of_ofPattern⟩⟩

/-- A pattern of six bits, most significant bit first.  The unknown bit is the only one in neither
mask, and a text with a byte too many is not read. -/
theorem mixed_pattern_encodes :
    ofPattern 6 (⟨0x0d, 0x12⟩ : KnownBits 6).pattern = .ok ⟨0x0d, 0x12⟩ ∧
    (⟨0x0d, 0x12⟩ : KnownBits 6).pattern = "*10010" ∧
    ¬ ∃ k, ofPattern 6 "*100100" = .ok k := by
  obtain ⟨hmasks, htexts⟩ := patterns_encode_masks 6
  have hread : ofPattern 6 "*10010" = .ok ⟨0x0d, 0x12⟩ := by decide +kernel
  refine ⟨hmasks _ (by decide), ((htexts _).2 _ hread).2, ?_⟩
  rw [(htexts _).1]
  rintro ⟨hsize, -⟩
  exact absurd hsize (by decide)

end KnownBits
end WordRanges
