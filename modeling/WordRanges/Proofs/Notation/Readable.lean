import WordRanges.Proofs.Domain.Spans
import WordRanges.Proofs.Notation.Grammar

/-!
# Readable texts identify values

The readable text of a value leaves out whatever can be concluded from the rest.  That no
information is lost takes two steps.  A summary holds the parts that are shown; its text gives
each of them back, since no part has the character that starts the next one and the two parts
after commas are told by their labels.  And a summary gives back the parts of a value that it
does not hold: a value with one member has no choice, an unsplit value has the same bounds in both
orders, and bits that are not shown are those that the bounds imply.

Main results:

- Definition {lit}`Summary`: the parts of a value that its readable text shows.
- Theorem {lit}`Summary.chars_injective`: a summary is told by its text.
- Theorem {lit}`Value.toList_readable`: the readable text is the text of the summary.
- Theorem {lit}`Policy.readable_identifies`: values with the same readable text are equal.
-/

namespace WordRanges

variable {w : Nat}

open ValueText

/-! ## Bounds -/

/-- A range is told by its characters. -/
theorem ValueText.rangeChars_injective {lo hi lo' hi' : Int}
    (h : rangeChars lo hi = rangeChars lo' hi') : lo = lo' ∧ hi = hi' := by
  have hcut := congrArg (Text.cut ['.', '.']) h
  rw [cut_rangeChars, cut_rangeChars, Prod.mk.injEq, Option.some.injEq] at hcut
  exact ⟨Numeral.repr_injective hcut.1, Numeral.repr_injective hcut.2⟩

namespace Bounds

variable {b b' : Bounds w} {c : Char}

/-- The characters of signed bounds, of which equal ones are written once. -/
def shortChars (b : Bounds w) : List Char :=
  if b.lo = b.hi then b.lo.toInt.repr.toList else rangeChars b.lo.toInt b.hi.toInt

/-- The characters of unsigned bounds, with a final letter. -/
def markedChars (b : Bounds w) : List Char :=
  rangeChars b.lo.toNat b.hi.toNat ++ ['u']

/-- Signed bounds that differ are written as a range. -/
theorem toList_signedText (h : b.lo ≠ b.hi) : b.signedText.toList = b.shortChars := by
  simp [signedText, Word.signedText, shortChars, rangeChars, h]

/-- Unsigned bounds are written as a range. -/
theorem toList_unsignedText (b : Bounds w) : b.unsignedText.toList ++ ['u'] = b.markedChars := by
  have hnatural (n : Nat) : (n : Int).repr = n.repr := rfl
  simp [unsignedText, Word.unsignedText, markedChars, rangeChars, hnatural]

/-- Signed bounds have no other characters than those of numbers and dots. -/
theorem not_mem_shortChars (hdigit : c.isDigit = false) (hminus : c ≠ '-') (hdot : c ≠ '.') :
    c ∉ b.shortChars := by
  unfold shortChars
  split
  · exact not_mem_repr hdigit hminus _
  · exact not_mem_rangeChars hdigit hminus hdot _ _

/-- Unsigned bounds have no other characters than those of numbers, dots and the final letter. -/
theorem not_mem_markedChars (hdigit : c.isDigit = false) (hminus : c ≠ '-') (hdot : c ≠ '.')
    (hmark : c ≠ 'u') : c ∉ b.markedChars := by
  have hrange := not_mem_rangeChars hdigit hminus hdot b.lo.toNat b.hi.toNat
  simp [markedChars, hrange, hmark]

/-- Only bounds that differ are written with dots. -/
theorem dot_mem_shortChars_iff : '.' ∈ b.shortChars ↔ b.lo ≠ b.hi := by
  unfold shortChars
  split
  · rename_i heq
    simpa [heq] using not_mem_repr (c := '.') (by decide) (by decide) b.hi.toInt
  · rename_i hne
    simp [rangeChars, hne]

/-- Signed bounds are told by their characters. -/
theorem shortChars_injective (h : b.shortChars = b'.shortChars) : b = b' := by
  have hdots : b.lo ≠ b.hi ↔ b'.lo ≠ b'.hi := by
    rw [← dot_mem_shortChars_iff, h, dot_mem_shortChars_iff]
  unfold shortChars at h
  by_cases heq : b.lo = b.hi
  · have heq' : b'.lo = b'.hi := not_not.mp fun hne => hdots.mpr hne heq
    rw [if_pos heq, if_pos heq'] at h
    have hlo : b.lo = b'.lo := BitVec.eq_of_toInt_eq (Numeral.repr_injective h)
    exact congrArg₂ mk hlo (heq.symm.trans (hlo.trans heq'))
  · rw [if_neg heq, if_neg (hdots.mp heq)] at h
    obtain ⟨hlo, hhi⟩ := rangeChars_injective h
    exact congrArg₂ mk (BitVec.eq_of_toInt_eq hlo) (BitVec.eq_of_toInt_eq hhi)

/-- Unsigned bounds are told by their characters. -/
theorem markedChars_injective (h : b.markedChars = b'.markedChars) : b = b' := by
  obtain ⟨hlo, hhi⟩ := rangeChars_injective (List.append_cancel_right h)
  exact congrArg₂ mk (BitVec.eq_of_toNat_eq (Int.ofNat.inj hlo))
    (BitVec.eq_of_toNat_eq (Int.ofNat.inj hhi))

end Bounds

/-- Disjoint masks are told by the characters of their pattern. -/
theorem KnownBits.patternChars_injective {k l : KnownBits w} (hk : k.Disjoint) (hl : l.Disjoint)
    (h : k.patternChars = l.patternChars) : k = l := by
  have hread := ofPattern_pattern hk
  rw [pattern, h, ← pattern, ofPattern_pattern hl] at hread
  exact (Except.ok.inj hread).symm

/-! ## Summaries -/

/-- The parts of a value that its readable text shows.  Only disjoint masks are told by their
pattern. -/
@[ext]
structure Summary (w : Nat) where
  signed : Bounds w
  unsigned? : Option (Bounds w)
  bits? : Option { k : KnownBits w // k.Disjoint }
  counter? : Option Int

namespace Summary

variable {s t : Summary w}

/-- What stands between signed and unsigned bounds. -/
def separator : List Char := [' ', '^', ' ']

/-- The label of the bit pattern. -/
def bitsLabel : List Char := [' ', 'b', 'i', 't', 's', ':']

/-- The label of the counter. -/
def counterLabel : List Char := [' ', 'w', 'i', 'd', 'e', 'n', ':']

/-- The characters of the bounds. -/
def boundsChars (s : Summary w) : List Char :=
  s.signed.shortChars ++ s.unsigned?.elim [] (separator ++ ·.markedChars)

/-- The parts after the bounds. -/
def others (s : Summary w) : List (List Char) :=
  s.bits?.toList.map (bitsLabel ++ ·.val.patternChars) ++
    s.counter?.toList.map (counterLabel ++ ·.repr.toList)

/-- The characters of a summary: its parts with commas between them. -/
def chars (s : Summary w) : List Char :=
  s.boundsChars ++ s.others.flatMap (',' :: ·)

/-- The unsigned bounds are cut off the signed ones. -/
theorem cut_boundsChars (s : Summary w) : Text.cut separator s.boundsChars =
    (s.signed.shortChars, s.unsigned?.map Bounds.markedChars) := by
  have hspace : ' ' ∉ s.signed.shortChars :=
    Bounds.not_mem_shortChars (by decide) (by decide) (by decide)
  unfold boundsChars
  cases s.unsigned? with
  | none =>
      simp only [Option.elim_none, List.append_nil, Option.map_none]
      exact Text.cut_of_not_mem hspace
  | some u => exact Text.cut_append hspace

/-- Commas stand between the parts only. -/
theorem comma_not_mem (s : Summary w) :
    ',' ∉ s.boundsChars ∧ ∀ part ∈ s.others, ',' ∉ part := by
  constructor
  · have hsigned : ',' ∉ s.signed.shortChars :=
      Bounds.not_mem_shortChars (by decide) (by decide) (by decide)
    have hunsigned (u : Bounds w) : ',' ∉ u.markedChars :=
      Bounds.not_mem_markedChars (by decide) (by decide) (by decide) (by decide)
    unfold boundsChars
    cases s.unsigned? with
    | none => simpa using hsigned
    | some u => simp [separator, hsigned, hunsigned u]
  · intro part hpart
    simp only [others, List.mem_append, List.mem_map] at hpart
    rcases hpart with ⟨k, -, rfl⟩ | ⟨n, -, rfl⟩
    · have hpattern := not_mem_patternChars (c := ',') (by decide) (by decide) (by decide) k.val
      simp [bitsLabel, hpattern]
    · have hnumber := not_mem_repr (c := ',') (by decide) (by decide) n
      simp [counterLabel, hnumber]

/-- A summary is split into its parts. -/
theorem splitParts_chars (s : Summary w) :
    Text.splitParts ',' s.chars = (s.boundsChars, s.others) :=
  Text.splitParts_flatMap s.comma_not_mem.1 s.comma_not_mem.2

/-- The counter is the part with a w, which only its label has. -/
theorem filter_others (s : Summary w) :
    s.others.filter (fun part => decide ('w' ∈ part)) =
      s.counter?.toList.map (counterLabel ++ ·.repr.toList) := by
  have hbits : ∀ part ∈ s.bits?.toList.map (bitsLabel ++ ·.val.patternChars),
      ¬ decide ('w' ∈ part) = true := by
    simp only [List.mem_map, decide_eq_true_eq]
    rintro part ⟨k, -, rfl⟩
    have hpattern := not_mem_patternChars (c := 'w') (by decide) (by decide) (by decide) k.val
    simp [bitsLabel, hpattern]
  have hcounter : ∀ part ∈ s.counter?.toList.map (counterLabel ++ ·.repr.toList),
      decide ('w' ∈ part) = true := by
    simp only [List.mem_map, decide_eq_true_eq]
    rintro part ⟨n, -, rfl⟩
    simp [counterLabel]
  rw [others, List.filter_append, List.filter_eq_nil_iff.mpr hbits,
    List.filter_eq_self.mpr hcounter, List.nil_append]

/-- Summaries with the same characters show the same bounds. -/
theorem bounds_eq_of_boundsChars (h : s.boundsChars = t.boundsChars) :
    s.signed = t.signed ∧ s.unsigned? = t.unsigned? := by
  have hcut := congrArg (Text.cut separator) h
  rw [cut_boundsChars, cut_boundsChars, Prod.mk.injEq] at hcut
  exact ⟨Bounds.shortChars_injective hcut.1,
    Option.map_injective (fun _ _ => Bounds.markedChars_injective) hcut.2⟩

/-- A summary is told by its characters. -/
theorem chars_injective (h : s.chars = t.chars) : s = t := by
  have hsplit := congrArg (Text.splitParts ',') h
  rw [splitParts_chars, splitParts_chars, Prod.mk.injEq] at hsplit
  rcases hsplit with ⟨hbounds, hothers⟩
  obtain ⟨hsigned, hunsigned⟩ := bounds_eq_of_boundsChars hbounds
  have hfilter := congrArg (List.filter fun part => decide ('w' ∈ part)) hothers
  rw [filter_others, filter_others] at hfilter
  have hcounter : s.counter? = t.counter? :=
    option_eq_of_map_toList (fun heq => Numeral.repr_injective (List.append_cancel_left heq))
      hfilter
  -- Without the counters, what is left of the parts after commas is the pattern.
  rw [others, others, hcounter, List.append_cancel_right_eq] at hothers
  have hbits : s.bits? = t.bits? := by
    refine option_eq_of_map_toList (fun {k l} heq => Subtype.ext ?_) hothers
    exact KnownBits.patternChars_injective k.property l.property (List.append_cancel_left heq)
  exact Summary.ext hsigned hunsigned hbits hcounter

end Summary

/-! ## Values -/

namespace Value

/-- What the readable text of a value shows.  A value with one member is shown as its number
alone; otherwise unsigned bounds are shown if the value is split, and bits if they are not
implied by the bounds. -/
def summary (v : Value w) (h : v.bits.Disjoint) : Summary w where
  signed := v.constraint.signed
  unsigned? :=
    if v.lo ≠ v.hi ∧ v.constraint.isSplit = true then some v.constraint.unsigned else none
  bits? := if v.lo ≠ v.hi ∧ v.bits ≠ v.constraint.impliedBits then some ⟨v.bits, h⟩ else none
  counter? := if 0 < v.widen then some v.widen else none

/-- The characters of the counter in a readable text. -/
theorem toList_counterText (n : Int) :
    (if 0 < n then ", widen:" ++ n.repr else "").toList =
      ((if 0 < n then some n else none).toList.map
        (Summary.counterLabel ++ ·.repr.toList)).flatMap (',' :: ·) := by
  split
  · simp [Summary.counterLabel]
  · simp

/-- The characters of the members in a readable text. -/
theorem toList_membersText (v : Value w) (h : v.bits.Disjoint) :
    v.membersText.toList = (v.summary h).boundsChars ++
      ((v.summary h).bits?.toList.map
        (Summary.bitsLabel ++ ·.val.patternChars)).flatMap (',' :: ·) := by
  unfold membersText constant?
  by_cases heq : v.lo = v.hi
  · simp [Summary.boundsChars, summary, Bounds.shortChars, Word.signedText, heq]
  · have hsigned := Bounds.toList_signedText heq
    have hunsigned : (if v.constraint.isSplit then
          " ^ " ++ v.constraint.unsigned.unsignedText ++ "u" else "").toList =
        (v.summary h).unsigned?.elim [] (Summary.separator ++ ·.markedChars) := by
      cases hsplit : v.constraint.isSplit with
      | false => simp [summary, hsplit]
      | true => simp [summary, heq, hsplit, Summary.separator, ← Bounds.toList_unsignedText]
    have hbits : (if v.bits = v.constraint.impliedBits then "" else
          ", bits:" ++ v.bits.pattern).toList =
        ((v.summary h).bits?.toList.map
          (Summary.bitsLabel ++ ·.val.patternChars)).flatMap (',' :: ·) := by
      by_cases himplied : v.bits = v.constraint.impliedBits
      · simp [summary, himplied]
      · simp [summary, heq, himplied, Summary.bitsLabel, KnownBits.pattern]
    rw [if_neg heq]
    simp only [String.toList_append, hsigned, hunsigned, hbits]
    rfl

/-- The readable text of a value is the text of its summary. -/
theorem toList_readable (v : Value w) (h : v.bits.Disjoint) :
    v.readable.toList = (v.summary h).chars := by
  rw [readable, String.toList_append, toList_membersText v h, toList_counterText, Summary.chars,
    Summary.others, List.flatMap_append, List.append_assoc]
  rfl

end Value

/-! ## What a summary tells -/

namespace Constraint

variable {c d : Constraint w}

/-- Constraints in tightest form whose signed bounds are one word are equal. -/
theorem IsTightest.eq_of_constant (hc : c.IsTightest c.Contains) (hd : d.IsTightest d.Contains)
    (hsigned : c.signed = d.signed) (hconstant : c.signed.lo = c.signed.hi) : c = d := by
  have honly {e : Constraint w} (he : e.IsTightest e.Contains) (hbounds : e.signed = c.signed)
      (x : BitVec w) : e.Contains x ↔ x = c.signed.lo := by
    constructor
    · intro hx
      have hlo := he.signed_lo.2 x hx
      have hhi := he.signed_hi.2 x hx
      rw [hbounds] at hlo hhi
      rw [← hconstant] at hhi
      exact Word.sle_antisymm hhi hlo
    · rintro rfl
      rw [← hbounds]
      exact he.signed_lo.1
  exact hc.unique (hd.congr fun x => (honly hd hsigned.symm x).trans (honly hc rfl x).symm)

/-- Constraints with the same bounds imply the same bits. -/
theorem impliedBits_congr (hsigned : c.signed = d.signed) (hunsigned : c.unsigned = d.unsigned) :
    c.impliedBits = d.impliedBits := by
  rcases c with ⟨signed, unsigned, bits⟩
  rcases d with ⟨signed', unsigned', bits'⟩
  simp only at hsigned hunsigned
  subst hsigned hunsigned
  rfl

end Constraint

namespace Policy

variable {p q : Policy} {v o : Value w}

/-- A part that is left out under a condition is shown on both sides or on neither. -/
theorem shown_cases {α : Type} {P Q : Prop} [Decidable P] [Decidable Q] {a b : α}
    (h : (if P then some a else none) = if Q then some b else none) : a = b ∨ (¬ P ∧ ¬ Q) := by
  by_cases hP : P
  · by_cases hQ : Q
    · left
      simpa [hP, hQ] using h
    · simp [hP, hQ] at h
  · by_cases hQ : Q
    · simp [hP, hQ] at h
    · exact Or.inr ⟨hP, hQ⟩

/-- Values with the same summary have the same unsigned bounds: bounds that are not shown are the
signed ones. -/
theorem Valid.unsigned_eq_of_summary (hv : p.Valid v) (ho : q.Valid o) (hv' : v.lo ≠ v.hi)
    (ho' : o.lo ≠ o.hi) (h : v.summary hv.disjoint_bits = o.summary ho.disjoint_bits) :
    v.constraint.unsigned = o.constraint.unsigned := by
  rcases shown_cases (congrArg Summary.unsigned? h) with hshown | ⟨hunsplit, hunsplit'⟩
  · exact hshown
  · have hlo : v.constraint.signed.lo = v.constraint.unsigned.lo := by
      simpa [hv', Constraint.isSplit] using hunsplit
    have hlo' : o.constraint.signed.lo = o.constraint.unsigned.lo := by
      simpa [ho', Constraint.isSplit] using hunsplit'
    rw [← hv.isTightest.signed_eq_unsigned hlo, ← ho.isTightest.signed_eq_unsigned hlo']
    exact congrArg Summary.signed h

/-- Values with the same summary and the same bounds have the same bits: bits that are not shown
are implied by the bounds. -/
theorem Valid.bits_eq_of_summary (hv : p.Valid v) (ho : q.Valid o) (hv' : v.lo ≠ v.hi)
    (ho' : o.lo ≠ o.hi) (himplied : v.constraint.impliedBits = o.constraint.impliedBits)
    (h : v.summary hv.disjoint_bits = o.summary ho.disjoint_bits) : v.bits = o.bits := by
  rcases shown_cases (congrArg Summary.bits? h) with hshown | ⟨hbits, hbits'⟩
  · exact congrArg Subtype.val hshown
  · have hv : v.bits = v.constraint.impliedBits := by simpa [hv'] using hbits
    have ho : o.bits = o.constraint.impliedBits := by simpa [ho'] using hbits'
    rw [hv, ho, himplied]

/-- Values with the same summary have the same parts. -/
theorem Valid.constraint_eq_of_summary (hv : p.Valid v) (ho : q.Valid o)
    (h : v.summary hv.disjoint_bits = o.summary ho.disjoint_bits) :
    v.constraint = o.constraint := by
  have hsigned : v.constraint.signed = o.constraint.signed := congrArg Summary.signed h
  by_cases hconstant : v.lo = v.hi
  · exact hv.isTightest.eq_of_constant ho.isTightest hsigned hconstant
  · have hconstant' : o.lo ≠ o.hi := by
      rw [Value.lo, Value.hi, ← hsigned]
      exact hconstant
    have hunsigned := hv.unsigned_eq_of_summary ho hconstant hconstant' h
    have hbits := hv.bits_eq_of_summary ho hconstant hconstant'
      (Constraint.impliedBits_congr hsigned hunsigned) h
    exact Constraint.ext hsigned hunsigned hbits

/-- Values with the same summary have the same counter, unless it is negative. -/
theorem widen_eq_of_summary {hv : v.bits.Disjoint} {ho : o.bits.Disjoint}
    (hwiden : 0 ≤ v.widen) (hwiden' : 0 ≤ o.widen) (h : v.summary hv = o.summary ho) :
    v.widen = o.widen := by
  rcases shown_cases (congrArg Summary.counter? h) with hshown | ⟨hzero, hzero'⟩
  · exact hshown
  · omega

/-- Values whose counters are not negative have the same readable text only if they are equal,
counters included, whichever policies made them. -/
theorem readable_identifies (hv : p.Makes v) (ho : q.Makes o) (hwiden : 0 ≤ v.widen)
    (hwiden' : 0 ≤ o.widen) : v.readable = o.readable ↔ v = o := by
  constructor
  · intro htext
    have hchars := congrArg String.toList htext
    rw [v.toList_readable hv.valid.disjoint_bits, o.toList_readable ho.valid.disjoint_bits]
      at hchars
    have hsummary := Summary.chars_injective hchars
    have hconstraint := hv.valid.constraint_eq_of_summary ho.valid hsummary
    exact Value.ext hconstraint (widen_eq_of_summary hwiden hwiden' hsummary)
  · intro heq
    rw [heq]

/-! ### Values with the same signed bounds -/

namespace Alike

/-- The odd words from minus five to five, widened some times. -/
def odd (times : Int) : Value 8 :=
  ⟨⟨⟨-5, 5⟩, ⟨1, -1⟩, ⟨0x00, 0x01⟩⟩, times⟩

/-- The words from minus five to five, widened once. -/
def every : Value 8 :=
  ⟨⟨⟨-5, 5⟩, ⟨0, -1⟩, ⟨0x00, 0x00⟩⟩, 1⟩

theorem makes_odd : Policy.default.Makes (odd 1) ∧ (Policy.mk 0 9 0).Makes (odd 2) :=
  ⟨⟨[.make ⟨⟨-5, 5⟩, ⟨0, -1⟩, ⟨0x00, 0x01⟩⟩ 1], [odd 1], by decide +kernel, by simp⟩,
    ⟨[.make ⟨⟨-6, 6⟩, ⟨1, -1⟩, ⟨0x00, 0x01⟩⟩ 2], [odd 2], by decide +kernel, by simp⟩⟩

theorem makes_every : Policy.default.Makes every :=
  ⟨[.make ⟨⟨-5, 5⟩, ⟨0, -1⟩, ⟨0x00, 0x00⟩⟩ 1], [every], by decide +kernel, by simp⟩

/-- Odd words are told from all words between the same bounds, and from odd words that were
widened once more. -/
theorem odd_told_apart : Policy.default.Makes (odd 1) ∧ (Policy.mk 0 9 0).Makes (odd 2) ∧
    Policy.default.Makes every ∧ (odd 1).readable ≠ every.readable ∧
    (odd 1).readable ≠ (odd 2).readable := by
  have hmembers := readable_identifies makes_odd.1 makes_every (by decide) (by decide)
  have hcounter := readable_identifies makes_odd.1 makes_odd.2 (by decide) (by decide)
  refine ⟨makes_odd.1, makes_odd.2, makes_every, ?_, ?_⟩
  · rw [ne_eq, hmembers]
    decide
  · rw [ne_eq, hcounter]
    decide

end Alike

end Policy
end WordRanges
