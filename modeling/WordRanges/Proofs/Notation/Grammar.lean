import WordRanges.Proofs.Notation.RoundTrip
import WordRanges.Proofs.Text.Literals

/-!
# The grammar of values

A value is written as a signed range, then perhaps an unsigned range and a bit pattern after
commas, and perhaps a counter after an at sign.  A form is one way to write a value: its parts
carry the numbers that they denote together with the proof that they are well formed.  Each form
has a text and describes a constraint and a counter.

No part has the character that ends it, and an unsigned range is told from a bit pattern by its
dots.  So a text is the text of one form at most.

Main results:

- Definition {lit}`Form`: the forms of values, with {lit}`Form.text` and {lit}`Form.reading`.
- Theorems {lit}`ConstraintForm.splitParts_chars` and {lit}`Form.cut_chars`: the parts of a form
  are found again in its text.
- Theorem {lit}`Form.text_injective`: forms with the same text are equal.
-/

namespace WordRanges

namespace Text

variable {separator : Char} {first : List Char} {others : List (List Char)}

/-- Parts with separators between them are found again. -/
theorem splitParts_flatMap (hfirst : separator ∉ first)
    (hothers : ∀ part ∈ others, separator ∉ part) :
    splitParts separator (first ++ others.flatMap (separator :: ·)) = (first, others) := by
  induction others generalizing first with
  | nil =>
      rw [List.flatMap_nil, List.append_nil]
      exact splitParts_of_not_mem hfirst
  | cons part others ih =>
      rw [List.forall_mem_cons] at hothers
      rw [List.flatMap_cons, List.cons_append, splitParts_append hfirst, ih hothers.1 hothers.2]

end Text

namespace ValueText

variable {w : Nat} {sign : Sign} {cs : List Char} {c : Char}

/-! ## Numbers -/

/-- The number of a word in one of the two ways of reading it. -/
def Sign.number : Sign → BitVec w → Int
  | .signed, x => x.toInt
  | .unsigned, x => x.toNat

/-- The integer that a text denotes in one of the two ways of reading it.  Only signed numbers
are written with a sign. -/
def Sign.Denotes : Sign → List Char → Int → Prop
  | .signed, cs, n => Numeral.Signed Numeral.Literal cs n
  | .unsigned, cs, n => ∃ m : Nat, Numeral.Literal cs m ∧ n = m

/-- A word is found again from its number. -/
theorem Sign.ofInt_number (sign : Sign) (x : BitVec w) : BitVec.ofInt w (sign.number x) = x := by
  cases sign with
  | signed => exact BitVec.ofInt_toInt
  | unsigned =>
      rw [number, BitVec.ofInt_natCast, BitVec.ofNat_toNat, BitVec.setWidth_eq]

/-- Words with the same number are equal. -/
theorem Sign.number_injective (sign : Sign) {x y : BitVec w} (h : sign.number x = sign.number y) :
    x = y := by
  rw [← sign.ofInt_number x, h, sign.ofInt_number]

/-- A text denotes one integer. -/
theorem Sign.Denotes.unique {m n : Int} (hm : sign.Denotes cs m) (hn : sign.Denotes cs n) :
    m = n := by
  cases sign with
  | signed => exact Numeral.unsigned_literal.signed_unique Numeral.Literal.unique hm hn
  | unsigned =>
      rcases hm with ⟨i, hi, rfl⟩
      rcases hn with ⟨j, hj, rfl⟩
      rw [hi.unique hj]

/-- Numbers have the characters of numerals only. -/
theorem Sign.Denotes.not_mem {n : Int} (h : sign.Denotes cs n)
    (hc : c.toLower ∉ Numeral.alphabet) : c ∉ cs := by
  intro hmem
  cases sign with
  | signed => exact hc (h.mem_alphabet hmem)
  | unsigned =>
      rcases h with ⟨m, hm, -⟩
      exact hc (hm.mem_alphabet hmem)

/-- The number of a word as it is written. -/
structure NumberForm (w : Nat) (sign : Sign) where
  chars : List Char
  word : BitVec w
  denotes : sign.Denotes chars (sign.number word)

/-- A number is told by its characters. -/
theorem NumberForm.chars_injective {f g : NumberForm w sign} (h : f.chars = g.chars) : f = g := by
  rcases f with ⟨cs, x, hx⟩
  rcases g with ⟨ds, y, hy⟩
  simp only at h
  subst h
  have hxy : x = y := sign.number_injective (hx.unique hy)
  subst hxy
  rfl

/-! ## Ranges -/

/-- A range as it is written, with two bounds that are not inverted. -/
structure RangeForm (w : Nat) (sign : Sign) where
  lo : NumberForm w sign
  hi : NumberForm w sign
  ordered : sign.number lo.word ≤ sign.number hi.word

namespace RangeForm

/-- The characters of a range. -/
def chars (f : RangeForm w sign) : List Char :=
  f.lo.chars ++ (['.', '.'] ++ f.hi.chars)

/-- The bounds that a range denotes. -/
def bounds (f : RangeForm w sign) : Bounds w :=
  ⟨f.lo.word, f.hi.word⟩

/-- A range has dots. -/
theorem dot_mem (f : RangeForm w sign) : '.' ∈ f.chars := by
  simp [chars]

/-- A range has the characters of numerals and dots only. -/
theorem not_mem (f : RangeForm w sign) (hc : c.toLower ∉ Numeral.alphabet) (hdot : c ≠ '.') :
    c ∉ f.chars := by
  have hlo := f.lo.denotes.not_mem hc
  have hhi := f.hi.denotes.not_mem hc
  simp [chars, hlo, hhi, hdot]

/-- A range is cut at its dots. -/
theorem cut_chars (f : RangeForm w sign) :
    Text.cut ['.', '.'] f.chars = (f.lo.chars, some f.hi.chars) :=
  Text.cut_append (f.lo.denotes.not_mem (by decide))

/-- A range is told by its characters. -/
theorem chars_injective {f g : RangeForm w sign} (h : f.chars = g.chars) : f = g := by
  have hcut := congrArg (Text.cut ['.', '.']) h
  rw [cut_chars, cut_chars, Prod.mk.injEq, Option.some.injEq] at hcut
  rcases f with ⟨flo, fhi, hf⟩
  rcases g with ⟨glo, ghi, hg⟩
  have hlo : flo = glo := NumberForm.chars_injective hcut.1
  have hhi : fhi = ghi := NumberForm.chars_injective hcut.2
  subst hlo hhi
  rfl

end RangeForm

/-- The signed range of a value as it is written: a star, a single number or a range. -/
inductive SignedForm (w : Nat) where
  | all
  | single (n : NumberForm w .signed)
  | between (r : RangeForm w .signed)

namespace SignedForm

/-- The characters of a signed range. -/
def chars : SignedForm w → List Char
  | .all => ['*']
  | .single n => n.chars
  | .between r => r.chars

/-- The bounds that a signed range denotes. -/
def bounds : SignedForm w → Bounds w
  | .all => .fullSigned w
  | .single n => ⟨n.word, n.word⟩
  | .between r => r.bounds

/-- A signed range has the characters of numerals, dots and a star only. -/
theorem not_mem (f : SignedForm w) (hc : c.toLower ∉ Numeral.alphabet) (hdot : c ≠ '.')
    (hstar : c ≠ '*') : c ∉ f.chars := by
  cases f with
  | all => simpa [chars] using hstar
  | single n => exact n.denotes.not_mem hc
  | between r => exact r.not_mem hc hdot

/-- A signed range is told by its characters. -/
theorem chars_injective {f g : SignedForm w} (h : f.chars = g.chars) : f = g := by
  have hstar (n : NumberForm w .signed) : n.chars ≠ ['*'] := fun heq =>
    n.denotes.not_mem (c := '*') (by decide) (by rw [heq]; decide)
  have hrange (r : RangeForm w .signed) : r.chars ≠ ['*'] := fun heq =>
    absurd r.dot_mem (by rw [heq]; decide)
  have hdot (n : NumberForm w .signed) (r : RangeForm w .signed) : n.chars ≠ r.chars := fun heq =>
    n.denotes.not_mem (c := '.') (by decide) (by rw [heq]; exact r.dot_mem)
  cases f with
  | all =>
      cases g with
      | all => rfl
      | single n => exact absurd h.symm (hstar n)
      | between r => exact absurd h.symm (hrange r)
  | single m =>
      cases g with
      | all => exact absurd h (hstar m)
      | single n => exact congrArg single (NumberForm.chars_injective h)
      | between r => exact absurd h (hdot m r)
  | between s =>
      cases g with
      | all => exact absurd h (hrange s)
      | single n => exact absurd h.symm (hdot n s)
      | between r => exact congrArg between (RangeForm.chars_injective h)

end SignedForm

/-- The unsigned range of a value as it is written, perhaps with a final letter. -/
structure UnsignedForm (w : Nat) where
  range : RangeForm w .unsigned
  marked : Bool

namespace UnsignedForm

/-- The characters of an unsigned range. -/
def chars (f : UnsignedForm w) : List Char :=
  f.range.chars ++ (if f.marked then ['u'] else [])

/-- An unsigned range has dots. -/
theorem dot_mem (f : UnsignedForm w) : '.' ∈ f.chars :=
  List.mem_append_left _ f.range.dot_mem

/-- An unsigned range has the characters of numerals, dots and its final letter only. -/
theorem not_mem (f : UnsignedForm w) (hc : c.toLower ∉ Numeral.alphabet) (hdot : c ≠ '.')
    (hmark : c ≠ 'u') : c ∉ f.chars := by
  have hrange := f.range.not_mem hc hdot
  rcases f with ⟨range, marked⟩
  cases marked <;> simp_all [chars]

/-- Without its final letter an unsigned range is a range. -/
theorem dropFinal_chars (f : UnsignedForm w) : Text.dropFinal 'u' f.chars = f.range.chars := by
  have hu : 'u' ∉ f.range.chars := f.range.not_mem (by decide) (by decide)
  rcases f with ⟨range, marked⟩
  cases marked with
  | true => simp [chars, Text.dropFinal]
  | false => simpa [chars] using Text.dropFinal_of_not_mem hu

/-- An unsigned range is told by its characters. -/
theorem chars_injective {f g : UnsignedForm w} (h : f.chars = g.chars) : f = g := by
  have hdrop := congrArg (Text.dropFinal 'u') h
  rw [dropFinal_chars, dropFinal_chars] at hdrop
  rcases f with ⟨range, marked⟩
  rcases g with ⟨range', marked'⟩
  have hrange : range = range' := RangeForm.chars_injective hdrop
  subst hrange
  cases marked <;> cases marked' <;> simp_all [chars]

end UnsignedForm

/-! ## Patterns -/

/-- The characters of bit patterns. -/
def patternAlphabet : List Char := ['0', '1', '*']

/-- A bit pattern as it is written, with one character for each bit. -/
structure PatternForm (w : Nat) where
  chars : List Char
  length_eq : chars.length = w
  allowed : ∀ c ∈ chars, c ∈ patternAlphabet

namespace PatternForm

/-- The mask of the places where a character stands, most significant bit first. -/
def mask (f : PatternForm w) (c : Char) : BitVec w :=
  (BitVec.ofBoolListBE (f.chars.map fun d => decide (d = c))).setWidth w

/-- The bits that a pattern denotes. -/
def bits (f : PatternForm w) : KnownBits w :=
  ⟨f.mask '0', f.mask '1'⟩

/-- A bit of a mask tells whether the character stands at its place, counted from the end. -/
theorem getLsbD_mask (f : PatternForm w) {i : Nat} (hi : i < w) (c : Char) :
    (f.mask c).getLsbD i = decide (f.chars.reverse[i]? = some c) := by
  have hlength : i < f.chars.length := by
    rw [f.length_eq]
    exact hi
  rw [mask, BitVec.getLsbD_setWidth, BitVec.getLsbD_ofBoolListBE, List.length_map,
    List.getElem?_reverse hlength]
  have hplace : f.chars.length - 1 - i < f.chars.length := by omega
  simp [hi, hlength, List.getElem?_eq_getElem hplace]

/-- The masks of a pattern have no bit in common. -/
theorem disjoint_bits (f : PatternForm w) : f.bits.Disjoint := by
  rw [KnownBits.disjoint_iff]
  intro i hzero
  have hi := BitVec.lt_of_getLsbD hzero
  simp only [bits, f.getLsbD_mask hi, decide_eq_true_eq] at hzero ⊢
  simp [hzero]

/-- A pattern has no other characters than the three that are allowed. -/
theorem not_mem (f : PatternForm w) (hc : c ∉ patternAlphabet) : c ∉ f.chars :=
  fun hmem => hc (f.allowed c hmem)

/-- A pattern is told by its characters. -/
theorem chars_injective {f g : PatternForm w} (h : f.chars = g.chars) : f = g := by
  rcases f with ⟨cs, hlength, hallowed⟩
  rcases g with ⟨ds, hlength', hallowed'⟩
  simp only at h
  subst h
  rfl

end PatternForm

/-! ## Constraints -/

/-- A constraint as it is written: a signed range, and perhaps an unsigned range and a pattern. -/
structure ConstraintForm (w : Nat) where
  signed : SignedForm w
  unsigned? : Option (UnsignedForm w)
  pattern? : Option (PatternForm w)

/-- Options are equal if what they hold is told by a list. -/
theorem option_eq_of_map_toList {α β : Type} {f : α → β} (hf : ∀ {x y}, f x = f y → x = y)
    {o o' : Option α} (h : o.toList.map f = o'.toList.map f) : o = o' := by
  cases o <;> cases o' <;> simp_all
  exact hf h

namespace ConstraintForm

/-- The parts after the signed range. -/
def others (f : ConstraintForm w) : List (List Char) :=
  f.unsigned?.toList.map UnsignedForm.chars ++ f.pattern?.toList.map PatternForm.chars

/-- The characters of a constraint: its parts with commas between them. -/
def chars (f : ConstraintForm w) : List Char :=
  f.signed.chars ++ f.others.flatMap (',' :: ·)

/-- The constraint that is denoted.  Parts that are left out allow every word. -/
def constraint (f : ConstraintForm w) : Constraint w where
  signed := f.signed.bounds
  unsigned := f.unsigned?.elim (.fullUnsigned w) (·.range.bounds)
  bits := f.pattern?.elim (.unknown w) (·.bits)

/-- Commas stand between the parts only. -/
theorem comma_not_mem (f : ConstraintForm w) :
    ',' ∉ f.signed.chars ∧ ∀ part ∈ f.others, ',' ∉ part := by
  refine ⟨f.signed.not_mem (by decide) (by decide) (by decide), fun part hpart => ?_⟩
  simp only [others, List.mem_append, List.mem_map] at hpart
  rcases hpart with ⟨u, -, rfl⟩ | ⟨k, -, rfl⟩
  · exact u.not_mem (by decide) (by decide) (by decide)
  · exact k.not_mem (by decide)

/-- At signs stand in no part. -/
theorem at_not_mem (f : ConstraintForm w) : '@' ∉ f.chars := by
  have hsigned : '@' ∉ f.signed.chars := f.signed.not_mem (by decide) (by decide) (by decide)
  simp only [chars, others, List.mem_append, List.mem_flatMap, List.mem_map, not_or]
  refine ⟨hsigned, ?_⟩
  rintro ⟨part, hpart, hat⟩
  rcases List.mem_cons.mp hat with heq | hat
  · exact absurd heq (by decide)
  · rcases hpart with ⟨u, -, rfl⟩ | ⟨k, -, rfl⟩
    · exact u.not_mem (by decide) (by decide) (by decide) hat
    · exact k.not_mem (by decide) hat

/-- A constraint is split into its parts. -/
theorem splitParts_chars (f : ConstraintForm w) :
    Text.splitParts ',' f.chars = (f.signed.chars, f.others) := by
  rcases f.comma_not_mem with ⟨hsigned, hothers⟩
  exact Text.splitParts_flatMap hsigned hothers

/-- Unsigned ranges are the parts with dots. -/
theorem filter_dot_others (f : ConstraintForm w) :
    f.others.filter (fun part => decide ('.' ∈ part)) =
      f.unsigned?.toList.map UnsignedForm.chars := by
  have hunsigned : ∀ part ∈ f.unsigned?.toList.map UnsignedForm.chars,
      decide ('.' ∈ part) = true := by
    simp only [List.mem_map, decide_eq_true_eq]
    rintro part ⟨u, -, rfl⟩
    exact u.dot_mem
  have hpattern : ∀ part ∈ f.pattern?.toList.map PatternForm.chars,
      ¬ decide ('.' ∈ part) = true := by
    simp only [List.mem_map, decide_eq_true_eq]
    rintro part ⟨k, -, rfl⟩
    exact k.not_mem (by decide)
  rw [others, List.filter_append, List.filter_eq_self.mpr hunsigned,
    List.filter_eq_nil_iff.mpr hpattern, List.append_nil]

/-- A constraint is told by its characters. -/
theorem chars_injective {f g : ConstraintForm w} (h : f.chars = g.chars) : f = g := by
  have hsplit := congrArg (Text.splitParts ',') h
  rw [splitParts_chars, splitParts_chars, Prod.mk.injEq] at hsplit
  rcases hsplit with ⟨hfirst, hothers⟩
  have hsigned : f.signed = g.signed := SignedForm.chars_injective hfirst
  have hfilter := congrArg (List.filter fun part => decide ('.' ∈ part)) hothers
  rw [filter_dot_others, filter_dot_others] at hfilter
  have hunsigned : f.unsigned? = g.unsigned? :=
    option_eq_of_map_toList UnsignedForm.chars_injective hfilter
  rw [others, others, hunsigned, List.append_cancel_left_eq] at hothers
  have hpattern : f.pattern? = g.pattern? :=
    option_eq_of_map_toList PatternForm.chars_injective hothers
  rcases f with ⟨signed, unsigned?, pattern?⟩
  rcases g with ⟨signed', unsigned?', pattern?'⟩
  simp only at hsigned hunsigned hpattern
  subst hsigned hunsigned hpattern
  rfl

end ConstraintForm

/-! ## Values -/

/-- A counter as it is written: a decimal number of 64 bits that is not negative. -/
structure CounterForm where
  chars : List Char
  number : Nat
  denotes : Numeral.Signed (Numeral.Digits 10 false) chars number
  small : number < 2 ^ 63

/-- A counter is told by its characters. -/
theorem CounterForm.chars_injective {f g : CounterForm} (h : f.chars = g.chars) : f = g := by
  rcases f with ⟨cs, m, hm, hsmall⟩
  rcases g with ⟨ds, n, hn, hsmall'⟩
  simp only at h
  subst h
  have hunsigned : Numeral.Unsigned (Numeral.Digits 10 false) :=
    Numeral.unsigned_digits (by decide)
  have hmn : (m : Int) = n :=
    hunsigned.signed_unique (Numeral.Digits.unique (by decide)) hm hn
  have heq : m = n := Int.ofNat.inj hmn
  subst heq
  rfl

/-- A value as it is written: a constraint and perhaps a counter. -/
structure Form (w : Nat) where
  constraint : ConstraintForm w
  counter? : Option CounterForm

namespace Form

/-- The characters of a value. -/
def chars (f : Form w) : List Char :=
  f.constraint.chars ++ f.counter?.elim [] ('@' :: ·.chars)

/-- The text of a value. -/
def text (f : Form w) : String :=
  String.ofList f.chars

/-- What a value denotes.  A counter that is left out is zero. -/
def reading (f : Form w) : Reading w :=
  ⟨f.constraint.constraint, f.counter?.elim 0 (·.number)⟩

/-- The counter is cut off a value. -/
theorem cut_chars (f : Form w) :
    Text.cut ['@'] f.chars = (f.constraint.chars, f.counter?.map CounterForm.chars) := by
  have hat := f.constraint.at_not_mem
  rcases f with ⟨constraint, counter?⟩
  cases counter? with
  | none =>
      simp only [chars, Option.elim_none, List.append_nil, Option.map_none]
      exact Text.cut_of_not_mem hat
  | some counter => exact Text.cut_append hat

/-- Forms with the same text are equal. -/
theorem text_injective {f g : Form w} (h : f.text = g.text) : f = g := by
  have hchars : f.chars = g.chars := String.ofList_injective h
  have hcut := congrArg (Text.cut ['@']) hchars
  rw [cut_chars, cut_chars, Prod.mk.injEq] at hcut
  have hconstraint : f.constraint = g.constraint := ConstraintForm.chars_injective hcut.1
  have hcounter : f.counter? = g.counter? :=
    Option.map_injective (fun _ _ => CounterForm.chars_injective) hcut.2
  rcases f with ⟨constraint, counter?⟩
  rcases g with ⟨constraint', counter?'⟩
  simp only at hconstraint hcounter
  subst hconstraint hcounter
  rfl

end Form
end ValueText
end WordRanges
