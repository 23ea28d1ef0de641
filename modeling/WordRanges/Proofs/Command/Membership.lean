import WordRanges.Proofs.Command.Repeating
import WordRanges.Proofs.Notation.Acceptance

/-!
# Testing members on the command line

A member is given as an integer, in signed notation or, if it does not fit, in unsigned notation.
The value is brought to canonical form before it is tested, and the empty set has no form at all.
Still the answer is that of the constraint as it was written, for the word of the integer, and
an integer that is no number of a word is refused.

Main results:

- Theorems {lit}`readMember_eq_ok` and {lit}`readMember_eq_error`: the word of an integer.
- Theorem {lit}`Policy.any_contains_make?`: what is made of a constraint has its members.
- Theorem {lit}`Command.contains_reports_members`: the answer of the command.
-/

namespace WordRanges

open Session

/-! ## Members -/

namespace ValueText

variable {w : Nat} {cs : List Char} {n : Int} {text : String}

/-- The integers that are the number of a word, signed or unsigned. -/
def IsWordNumber (w : Nat) (n : Int) : Prop :=
  -2 ^ (w - 1) ≤ n ∧ n < 2 ^ w

/-- What is denoted without a sign is denoted with an optional sign. -/
theorem Sign.Denotes.signed_of_unsigned (h : Sign.unsigned.Denotes cs n) :
    Sign.signed.Denotes cs n := by
  rcases h with ⟨m, hm, rfl⟩
  exact .plain hm

/-- A positive integer that does not start with a plus sign is denoted without a sign. -/
theorem Sign.Denotes.unsigned_of_signed (h : Sign.signed.Denotes cs n)
    (hplus : cs.head? ≠ some '+') (hpos : 0 < n) : Sign.unsigned.Denotes cs n := by
  cases h with
  | @plain cs m hm => exact ⟨m, hm, rfl⟩
  | @plus cs m hm => exact absurd rfl hplus
  | @minus cs m hm => omega

/-- A negative integer does not start with a plus sign. -/
theorem Sign.Denotes.head?_ne_plus (h : Sign.signed.Denotes cs n) (hneg : n < 0) :
    cs.head? ≠ some '+' := by
  cases h with
  | @plain cs m hm => omega
  | @plus cs m hm => omega
  | @minus cs m hm => simp

/-- The range of signed words is half of the range of unsigned words on both sides of zero. -/
theorem two_pow_eq (hw : 0 < w) : (2 ^ w : Int) = 2 * 2 ^ (w - 1) := by
  rw [← Int.pow_succ', Nat.sub_add_cancel hw]

/-- An integer with a sign is read as a signed number exactly if it is in the signed range. -/
theorem readNumber_signed_of_denotes (h : Sign.signed.Denotes cs n) (hw : 0 < w) :
    (readNumber w .signed cs = .ok n ↔ -2 ^ (w - 1) ≤ n ∧ n < 2 ^ (w - 1)) ∧
      ∀ m, readNumber w .signed cs = .ok m → m = n := by
  have hpow := two_pow_eq hw
  constructor
  · rw [readNumber_signed_eq_ok_iff]
    constructor
    · rintro ⟨-, hlo, hhi⟩
      omega
    · intro hrange
      exact ⟨h, by omega, by omega⟩
  · intro m hm
    exact (readNumber_signed_eq_ok_iff.mp hm).1.unique h

/-- The number of a word is read as that word. -/
theorem readMember_eq_ok (hw : 0 < w) (h : Sign.signed.Denotes text.toList n)
    (hplus : text.toList.head? ≠ some '+') (hn : IsWordNumber w n) :
    ∃ sign, readMember w text = .ok ⟨BitVec.ofInt w n, sign⟩ := by
  have hpow := two_pow_eq hw
  have hpos : (0 : Int) < 2 ^ (w - 1) := Int.pow_pos (by decide)
  rcases readNumber_signed_of_denotes h hw with ⟨hsigned, hunique⟩
  by_cases hhalf : n < 2 ^ (w - 1)
  · have hread := hsigned.mpr ⟨hn.1, hhalf⟩
    exact ⟨.signed, by simp only [readMember, hread]⟩
  · -- The signed reading fails, so that the unsigned one is tried.
    have hdenotes := h.unsigned_of_signed hplus (by omega)
    have hread := readNumber_unsigned_eq_ok_iff.mpr ⟨hdenotes, hn.2⟩
    cases hfirst : readNumber w .signed text.toList with
    | ok m =>
        have hm := hunique m hfirst
        subst hm
        exact absurd (hsigned.mp hfirst).2 hhalf
    | error fault => exact ⟨.unsigned, by simp only [readMember, hfirst, hread]⟩

/-- An integer that is no number of a word is refused. -/
theorem readMember_eq_error (hw : 0 < w) (h : Sign.signed.Denotes text.toList n)
    (hn : ¬ IsWordNumber w n) : ∃ fault, readMember w text = .error fault := by
  have hpow := two_pow_eq hw
  have hpos : (0 : Int) < 2 ^ (w - 1) := Int.pow_pos (by decide)
  rcases readNumber_signed_of_denotes h hw with ⟨hsigned, hunique⟩
  cases hfirst : readNumber w .signed text.toList with
  | ok m =>
      have hm := hunique m hfirst
      subst hm
      have hrange := hsigned.mp hfirst
      exact absurd ⟨hrange.1, by omega⟩ hn
  | error fault =>
      cases hsecond : readNumber w .unsigned text.toList with
      | ok m =>
          rcases readNumber_unsigned_eq_ok_iff.mp hsecond with ⟨hdenotes, hlt⟩
          have hm : m = n := hdenotes.signed_of_unsigned.unique h
          rcases hdenotes with ⟨k, -, hk⟩
          exact absurd ⟨by omega, by omega⟩ hn
      | error fault' => exact ⟨⟨text, fault'⟩, by simp only [readMember, hfirst, hsecond]⟩

end ValueText

/-! ## Answers -/

variable {w : Nat} {n : Int} {text member : String} {reading : ValueText.Reading w}

/-- What is made of a constraint has its members, and nothing is made of one without members. -/
theorem Policy.any_contains_make? (p : Policy) (c : Constraint w) (n : Int) (x : BitVec w) :
    ((p.make? c n).any fun v => decide (v.Contains x)) = decide (c.Contains x) := by
  have hmembers : (∃ v ∈ p.make? c n, v.Contains x) ↔ c.Contains x := exists_make?_contains
  rw [Bool.eq_iff_iff, Option.any_eq_true, decide_eq_true_eq, ← hmembers]
  simp

/-- A word is tested against the constraint that was written. -/
theorem Operation.gives_contains {x : ValueText.Member w} (p : Policy) (style : Style)
    (hread : ValueText.read w text = .ok reading)
    (hmember : ValueText.readMember w member = .ok x) :
    Gives (Operation.contains.run p w style [text, member])
      (style.answer (decide (reading.constraint.Contains x.word))) := by
  refine (gives_readValue hread).bind ?_
  have harg : [text, member].getD 1 "" = member := rfl
  simp only [harg, hmember, Policy.any_contains_make?]
  exact gives_pure _

/-- A member that is no word makes the test fail. -/
theorem Operation.fails_contains {fault : ValueText.MemberFault} (p : Policy) (style : Style)
    (hread : ValueText.read w text = .ok reading)
    (hmember : ValueText.readMember w member = .error fault) :
    Fails (Operation.contains.run p w style [text, member]) (.member fault) := by
  refine (gives_readValue hread).bind_fails ?_
  have harg : [text, member].getD 1 "" = member := rfl
  simp only [harg, hmember]
  exact fails_throw _

/-- Values have at least one bit. -/
theorem pos_of_mem_widthsOfValues : ∀ w ∈ widthsOfValues, 0 < w := by
  decide

/-- The number of a word is tested at the widths of values. -/
theorem Operation.gives_contains_number (hw : w ∈ widthsOfValues) (p : Policy) (style : Style)
    (hread : ValueText.read w text = .ok reading)
    (hmember : Numeral.Signed Numeral.Literal member.toList n)
    (hplus : member.toList.head? ≠ some '+') (hn : ValueText.IsWordNumber w n) :
    Gives (Operation.contains.runAt p w style [text, member])
      (style.answer (decide (reading.constraint.Contains (BitVec.ofInt w n)))) := by
  have hpos := pos_of_mem_widthsOfValues w hw
  rcases ValueText.readMember_eq_ok hpos hmember hplus hn with ⟨sign, hword⟩
  have hanswer := Operation.gives_contains p style hread hword
  rw [Operation.runAt_eq _ _ _ hw]
  exact hanswer

/-- Other integers are refused at the widths of values. -/
theorem Operation.fails_contains_number (hw : w ∈ widthsOfValues) (p : Policy) (style : Style)
    (hread : ValueText.read w text = .ok reading)
    (hmember : Numeral.Signed Numeral.Literal member.toList n)
    (hn : ¬ ValueText.IsWordNumber w n) :
    ∃ fault, Fails (Operation.contains.runAt p w style [text, member]) (.member fault) := by
  have hpos := pos_of_mem_widthsOfValues w hw
  rcases ValueText.readMember_eq_error hpos hmember hn with ⟨fault, hfault⟩
  have hfails := Operation.fails_contains p style hread hfault
  rw [Operation.runAt_eq _ _ _ hw]
  exact ⟨fault, hfails⟩

/-- Numbers that differ by the number of words are numbers of one word. -/
theorem ofInt_sub_two_pow (w : Nat) (n : Int) :
    BitVec.ofInt w (n - 2 ^ w) = BitVec.ofInt w n := by
  apply BitVec.eq_of_toInt_eq
  have hpow : ((2 ^ w : Nat) : Int) = 2 ^ w := Int.natCast_pow 2 w
  rw [BitVec.toInt_ofInt, BitVec.toInt_ofInt, ← hpow]
  exact Int.sub_bmod_right n (2 ^ w)

namespace Command

variable {world : World} {line rest : List String} {r : PlainRequest} {o : Options} {s : Settings}
  {fault : RunFault}

/-- A command line fails as its operation does. -/
theorem Asks.run_of_fails (h : Asks world line r rest o s)
    (hfits : r.operation.arity.Fits r.texts.length)
    (hfails : Fails (r.operation.runAt r.policy r.width .plain r.texts) fault) :
    (run world line).out = "" ∧ (run world line).fault = some fault := by
  have hcommand : Fails (r.operation.command world o r.texts) fault := by
    unfold Operation.command
    simp only [h.load_eq, h.style_eq, h.width_eq, h.policy_eq]
    rw [if_neg (not_not.mpr hfits)]
    exact (gives_note _).bind_fails hfails
  have hrun := hcommand []
  rw [h.run_eq]
  rcases hresult : (r.operation.command world o r.texts).run.run [] with ⟨fault' | printed, log⟩
  · rw [hresult] at hrun
    cases hrun
    exact ⟨rfl, rfl⟩
  · rw [hresult] at hrun
    cases hrun

/-- Whether an integer is a member is told of the constraint as it was written and of the word
of the integer, under every policy and in every style.  Integers that are no number of a word are
refused, and the two integers of one word get one answer.  Command lines print these answers. -/
theorem contains_reports_members (hw : w ∈ widthsOfValues) (p : Policy)
    (hread : ValueText.read w text = .ok reading)
    (hmember : Numeral.Signed Numeral.Literal member.toList n)
    (hplus : member.toList.head? ≠ some '+') :
    (ValueText.IsWordNumber w n → ∀ style : Style,
      Gives (Operation.contains.runAt p w style [text, member])
        (style.answer (decide (reading.constraint.Contains (BitVec.ofInt w n))))) ∧
    (¬ ValueText.IsWordNumber w n → ∀ style : Style, ∃ fault,
      Fails (Operation.contains.runAt p w style [text, member]) (.member fault)) ∧
    (2 ^ (w - 1) ≤ n → n < 2 ^ w → ∀ other : String,
      Numeral.Signed Numeral.Literal other.toList (n - 2 ^ w) → ∀ style : Style, ∃ answer,
        Gives (Operation.contains.runAt p w style [text, member]) answer ∧
          Gives (Operation.contains.runAt p w style [text, other]) answer) ∧
    ∀ (world : World) (line : List String),
      plainRequest? world line = some ⟨.contains, w, p, [text, member]⟩ →
      ((run world line).fault = none ↔ ValueText.IsWordNumber w n) ∧
        ((run world line).out = "true\n" ↔
          ValueText.IsWordNumber w n ∧ reading.constraint.Contains (BitVec.ofInt w n)) ∧
        ((run world line).out = "false\n" ↔
          ValueText.IsWordNumber w n ∧ ¬ reading.constraint.Contains (BitVec.ofInt w n)) := by
  have hgives (hn : ValueText.IsWordNumber w n) (style : Style) :=
    Operation.gives_contains_number hw p style hread hmember hplus hn
  have hfails (hn : ¬ ValueText.IsWordNumber w n) (style : Style) :=
    Operation.fails_contains_number hw p style hread hmember hn
  have hpow := ValueText.two_pow_eq (pos_of_mem_widthsOfValues w hw)
  refine ⟨hgives, hfails, fun hlo hhi other hother style => ?_, fun world line hasked => ?_⟩
  · have hn : ValueText.IsWordNumber w n := ⟨by omega, hhi⟩
    have hn' : ValueText.IsWordNumber w (n - 2 ^ w) := ⟨by omega, by omega⟩
    have hplus' := ValueText.Sign.Denotes.head?_ne_plus hother (by omega)
    have hanswer := Operation.gives_contains_number hw p style hread hother hplus' hn'
    rw [ofInt_sub_two_pow] at hanswer
    exact ⟨_, hgives hn style, hanswer⟩
  · rcases plainRequest?_eq_some_iff.mp hasked with ⟨rest, o, s, hasks⟩
    by_cases hn : ValueText.IsWordNumber w n
    · rcases hasks.run_of_gives (hasks.gives_command rfl (hgives hn .plain)) with ⟨hout, hfault⟩
      rw [hout, hfault]
      by_cases hcontains : reading.constraint.Contains (BitVec.ofInt w n)
      · simp [hn, hcontains, Style.answer, Style.plain]
      · simp [hn, hcontains, Style.answer, Style.plain]
    · rcases hfails hn .plain with ⟨fault, hfault⟩
      rcases hasks.run_of_fails rfl hfault with ⟨hout, hfault⟩
      rw [hout, hfault]
      simp [hn]

/-! ## Two numbers of one word -/

namespace Testing

/-- The text of the even words from one hundred to two hundred. -/
def evens : String := "*,100..200,*******0"

/-- What that text is read as. -/
def evensReading : ValueText.Reading 8 :=
  ⟨⟨.fullSigned 8, ⟨100, 200⟩, ⟨1, 0⟩⟩, 0⟩

/-- A literal is recognised by reading it. -/
theorem signed_of_readUnsigned (text : String) (n : Nat)
    (h : Numeral.readUnsigned 1000 text.toList = .ok n) :
    Numeral.Signed Numeral.Literal text.toList n :=
  .plain (Numeral.literal_of_readUnsigned h)

/-- Two hundred is a member, also in signed notation, and one number more than all words is
refused. -/
theorem two_hundred_member :
    ValueText.read 8 evens = .ok evensReading ∧
      (run Printing.noFiles ["contains", "--width=8", evens, "0xC8"]).out = "true\n" ∧
      (∃ answer, Gives (Operation.contains.runAt .default 8 .plain [evens, "0xC8"]) answer ∧
        Gives (Operation.contains.runAt .default 8 .plain [evens, "-5_6"]) answer) ∧
      ∃ fault, Fails (Operation.contains.runAt .default 8 .plain [evens, "0b1_0000_0000"])
        (.member fault) := by
  have hread : ValueText.read 8 evens = .ok evensReading := by
    decide +kernel
  have hmember := signed_of_readUnsigned "0xC8" 200 (by decide +kernel)
  have hdigits : Numeral.readUnsigned 1000 ['5', '_', '6'] = .ok 56 := by
    decide +kernel
  have hother : Numeral.Signed Numeral.Literal "-5_6".toList (200 - 2 ^ 8) :=
    .minus (Numeral.literal_of_readUnsigned hdigits)
  have hlarge := signed_of_readUnsigned "0b1_0000_0000" 256 (by decide +kernel)
  rcases contains_reports_members (w := 8) (by decide) .default hread hmember (by decide) with
    ⟨-, -, hsame, hline⟩
  rcases contains_reports_members (w := 8) (by decide) .default hread hlarge (by decide) with
    ⟨-, hrefused, -, -⟩
  rcases hline Printing.noFiles ["contains", "--width=8", evens, "0xC8"] (by decide +kernel) with
    ⟨-, htrue, -⟩
  have hnumber : ValueText.IsWordNumber 8 (200 : Nat) := by
    unfold ValueText.IsWordNumber
    decide
  have hlargeNumber : ¬ ValueText.IsWordNumber 8 (256 : Nat) := by
    unfold ValueText.IsWordNumber
    decide
  exact ⟨hread, htrue.mpr ⟨hnumber, by decide +kernel⟩,
    hsame (by decide) (by decide) "-5_6" hother .plain, hrefused hlargeNumber .plain⟩

end Testing

end Command
end WordRanges
