import WordRanges.Proofs.Command.Sessions
import WordRanges.Proofs.Config.Precedence
import WordRanges.Proofs.Domain.Combining

/-!
# Printed values are read back

The text of a value is read as its constraint and its counter, and these make the value again.
So a value that a command line printed can be given to another command line: at the same width
and under the same policy its canonical form is printed as the same text.  This holds of values
only; the word that is printed for the empty set describes no value.

Main results:

- Theorem {lit}`Options.readFrom_flagWord`: reading a flag with its value.
- Theorem {lit}`Command.Asks.exists_line_canon`: a command line that asks for the canonical form.
- Theorem {lit}`Command.printed_values_read_back`: values, and the lines that print them.
-/

namespace WordRanges

open Session

/-! ## Flags with values -/

/-- The word of a command line that gives a flag a value. -/
def Flag.word (flag : Flag) (value : String) : String :=
  "--" ++ flag.name ++ "=" ++ value

/-- The characters of a flag with its value. -/
theorem Flag.toList_word (flag : Flag) (value : String) :
    (flag.word value).toList = '-' :: '-' :: (flag.name.toList ++ (['='] ++ value.toList)) := by
  simp [word, String.toList_append]

/-- A flag with its value is read, then the words after it. -/
theorem Options.readFrom_flagWord (o : Options) (flag : Flag) (value : String)
    (words : List String) :
    o.readFrom (flag.word value :: words) = (o.set flag value).bind (readFrom · words) := by
  have hname : '=' ∉ flag.name.toList ∧ flag.name.toList.head? ≠ some '-' := by
    cases flag <;> decide
  have hfound : Flag.ofName? flag.name = some flag := by
    cases flag <;> decide
  have hcut : Text.cut ['='] (flag.name.toList ++ (['='] ++ value.toList)) =
      (flag.name.toList, some value.toList) := Text.cut_append hname.1
  have hword := Flag.toList_word flag value
  -- The name has a first character, so the word is not the one that ends the flags.
  cases hchars : flag.name.toList with
  | nil => cases flag <;> cases hchars
  | cons c cs =>
      rw [hchars, List.cons_append] at hcut hword
      have hform : ¬ ((c :: cs).isEmpty || decide ((c :: cs).head? = some '-')) = true := by
        rw [hchars] at hname
        simpa using hname.2
      rw [readFrom, hword]
      simp only [hcut]
      rw [if_neg hform, ← hchars, String.ofList_toList, hfound]
      simp only [String.ofList_toList]
      rfl

namespace Command

/-! ## Requests for plain output -/

/-- An operation on texts, at a width and under a policy. -/
structure PlainRequest where
  operation : Operation
  width : Int
  policy : Policy
  texts : List String
deriving DecidableEq, Repr

/-- What a command line asks for, if its result is to be printed plainly. -/
def plainRequest? (world : World) (line : List String) : Option PlainRequest :=
  match find line with
  | .ok (.operation op, rest) =>
    match Options.read rest with
    | .ok (o, texts) =>
      match Settings.load world.openPath (Path.resolve world.directory o.config) with
      | .ok s =>
        if o.help ∨ o.json.getD s.json ∨ o.pretty then none
        else some ⟨op, o.width.getD s.width, s.policy, texts⟩
      | .error _ => none
    | .error _ => none
  | _ => none

/-- The words, options and settings that make a command line ask for something. -/
structure Asks (world : World) (line : List String) (r : PlainRequest) (rest : List String)
    (o : Options) (s : Settings) : Prop where
  find_eq : find line = .ok (.operation r.operation, rest)
  read_eq : Options.read rest = .ok (o, r.texts)
  load_eq : Settings.load world.openPath (Path.resolve world.directory o.config) = .ok s
  help_eq : o.help = false
  style_eq : (⟨o.json.getD s.json, o.pretty⟩ : Style) = .plain
  width_eq : o.width.getD s.width = r.width
  policy_eq : s.policy = r.policy

variable {world : World} {line rest : List String} {r : PlainRequest} {o : Options} {s : Settings}
variable {out : String}

/-- A command line asks for what its words, options and settings say. -/
theorem plainRequest?_eq_some_iff :
    plainRequest? world line = some r ↔ ∃ rest o s, Asks world line r rest o s := by
  constructor
  · intro h
    unfold plainRequest? at h
    split at h
    · rename_i op rest hfind
      split at h
      · rename_i o texts hread
        split at h
        · rename_i s hload
          split at h
          · cases h
          · rename_i hstyle
            cases h
            simp only [not_or, Bool.not_eq_true] at hstyle
            refine ⟨rest, o, s, hfind, hread, hload, hstyle.1, ?_, rfl, rfl⟩
            rw [hstyle.2.1, hstyle.2.2]
            rfl
        · cases h
      · cases h
    · cases h
  · rintro ⟨rest, o, s, h⟩
    have hstyle := Style.mk.inj h.style_eq
    simp [plainRequest?, h.find_eq, h.read_eq, h.load_eq, h.help_eq, hstyle.1, hstyle.2,
      h.width_eq, h.policy_eq]

/-- A command line ends as its operation does. -/
theorem Asks.run_eq (h : Asks world line r rest o s) :
    run world line =
      match (r.operation.command world o r.texts).run.run [] with
      | (.ok out, log) => ⟨out, if o.verbose then log else [], none⟩
      | (.error fault, log) => ⟨"", if o.verbose then log else [], some fault⟩ := by
  simp only [run, h.find_eq, h.read_eq, session, h.help_eq, Bool.false_eq_true, if_false]
  rcases (r.operation.command world o r.texts).run.run [] with ⟨fault | out, log⟩ <;> rfl

/-- A command line that succeeds prints what its operation gives. -/
theorem Asks.canGive_of_run (h : Asks world line r rest o s)
    (hfault : (run world line).fault = none) :
    CanGive (r.operation.command world o r.texts) (run world line).out := by
  refine ⟨[], ?_⟩
  rw [h.run_eq] at hfault ⊢
  rcases hrun : (r.operation.command world o r.texts).run.run [] with ⟨fault | out, log⟩
  · rw [hrun] at hfault
    cases hfault
  · rfl

/-- A command line prints what its operation gives. -/
theorem Asks.run_of_gives (h : Asks world line r rest o s)
    (hgives : Gives (r.operation.command world o r.texts) out) :
    (run world line).out = out ∧ (run world line).fault = none := by
  have hrun := hgives []
  rw [h.run_eq]
  rcases hcommand : (r.operation.command world o r.texts).run.run [] with ⟨fault | printed, log⟩
  · rw [hcommand] at hrun
    cases hrun
  · rw [hcommand] at hrun
    cases hrun
    exact ⟨rfl, rfl⟩

/-- A command that gives a result has the right number of texts, and its operation gives that
result. -/
theorem Asks.canGive_runAt (h : Asks world line r rest o s)
    (hgive : CanGive (r.operation.command world o r.texts) out) :
    r.operation.arity.Fits r.texts.length ∧
      CanGive (r.operation.runAt r.policy r.width .plain r.texts) out := by
  unfold Operation.command at hgive
  simp only [h.load_eq, h.style_eq, h.width_eq, h.policy_eq] at hgive
  split at hgive
  · obtain ⟨_, hthrow, _⟩ := hgive.of_bind
    exact (not_canGive_throw _ hthrow).elim
  · rename_i hfits
    obtain ⟨-, -, hgive⟩ := hgive.of_bind
    exact ⟨not_not.mp hfits, hgive⟩

/-- With the right number of texts, a command gives what its operation gives. -/
theorem Asks.gives_command (h : Asks world line r rest o s)
    (hfits : r.operation.arity.Fits r.texts.length)
    (hgives : Gives (r.operation.runAt r.policy r.width .plain r.texts) out) :
    Gives (r.operation.command world o r.texts) out := by
  unfold Operation.command
  simp only [h.load_eq, h.style_eq, h.width_eq, h.policy_eq]
  rw [if_neg (not_not.mpr hfits)]
  exact (gives_note _).bind hgives

/-- Every operation takes at least one text. -/
theorem texts_ne_nil {op : Operation} {texts : List String} (h : op.arity.Fits texts.length) :
    texts ≠ [] := by
  rintro rfl
  cases op <;> revert h <;> decide

/-! ## Asking for the canonical form -/

/-- A request for the canonical form of what a text describes, all else being equal. -/
def PlainRequest.canonOf (r : PlainRequest) (text : String) : PlainRequest :=
  { r with operation := .canon, texts := [text] }

/-- The command line for the canonical form of what a text describes, in words that are never
taken for flags. -/
def canonLine (width : Int) (config text : String) : List String :=
  ["canon", Flag.width.word width.repr, Flag.config.word config, Flag.json.word "false", "--", text]

/-- What is left of the command line when the command was found. -/
theorem find_canonLine (width : Int) (config text : String) :
    find (canonLine width config text) =
      .ok (.operation .canon, (canonLine width config text).tail) := by
  have hcommand : ofName? "canon" = some (.operation .canon) := by decide
  have htakes : takesNext "canon" = false := by decide
  have hdashed : isDashed "canon" = false := by decide
  simp [find, canonLine, words, dropName, hcommand, htakes, hdashed]

/-- The options of the command line. -/
theorem read_canonLine {width : Int} (hlo : -2 ^ 63 ≤ width) (hhi : width < 2 ^ 63)
    (config text : String) :
    Options.read (canonLine width config text).tail =
      .ok (⟨some width, config, some false, false, false, false⟩, [text]) := by
  have hwidth : ValueText.readNumber 64 .signed width.repr.toList = .ok width := by
    simp only [ValueText.readNumber]
    rw [Numeral.readSigned_repr (by omega) hlo hhi]
    rfl
  have hjson : Options.readTruth "false" = .ok false := by
    simp [Options.readTruth]
  simp only [Options.read, canonLine, List.tail_cons, Options.readFrom_flagWord, Options.set,
    hwidth, hjson, Except.map, Except.mapError, Except.bind, Options.default]
  rfl

/-- There is a command line that asks for the canonical form of what a text describes, at the
same width and under the same policy. -/
theorem Asks.exists_line_canon (h : Asks world line r rest o s) (hlo : -2 ^ 63 ≤ r.width)
    (hhi : r.width < 2 ^ 63) (text : String) :
    ∃ again, plainRequest? world again = some (r.canonOf text) := by
  have hasks : Asks world (canonLine r.width o.config text) (r.canonOf text)
      (canonLine r.width o.config text).tail
      ⟨some r.width, o.config, some false, false, false, false⟩ s :=
    ⟨find_canonLine _ _ _, read_canonLine hlo hhi _ _, h.load_eq, rfl, rfl, rfl, h.policy_eq⟩
  exact ⟨_, plainRequest?_eq_some_iff.mpr ⟨_, _, s, hasks⟩⟩

/-! ## Printing again -/

/-- What an operation prints is printed again for its canonical form, at the same width and under
the same policy, if it is a value. -/
theorem exists_canon_gives {op : Operation} {p : Policy} {width : Int} {texts : List String}
    (hbudget : p.maxWiden < 2 ^ 63) (hop : op ≠ .contains) (hfits : op.arity.Fits texts.length)
    (hgive : CanGive (op.runAt p width .plain texts) out) (hout : out ≠ "empty\n") :
    ∃ text, out = text ++ "\n" ∧ Gives (Operation.canon.runAt p width .plain [text]) out := by
  obtain ⟨w, hw, rfl⟩ := Operation.exists_width_of_runAt hgive
  rw [Operation.runAt_eq _ _ _ hw] at hgive
  -- The budget of the policy has 64 bits, and so have all counters.
  have hbound : p.IsCounterBound (2 ^ 63 - 1) := ⟨by decide, by omega⟩
  have hprinted := Operation.isResult_of_run hbound (Int.le_refl _) hop (texts_ne_nil hfits) hgive
  obtain ⟨v, hv, htext⟩ := hprinted.resolve_left hout
  refine ⟨ValueText.write v, htext, ?_⟩
  rw [Operation.runAt_eq _ _ _ hw, htext]
  exact Operation.gives_canon_write hv.valid (Int.lt_of_le_sub_one hv.widen_le)

/-- What a command line prints is printed again by every command line that asks for its canonical
form at the same width and under the same policy, and there is one that does. -/
def PrintsAgain (world : World) (line : List String) (r : PlainRequest) : Prop :=
  ∃ text, (run world line).out = text ++ "\n" ∧
    (∃ again, plainRequest? world again = some (r.canonOf text)) ∧
    ∀ (other : World) (again : List String), plainRequest? other again = some (r.canonOf text) →
      (run other again).out = (run world line).out ∧ (run other again).fault = none

/-- The text of a value of a policy is read as its constraint and its counter, and these make
the value again.  So what an operation prints is printed again for its canonical form, if it is
a value: not the answer whether a word is a member, and not the word for the empty set.  The same
holds of command lines. -/
theorem printed_values_read_back :
    (∀ (w : Nat) (p : Policy) (v : Value w), p.Makes v → 0 ≤ v.widen → v.widen < 2 ^ 63 →
      ValueText.read w (ValueText.write v) = .ok ⟨v.constraint, v.widen⟩ ∧
        p.make? v.constraint v.widen = some v) ∧
    (∀ (op : Operation) (p : Policy) (width : Int) (texts : List String) (out : String),
      p.maxWiden < 2 ^ 63 → op ≠ .contains → op.arity.Fits texts.length →
      CanGive (op.runAt p width .plain texts) out → out ≠ "empty\n" →
        ∃ text, out = text ++ "\n" ∧
          Gives (Operation.canon.runAt p width .plain [text]) out) ∧
    ∀ (world : World) (line : List String) (r : PlainRequest), plainRequest? world line = some r →
      r.operation ≠ .contains → (run world line).fault = none →
      (run world line).out ≠ "empty\n" → PrintsAgain world line r := by
  refine ⟨?_, fun op p width texts out hbudget hop hfits hgive hout =>
    exists_canon_gives hbudget hop hfits hgive hout, ?_⟩
  · intro w p v hv hpos hcounter
    have hread := ValueText.read_write hv.valid hcounter
    rw [Int.max_eq_right hpos] at hread
    exact ⟨hread, hv.valid.make?_eq_some⟩
  · intro world line r hr hop hfault hout
    obtain ⟨rest, o, s, hasks⟩ := plainRequest?_eq_some_iff.mp hr
    obtain ⟨hfits, hgive⟩ := hasks.canGive_runAt (hasks.canGive_of_run hfault)
    -- The policy was loaded, so its budget has 64 bits.
    have hbudget := hasks.policy_eq ▸ Settings.maxWiden_lt_of_load hasks.load_eq
    obtain ⟨w, hw, hwidth⟩ := Operation.exists_width_of_runAt hgive
    have hsmall := le_of_mem_widthsOfValues w hw
    obtain ⟨text, htext, hgives⟩ := exists_canon_gives hbudget hop hfits hgive hout
    refine ⟨text, htext, hasks.exists_line_canon (by omega) (by omega) _, ?_⟩
    intro other again hagain
    obtain ⟨rest, o, s, hasks⟩ := plainRequest?_eq_some_iff.mp hagain
    exact hasks.run_of_gives (hasks.gives_command rfl hgives)

/-- Nothing is printed again if a command line for its canonical form fails. -/
theorem not_printsAgain (text : String) (again : List String)
    (hout : (run world line).out = text ++ "\n")
    (hasked : plainRequest? world again = some (r.canonOf text))
    (hfault : (run world again).fault ≠ none) : ¬ PrintsAgain world line r := by
  rintro ⟨printed, hprinted, -, hagain⟩
  have hsame : text = printed := (String.append_left_inj "\n").mp (hout.symm.trans hprinted)
  rw [← hsame] at hagain
  exact hfault (hagain world again hasked).2

/-! ## A value that is printed twice, and words that describe no value -/

namespace Printing

/-- A world without files. -/
def noFiles : World := ⟨[], fun _ => .missing⟩

/-- The even words from minus six to ten, widened once. -/
def widened : Value 8 :=
  ⟨⟨⟨-6, 10⟩, ⟨0, -2⟩, ⟨1, 0⟩⟩, 1⟩

/-- The command line that widens the even words from minus six to eight. -/
def widenLine : List String :=
  ["widen", "--width=8", "--", "-6..10,*******0", "-6..8,*******0"]

/-- What that command line asks for. -/
def widenRequest : PlainRequest :=
  ⟨.widen, 8, .default, ["-6..10,*******0", "-6..8,*******0"]⟩

/-- The widened value is printed with all its parts.  It is read back, and its text is printed
again. -/
theorem widened_printed_again :
    Policy.default.Makes widened ∧
      ValueText.read 8 (ValueText.write widened) = .ok ⟨widened.constraint, 1⟩ ∧
      Policy.default.make? widened.constraint 1 = some widened ∧
      plainRequest? noFiles widenLine = some widenRequest ∧
      (run noFiles widenLine).out = "-6..10,0..254,*******0@1\n" ∧
      PrintsAgain noFiles widenLine widenRequest := by
  have hmade : Policy.default.Makes widened :=
    ⟨[.make widened.constraint 1], [widened], by decide +kernel, by simp⟩
  have hasked : plainRequest? noFiles widenLine = some widenRequest := by
    decide +kernel
  have hout : (run noFiles widenLine).out = "-6..10,0..254,*******0@1\n" := by
    decide +kernel
  obtain ⟨hread, hmake⟩ :=
    printed_values_read_back.1 8 .default widened hmade (by decide) (by decide)
  have hagain := printed_values_read_back.2.2 noFiles widenLine widenRequest hasked (by decide)
    (by decide +kernel) (by decide +kernel)
  exact ⟨hmade, hread, hmake, hasked, hout, hagain⟩

/-- The command line for the intersection of two sets without a common member. -/
def joinLine : List String :=
  ["join", "--width=8", "0..10", "20..30"]

/-- What that command line asks for. -/
def joinRequest : PlainRequest :=
  ⟨.join, 8, .default, ["0..10", "20..30"]⟩

/-- The command line that tests a member. -/
def containsLine : List String :=
  ["contains", "--width=8", "0..10", "5"]

/-- What that command line asks for. -/
def containsRequest : PlainRequest :=
  ⟨.contains, 8, .default, ["0..10", "5"]⟩

/-- Not everything that is printed is printed again: neither the word for the empty set nor the
answer whether a word is a member describes a value. -/
theorem words_not_printed_again :
    (plainRequest? noFiles joinLine = some joinRequest ∧
      (run noFiles joinLine).fault = none ∧ ¬ PrintsAgain noFiles joinLine joinRequest) ∧
    plainRequest? noFiles containsLine = some containsRequest ∧
      (run noFiles containsLine).fault = none ∧
      ¬ PrintsAgain noFiles containsLine containsRequest := by
  have hjoin : ¬ PrintsAgain noFiles joinLine joinRequest :=
    not_printsAgain "empty" ["canon", "--width=8", "empty"]
      (by decide +kernel) (by decide +kernel) (by decide +kernel)
  have hcontains : ¬ PrintsAgain noFiles containsLine containsRequest :=
    not_printsAgain "true" ["canon", "--width=8", "true"]
      (by decide +kernel) (by decide +kernel) (by decide +kernel)
  exact ⟨⟨by decide +kernel, by decide +kernel, hjoin⟩, by decide +kernel, by decide +kernel,
    hcontains⟩

end Printing

end Command
end WordRanges
