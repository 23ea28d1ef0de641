import WordRanges.Proofs.Text.Numerals

/-!
# The grammar of numerals

A numeral is the digit zero, decimal digits that start with another digit, or digits of some
base after a start that announces this base.  Single underscores may stand between two digits
and after such a start.  This is stated as a grammar that gives each numeral its number, and
reading accepts exactly the texts of the grammar whose numbers lie in the range that is asked
for.

Main results:

- Theorem {lit}`Digits.readDigits_eq` and {lit}`Digits.extend`: digits are read as the number
  that they write, and nothing else is read.
- Theorem {lit}`readUnsigned_eq_ok_iff`: numerals without a sign.
- Theorems {lit}`readSigned_eq_ok_iff` and {lit}`readDecimal_eq_ok_iff`: numerals with a sign.
-/

namespace WordRanges
namespace Numeral

variable {base bound d m n : Nat} {cs ds start gap : List Char} {c : Char} {spaced : Bool}

/-! ## Digits -/

/-- A digit of a base, in either case, and its value. -/
def IsDigit (base : Nat) (c : Char) (d : Nat) : Prop :=
  d < base ∧ c.toLower = Nat.digitChar d

/-- The digits of a number in some base.  Single underscores may stand between them if the
numeral is spaced. -/
inductive Digits (base : Nat) (spaced : Bool) : List Char → Nat → Prop where
  | first {c : Char} {d : Nat} (hc : IsDigit base c d) : Digits base spaced [c] d
  | next {cs : List Char} {c : Char} {n d : Nat} (hcs : Digits base spaced cs n)
      (hc : IsDigit base c d) : Digits base spaced (cs ++ [c]) (n * base + d)
  | space {cs : List Char} {c : Char} {n d : Nat} (hspaced : spaced = true)
      (hcs : Digits base spaced cs n) (hc : IsDigit base c d) :
      Digits base spaced (cs ++ ['_', c]) (n * base + d)

/-- The code of a character in lower case. -/
theorem toNat_toLower (c : Char) :
    c.toLower.toNat = if 65 ≤ c.toNat ∧ c.toNat ≤ 90 then c.toNat + 32 else c.toNat := by
  have hcode : c.toNat = c.val.toNat := rfl
  have hcond : (c.val ≥ 'A'.val ∧ c.val ≤ 'Z'.val) ↔ (65 ≤ c.toNat ∧ c.toNat ≤ 90) := by
    simp only [ge_iff_le, UInt32.le_iff_toNat_le, hcode]
    exact Iff.rfl
  unfold Char.toLower
  by_cases h : 65 ≤ c.toNat ∧ c.toNat ≤ 90
  · rw [dif_pos (hcond.mpr h), if_pos h]
    have hsum : (c.val + ('a'.val - 'A'.val)).toNat = c.val.toNat + 32 := by
      rw [UInt32.toNat_add]
      have hdiff : ('a'.val - 'A'.val).toNat = 32 := rfl
      omega
    exact hsum
  · rw [dif_neg (fun h' => h (hcond.mp h')), if_neg h]

/-- The code of a digit. -/
theorem toNat_digitChar (hd : d < 16) :
    (Nat.digitChar d).toNat = if d < 10 then d + 48 else d + 87 := by
  revert d
  decide

/-- Characters are looked up as digits by their codes. -/
theorem digit?_eq_some_iff (hd : d < 16) : digit? c = some d ↔ c.toLower = Nat.digitChar d := by
  have hcode : c.toLower = Nat.digitChar d ↔ c.toLower.toNat = (Nat.digitChar d).toNat :=
    Char.toNat_inj.symm
  have hlower := toNat_toLower c
  have hdigit := toNat_digitChar hd
  have hle (a b : Char) : a ≤ b ↔ a.toNat ≤ b.toNat := by
    rw [Char.le_def, UInt32.le_iff_toNat_le]
    exact Iff.rfl
  rw [hcode, hlower, hdigit]
  unfold digit?
  simp only [hle, Char.reduceToNat]
  split
  · simp only [Option.some.injEq]
    split <;> split <;> omega
  · split
    · simp only [Option.some.injEq]
      split <;> split <;> omega
    · split
      · simp only [Option.some.injEq]
        split <;> omega
      · simp only [reduceCtorEq, false_iff]
        split <;> omega

/-- A digit is looked up as its value. -/
theorem IsDigit.digit?_eq (hbase : base ≤ 16) (hc : IsDigit base c d) : digit? c = some d :=
  (digit?_eq_some_iff (Nat.lt_of_lt_of_le hc.1 hbase)).mpr hc.2

/-- An underscore is no digit. -/
theorem IsDigit.ne_underscore (hbase : base ≤ 16) (hc : IsDigit base c d) : c ≠ '_' := by
  rintro rfl
  cases hc.digit?_eq hbase

/-- A digit is read and added to the number before it. -/
theorem readDigits_digit (hbase : base ≤ 16) (hc : IsDigit base c d)
    (hbound : n * base + d ≤ bound) (cs : List Char) :
    readDigits base bound spaced n (c :: cs) =
      readDigits base bound spaced (n * base + d) cs := by
  have hdigit := hc.digit?_eq hbase
  have hplain : ¬ (c = '_' ∧ spaced = true) := fun h => hc.ne_underscore hbase h.1
  rw [readDigits, if_neg hplain, hdigit]
  simp only
  rw [if_neg (Nat.not_le.mpr hc.1), if_neg (Nat.not_lt.mpr hbound)]

/-- A character that is read and not passed over is a digit. -/
theorem exists_isDigit_of_readDigits (hbase : base ≤ 16) (hc : ¬ (c = '_' ∧ spaced = true))
    (h : readDigits base bound spaced n (c :: cs) = .ok m) :
    ∃ d, IsDigit base c d ∧ readDigits base bound spaced (n * base + d) cs = .ok m := by
  rw [readDigits, if_neg hc] at h
  cases hdigit : digit? c with
  | none =>
      rw [hdigit] at h
      cases h
  | some d =>
      simp only [hdigit] at h
      by_cases hd : base ≤ d
      · rw [if_pos hd] at h
        cases h
      · have hlt : d < base := Nat.not_le.mp hd
        rw [if_neg hd] at h
        by_cases hbound : bound < n * base + d
        · rw [if_pos hbound] at h
          cases h
        · rw [if_neg hbound] at h
          exact ⟨d, ⟨hlt, (digit?_eq_some_iff (by omega)).mp hdigit⟩, h⟩

/-- Digits are read one part after the other. -/
theorem readDigits_append (cs ds : List Char) (n : Nat) :
    readDigits base bound spaced n (cs ++ ds) =
      (readDigits base bound spaced n cs).bind (readDigits base bound spaced · ds) := by
  induction cs generalizing n with
  | nil => rfl
  | cons c cs ih =>
      simp only [List.cons_append, readDigits]
      by_cases hc : c = '_' ∧ spaced = true
      · simp only [if_pos hc, ih]
      · simp only [if_neg hc]
        cases digit? c with
        | none => rfl
        | some d =>
            by_cases hd : base ≤ d
            · simp only [if_pos hd, Except.bind]
            · by_cases hbound : bound < n * base + d
              · simp only [if_neg hd, if_pos hbound, Except.bind]
              · simp only [if_neg hd, if_neg hbound, ih]

/-- Digits are read as the number that they write, if it is not too large. -/
theorem Digits.readDigits_eq (hbase : base ≤ 16) (h : Digits base spaced cs n) (hn : n ≤ bound) :
    readDigits base bound spaced 0 cs = .ok n := by
  induction h with
  | first hc =>
      rw [readDigits_digit hbase hc (by omega), Nat.zero_mul, Nat.zero_add]
      rfl
  | @next cs c n d hcs hc ih =>
      have hle : n ≤ n * base := Nat.le_mul_of_pos_right n (Nat.zero_lt_of_lt hc.1)
      rw [readDigits_append, ih (by omega)]
      exact readDigits_digit hbase hc hn []
  | @space cs c n d hspaced hcs hc ih =>
      have hle : n ≤ n * base := Nat.le_mul_of_pos_right n (Nat.zero_lt_of_lt hc.1)
      rw [readDigits_append, ih (by omega), Except.bind, readDigits, if_pos ⟨rfl, hspaced⟩]
      exact readDigits_digit hbase hc hn []

/-- Digits write one number. -/
theorem Digits.unique (hbase : base ≤ 16) (hm : Digits base spaced cs m)
    (hn : Digits base spaced cs n) : m = n := by
  have hread := hm.readDigits_eq hbase (Nat.le_max_left m n)
  rw [hn.readDigits_eq hbase (Nat.le_max_right m n)] at hread
  exact (Except.ok.inj hread).symm

/-- A number that is read is not too large. -/
theorem le_of_readDigits (hn : n ≤ bound) (h : readDigits base bound spaced n cs = .ok m) :
    m ≤ bound := by
  induction cs generalizing n with
  | nil =>
      cases h
      exact hn
  | cons c cs ih =>
      rw [readDigits] at h
      split at h
      · exact ih hn h
      · split at h
        · cases h
        · split at h
          · cases h
          · split at h
            · cases h
            · rename_i hbound
              exact ih (Nat.not_lt.mp hbound) h

/-! ## Underscores -/

/-- A character other than an underscore counts as a digit. -/
theorem underscoresBetween_cons (hc : c ≠ '_') (after : Bool) (cs : List Char) :
    underscoresBetween after (c :: cs) = underscoresBetween true cs := by
  rw [underscoresBetween]
  exact hc

/-- An underscore before a digit is well placed if it stands after one. -/
theorem underscoresBetween_space (hc : c ≠ '_') (after : Bool) (cs : List Char) :
    underscoresBetween after ('_' :: c :: cs) = (after && underscoresBetween true cs) := by
  have hnext : underscoresBetween false (c :: cs) = underscoresBetween true cs :=
    underscoresBetween_cons hc false cs
  rw [← hnext]
  rw [underscoresBetween]
  simp [hc]

/-- An underscore that is well placed stands after a digit and before another character. -/
theorem exists_cons_of_underscoresBetween {after : Bool}
    (h : underscoresBetween after ('_' :: cs) = true) :
    ∃ c ds, cs = c :: ds ∧ c ≠ '_' ∧ after = true ∧ underscoresBetween true ds = true := by
  cases cs with
  | nil =>
      simp [underscoresBetween] at h
  | cons c ds =>
      by_cases hc : c = '_'
      · subst hc
        simp [underscoresBetween] at h
      · rw [underscoresBetween_space hc, Bool.and_eq_true] at h
        exact ⟨c, ds, rfl, hc, h.1, h.2⟩

/-- A text without underscores has none that is misplaced. -/
theorem underscoresBetween_of_not_mem (h : '_' ∉ cs) (after : Bool) :
    underscoresBetween after cs = true := by
  induction cs generalizing after with
  | nil => rfl
  | cons c cs ih =>
      rw [List.mem_cons, not_or] at h
      rw [underscoresBetween_cons (Ne.symm h.1), ih h.2]

/-- Digits have well placed underscores and end with a digit. -/
theorem Digits.underscoresBetween_append (hbase : base ≤ 16) (h : Digits base spaced cs n)
    (after : Bool) (ds : List Char) :
    underscoresBetween after (cs ++ ds) = underscoresBetween true ds := by
  induction h generalizing ds with
  | first hc => exact underscoresBetween_cons (hc.ne_underscore hbase) after ds
  | next hcs hc ih =>
      rw [List.append_assoc, ih]
      exact underscoresBetween_cons (hc.ne_underscore hbase) true ds
  | @space cs c n d hspaced hcs hc ih =>
      have hne := hc.ne_underscore hbase
      rw [List.append_assoc, ih]
      exact underscoresBetween_space hne true ds

/-! ## What is read as digits -/

/-- Digits that were read go on with all that is read after them.  The induction follows the
text that is left; an underscore is taken together with the digit after it. -/
theorem Digits.extend {ds cs : List Char} {n : Nat} (hbase : base ≤ 16)
    (h : Digits base spaced ds n) (hread : readDigits base bound spaced n cs = .ok m)
    (hplaced : spaced = true → underscoresBetween true cs = true) :
    Digits base spaced (ds ++ cs) m := by
  match cs with
  | [] =>
      cases hread
      rw [List.append_nil]
      exact h
  | c :: cs =>
      by_cases hc : c = '_' ∧ spaced = true
      · rcases hc with ⟨rfl, hspaced⟩
        rcases exists_cons_of_underscoresBetween (hplaced hspaced) with
          ⟨e, es, rfl, he, -, hrest⟩
        rw [readDigits, if_pos ⟨rfl, hspaced⟩] at hread
        rcases exists_isDigit_of_readDigits hbase (fun h => he h.1) hread with ⟨d, hd, hread⟩
        have hlong := Digits.extend hbase (.space hspaced h hd) hread fun _ => hrest
        simpa using hlong
      · rcases exists_isDigit_of_readDigits hbase hc hread with ⟨d, hd, hread⟩
        have hrest : spaced = true → underscoresBetween true cs = true := by
          intro hspaced
          have hcons := hplaced hspaced
          rwa [underscoresBetween_cons (hd.ne_underscore hbase)] at hcons
        have hlong := Digits.extend hbase (.next h hd) hread hrest
        simpa using hlong

/-- What is read from its first character on is digits, if this is no underscore. -/
theorem digits_of_readDigits (hbase : base ≤ 16) (hc : ¬ (c = '_' ∧ spaced = true))
    (hread : readDigits base bound spaced 0 (c :: cs) = .ok n)
    (hplaced : spaced = true → underscoresBetween true cs = true) :
    Digits base spaced (c :: cs) n := by
  rcases exists_isDigit_of_readDigits hbase hc hread with ⟨d, hd, hread⟩
  rw [Nat.zero_mul, Nat.zero_add] at hread
  exact Digits.extend hbase (.first hd) hread hplaced

/-! ## Literals -/

/-- The starts of numerals that are not decimal, and the bases that they announce. -/
def starts : List (List Char × Nat) :=
  [(['0'], 8), (['0', 'o'], 8), (['0', 'O'], 8), (['0', 'b'], 2), (['0', 'B'], 2),
    (['0', 'x'], 16), (['0', 'X'], 16)]

/-- A number without a sign in the notation of source code. -/
inductive Literal : List Char → Nat → Prop where
  | zero : Literal ['0'] 0
  | decimal {cs : List Char} {n : Nat} (hcs : Digits 10 true cs n)
      (hhead : cs.head? ≠ some '0') : Literal cs n
  | based {start gap cs : List Char} {base n : Nat} (hstart : (start, base) ∈ starts)
      (hgap : gap = [] ∨ gap = ['_']) (hcs : Digits base true cs n) :
      Literal (start ++ (gap ++ cs)) n

/-- Bases have sixteen digits at most. -/
theorem base_le_of_mem_starts (h : (start, base) ∈ starts) : base ≤ 16 := by
  have hall : ∀ s ∈ starts, s.2 ≤ 16 := by decide
  exact hall _ h

/-- Digits have a first digit. -/
theorem Digits.exists_cons (h : Digits base spaced cs n) :
    ∃ c d ds, cs = c :: ds ∧ IsDigit base c d := by
  induction h with
  | @first c d hc => exact ⟨c, d, [], rfl, hc⟩
  | @next cs c n d hcs hc ih =>
      rcases ih with ⟨e, d', es, rfl, he⟩
      exact ⟨e, d', es ++ [c], rfl, he⟩
  | @space cs c n d hspaced hcs hc ih =>
      rcases ih with ⟨e, d', es, rfl, he⟩
      exact ⟨e, d', es ++ ['_', c], rfl, he⟩

/-- The letters of starts. -/
def startLetters : List Char := ['b', 'B', 'o', 'O', 'x', 'X']

/-- No letter of a start is an octal digit. -/
theorem IsDigit.not_mem_startLetters (hc : IsDigit 8 c d) : c ∉ startLetters := by
  have hall : ∀ e ∈ startLetters, ∀ d < 8, e.toLower ≠ Nat.digitChar d := by
    simp only [startLetters, List.forall_mem_cons, List.not_mem_nil, false_implies, implies_true,
      and_true]
    decide
  exact fun hmem => hall c hmem d hc.1 hc.2

/-- A zero and a letter are a start. -/
theorem exists_base_of_mem_startLetters (hc : c ∈ startLetters) :
    ∃ base, (['0', c], base) ∈ starts := by
  have hall : ∀ c ∈ startLetters, ∃ s ∈ starts, s.1 = ['0', c] := by
    simp [startLetters, starts]
  rcases hall c hc with ⟨s, hs, heq⟩
  exact ⟨s.2, heq ▸ hs⟩

/-- The base of a numeral is the one that its start announces, unless a plain zero is taken for
a longer start. -/
theorem splitBase_start (hstart : (start, base) ∈ starts) (hc : start = ['0'] → c ∉ startLetters)
    (cs : List Char) :
    splitBase (start ++ c :: cs) = (base, c :: cs) ∧
      underscoresPlaced (start ++ c :: cs) = underscoresBetween true (c :: cs) := by
  simp only [starts, List.mem_cons, Prod.mk.injEq, List.not_mem_nil, or_false] at hstart
  rcases hstart with ⟨rfl, rfl⟩ | hstart
  · have hletter := hc rfl
    simp only [startLetters, List.mem_cons, List.not_mem_nil, or_false, not_or] at hletter
    cases cs <;> simp [splitBase, underscoresPlaced, hletter]
  · rcases hstart with ⟨rfl, rfl⟩ | ⟨rfl, rfl⟩ | ⟨rfl, rfl⟩ | ⟨rfl, rfl⟩ | ⟨rfl, rfl⟩ |
      ⟨rfl, rfl⟩ <;> simp [splitBase, underscoresPlaced]

/-- A numeral without a leading zero has its underscores after digits only. -/
theorem underscoresPlaced_of_head?_ne (h : cs.head? ≠ some '0') :
    underscoresPlaced cs = underscoresBetween false cs := by
  unfold underscoresPlaced
  split
  · exact absurd rfl h
  · rfl

/-- Numerals without underscores have none that is misplaced. -/
theorem underscoresPlaced_of_not_mem (h : '_' ∉ cs) : underscoresPlaced cs = true := by
  unfold underscoresPlaced
  split
  · simp only [List.mem_cons, not_or] at h
    split
    · exact underscoresBetween_of_not_mem h.2.2 true
    · exact underscoresBetween_of_not_mem (by simp [h.2]) true
  · exact underscoresBetween_of_not_mem h false

/-- Reading a numeral is reading the digits after its start, with underscores well placed. -/
theorem readUnsigned_eq_ok_iff_digits :
    readUnsigned bound cs = .ok n ↔
      cs ≠ [] ∧ readDigits (splitBase cs).1 bound true 0 (splitBase cs).2 = .ok n ∧
        underscoresPlaced cs = true := by
  unfold readUnsigned
  by_cases hempty : cs = []
  · simp [hempty]
  · simp only [List.isEmpty_iff, hempty, if_false, ne_eq, not_false_eq_true, true_and]
    cases hread : readDigits (splitBase cs).1 bound true 0 (splitBase cs).2 with
    | error fault => simp
    | ok m =>
        simp only [Except.ok.injEq]
        by_cases hplaced : underscoresPlaced cs = true
        · simp [hplaced]
        · have hmem : '_' ∈ cs :=
            Decidable.of_not_not fun hnot => hplaced (underscoresPlaced_of_not_mem hnot)
          simp [hplaced, hmem]

/-- What is read after a start is digits, perhaps after an underscore. -/
theorem literal_after_start (hstart : (start, base) ∈ starts)
    (hletter : start = ['0'] → c ∉ startLetters)
    (h : readUnsigned bound (start ++ c :: cs) = .ok n) : Literal (start ++ c :: cs) n := by
  have hbase := base_le_of_mem_starts hstart
  rcases readUnsigned_eq_ok_iff_digits.mp h with ⟨-, hread, hplaced⟩
  rcases splitBase_start hstart hletter cs with ⟨hsplit, hbetween⟩
  have hdigits : readDigits base bound true 0 (c :: cs) = .ok n := by
    rwa [hsplit] at hread
  rw [hbetween] at hplaced
  by_cases hc : c = '_'
  · subst hc
    rcases exists_cons_of_underscoresBetween hplaced with ⟨d, ds, rfl, hd, -, hrest⟩
    rw [readDigits, if_pos ⟨rfl, rfl⟩] at hdigits
    have hafter := digits_of_readDigits hbase (fun h => hd h.1) hdigits fun _ => hrest
    exact .based hstart (.inr rfl) hafter
  · rw [underscoresBetween_cons hc] at hplaced
    have hafter := digits_of_readDigits hbase (fun h => hc h.1) hdigits fun _ => hplaced
    exact .based hstart (.inl rfl) hafter

/-- What is read without a leading zero is decimal digits. -/
theorem literal_of_head?_ne (hhead : (c :: cs).head? ≠ some '0')
    (h : readUnsigned bound (c :: cs) = .ok n) : Literal (c :: cs) n := by
  rcases readUnsigned_eq_ok_iff_digits.mp h with ⟨-, hread, hplaced⟩
  have hdecimal : readDigits 10 bound true 0 (c :: cs) = .ok n := by
    rwa [splitBase_of_head?_ne hhead] at hread
  rw [underscoresPlaced_of_head?_ne hhead] at hplaced
  have hc : c ≠ '_' := by
    rintro rfl
    rcases exists_cons_of_underscoresBetween hplaced with ⟨-, -, -, -, hafter, -⟩
    cases hafter
  rw [underscoresBetween_cons hc] at hplaced
  have hdigits := digits_of_readDigits (by decide) (fun h => hc h.1) hdecimal fun _ => hplaced
  exact .decimal hdigits hhead

/-- A zero and a letter are no numeral: a start needs a character after it, so that the letter
is tried as an octal digit. -/
theorem not_readUnsigned_letter (hletter : c ∈ startLetters) :
    readUnsigned bound ['0', c] ≠ .ok n := by
  intro h
  have hoctal : readDigits 8 bound true 0 [c] = .ok n := (readUnsigned_eq_ok_iff_digits.mp h).2.1
  have hc : ¬ (c = '_' ∧ true = true) := by
    rintro ⟨rfl, -⟩
    exact absurd hletter (by decide)
  rcases exists_isDigit_of_readDigits (by decide) hc hoctal with ⟨d, hd, -⟩
  exact hd.not_mem_startLetters hletter

/-- Nothing else than literals is read. -/
theorem literal_of_readUnsigned (h : readUnsigned bound cs = .ok n) : Literal cs n := by
  rcases readUnsigned_eq_ok_iff_digits.mp h with ⟨hne, hread, -⟩
  rcases List.exists_cons_of_ne_nil hne with ⟨c, cs, rfl⟩
  by_cases hzero : c = '0'
  · subst hzero
    cases cs with
    | nil =>
        cases hread
        exact .zero
    | cons c cs =>
        by_cases hletter : c ∈ startLetters
        · cases cs with
          | nil => exact absurd h (not_readUnsigned_letter hletter)
          | cons d ds =>
              rcases exists_base_of_mem_startLetters hletter with ⟨base, hstart⟩
              exact literal_after_start hstart (by simp) h
        · have hstart : (['0'], 8) ∈ starts := by decide
          exact literal_after_start hstart (fun _ => hletter) h
  · exact literal_of_head?_ne (by simpa using hzero) h

/-- The numeral that stands after a start has well placed underscores. -/
theorem Digits.underscoresBetween_gap (hbase : base ≤ 16) (h : Digits base true cs n)
    (hgap : gap = [] ∨ gap = ['_']) : underscoresBetween true (gap ++ cs) = true := by
  have hcs (after : Bool) : underscoresBetween after cs = true := by
    have happend := h.underscoresBetween_append hbase after []
    rwa [List.append_nil] at happend
  rcases hgap with rfl | rfl
  · exact hcs true
  · rcases h.exists_cons with ⟨c, d, ds, rfl, hc⟩
    have hne := hc.ne_underscore hbase
    have hds := hcs true
    rw [underscoresBetween_cons hne] at hds
    exact (underscoresBetween_space hne true ds).trans hds

/-- The first character after a start is an underscore or a digit of the base. -/
theorem Digits.exists_first_after_start (h : Digits base true cs n)
    (hstart : (start, base) ∈ starts) (hgap : gap = [] ∨ gap = ['_']) :
    ∃ c rest, gap ++ cs = c :: rest ∧ (start = ['0'] → c ∉ startLetters) := by
  rcases hgap with rfl | rfl
  · rcases h.exists_cons with ⟨c, d, ds, rfl, hc⟩
    refine ⟨c, ds, rfl, fun hplain => ?_⟩
    have hoctal : base = 8 := by
      subst hplain
      simpa [starts] using hstart
    subst hoctal
    exact hc.not_mem_startLetters
  · exact ⟨'_', cs, rfl, fun _ => by decide⟩

/-- Literals are read as their numbers, if these are not too large. -/
theorem Literal.readUnsigned_eq (h : Literal cs n) (hn : n ≤ bound) :
    readUnsigned bound cs = .ok n := by
  rw [readUnsigned_eq_ok_iff_digits]
  cases h with
  | zero => exact ⟨by decide, rfl, by decide⟩
  | decimal hcs hhead =>
      rcases hcs.exists_cons with ⟨c, d, ds, rfl, hc⟩
      have hread : readDigits 10 bound true 0 (c :: ds) = .ok n := hcs.readDigits_eq (by decide) hn
      have hplaced := hcs.underscoresBetween_append (by decide) false []
      rw [List.append_nil] at hplaced
      rw [splitBase_of_head?_ne hhead, underscoresPlaced_of_head?_ne hhead]
      exact ⟨List.cons_ne_nil c ds, hread, hplaced⟩
  | @based start gap cs base n hstart hgap hcs =>
      have hbase := base_le_of_mem_starts hstart
      have hplaced := hcs.underscoresBetween_gap hbase hgap
      have hread : readDigits base bound true 0 (gap ++ cs) = .ok n := by
        have hdigits := hcs.readDigits_eq hbase hn
        rcases hgap with rfl | rfl
        · exact hdigits
        · rw [List.cons_append, readDigits, if_pos ⟨rfl, rfl⟩]
          exact hdigits
      rcases hcs.exists_first_after_start hstart hgap with ⟨c, rest, hrest, hletter⟩
      rcases splitBase_start hstart hletter rest with ⟨hsplit, hbetween⟩
      rw [← hrest] at hsplit hbetween
      refine ⟨?_, ?_, ?_⟩
      · simp [hrest]
      · rw [hsplit]
        exact hread
      · rw [hbetween]
        exact hplaced

/-- Exactly the literals are read whose numbers are not too large. -/
theorem readUnsigned_eq_ok_iff : readUnsigned bound cs = .ok n ↔ Literal cs n ∧ n ≤ bound := by
  constructor
  · intro h
    have hread := (readUnsigned_eq_ok_iff_digits.mp h).2.1
    exact ⟨literal_of_readUnsigned h, le_of_readDigits (Nat.zero_le bound) hread⟩
  · rintro ⟨h, hn⟩
    exact h.readUnsigned_eq hn

/-- A literal has one number. -/
theorem Literal.unique (hm : Literal cs m) (hn : Literal cs n) : m = n := by
  have hread := hm.readUnsigned_eq (Nat.le_max_left m n)
  rw [hn.readUnsigned_eq (Nat.le_max_right m n)] at hread
  exact (Except.ok.inj hread).symm

/-! ## Signs -/

/-- A number in some notation with an optional sign before it. -/
inductive Signed (L : List Char → Nat → Prop) : List Char → Int → Prop where
  | plain {cs : List Char} {n : Nat} (h : L cs n) : Signed L cs n
  | plus {cs : List Char} {n : Nat} (h : L cs n) : Signed L ('+' :: cs) n
  | minus {cs : List Char} {n : Nat} (h : L cs n) : Signed L ('-' :: cs) (-n)

variable {L : List Char → Nat → Prop} {i j : Int}

/-- A notation none of whose texts starts with a sign. -/
def Unsigned (L : List Char → Nat → Prop) : Prop :=
  ∀ cs n, L cs n → splitSign cs = (false, cs)

/-- A digit is no sign. -/
theorem IsDigit.splitSign_eq (hbase : base ≤ 16) (hc : IsDigit base c d) (cs : List Char) :
    splitSign (c :: cs) = (false, c :: cs) := by
  have hdigit := hc.digit?_eq hbase
  unfold splitSign
  split
  · rename_i heq
    rw [(List.cons.inj heq).1] at hdigit
    cases hdigit
  · rename_i heq
    rw [(List.cons.inj heq).1] at hdigit
    cases hdigit
  · rfl

/-- Digits have no sign. -/
theorem unsigned_digits (hbase : base ≤ 16) : Unsigned (Digits base spaced) := by
  intro cs n h
  rcases h.exists_cons with ⟨c, d, ds, rfl, hc⟩
  exact hc.splitSign_eq hbase ds

/-- Literals have no sign. -/
theorem unsigned_literal : Unsigned Literal := by
  intro cs n h
  cases h with
  | zero => rfl
  | decimal hcs hhead => exact unsigned_digits (by decide) cs n hcs
  | @based start gap ds base n hstart hgap hcs =>
      have hall : ∀ s ∈ starts, s.1.head? = some '0' := by decide
      rcases List.head?_eq_some_iff.mp (hall _ hstart) with ⟨rest, hrest⟩
      have hcons : start ++ (gap ++ ds) = '0' :: (rest ++ (gap ++ ds)) := by
        rw [show start = '0' :: rest from hrest, List.cons_append]
      rw [hcons]
      rfl

/-- The sign is split off a number and counts for what is left. -/
theorem Unsigned.signed_iff (hL : Unsigned L) :
    Signed L cs i ↔
      ∃ n, L (splitSign cs).2 n ∧ i = if (splitSign cs).1 then -(n : Int) else n := by
  constructor
  · intro h
    cases h with
    | @plain cs n h =>
        refine ⟨n, ?_⟩
        rw [hL cs n h]
        exact ⟨h, rfl⟩
    | @plus cs n h => exact ⟨n, h, rfl⟩
    | @minus cs n h => exact ⟨n, h, rfl⟩
  · rintro ⟨n, h, rfl⟩
    unfold splitSign at h ⊢
    split at h
    · exact .plus h
    · exact .minus h
    · exact .plain h

/-- A number with a sign has one value if there is one without the sign. -/
theorem Unsigned.signed_unique (hL : Unsigned L) (hunique : ∀ {cs m n}, L cs m → L cs n → m = n)
    (hi : Signed L cs i) (hj : Signed L cs j) : i = j := by
  rcases hL.signed_iff.mp hi with ⟨m, hm, rfl⟩
  rcases hL.signed_iff.mp hj with ⟨n, hn, rfl⟩
  rw [hunique hm hn]

/-- A sign is applied if the result is within the limit. -/
theorem withSign_eq_ok_iff {limit : Nat} {negative : Bool} (hlimit : 0 < limit) :
    withSign limit negative n = .ok i ↔
      i = (if negative then -(n : Int) else n) ∧ -limit ≤ i ∧ i < limit := by
  unfold withSign
  cases negative with
  | true =>
      simp only [if_true]
      by_cases hn : limit < n
      · simp only [if_pos hn, reduceCtorEq, false_iff]
        omega
      · simp only [if_neg hn, Except.ok.injEq]
        omega
  | false =>
      simp only [Bool.false_eq_true, if_false]
      by_cases hn : limit ≤ n
      · simp only [if_pos hn, reduceCtorEq, false_iff]
        omega
      · simp only [if_neg hn, Except.ok.injEq]
        omega

/-- Exactly the literals with a sign are read whose numbers are in the range of the width. -/
theorem readSigned_eq_ok_iff {w : Nat} :
    readSigned w cs = .ok i ↔ Signed Literal cs i ∧ -2 ^ w ≤ 2 * i ∧ 2 * i < 2 ^ w := by
  have hpow : ((2 ^ w : Nat) : Int) = 2 ^ w := Int.natCast_pow 2 w
  have hhalf : (w = 0 ∧ 2 ^ w = 1 ∧ 2 ^ (w - 1) = 1) ∨ 2 ^ w = 2 * 2 ^ (w - 1) := by
    cases w with
    | zero => exact .inl ⟨rfl, rfl, rfl⟩
    | succ w => exact .inr (Nat.pow_succ')
  have hpos : 0 < 2 ^ (w - 1) := Nat.two_pow_pos (w - 1)
  have hread : readSigned w cs = .ok i ↔
      ∃ n, readUnsigned (2 ^ w - 1) (splitSign cs).2 = .ok n ∧
        withSign (2 ^ (w - 1)) (splitSign cs).1 n = .ok i := by
    unfold readSigned
    cases readUnsigned (2 ^ w - 1) (splitSign cs).2 with
    | error fault => simp
    | ok n => simp
  rw [hread, unsigned_literal.signed_iff]
  constructor
  · rintro ⟨n, hn, hsign⟩
    rcases readUnsigned_eq_ok_iff.mp hn with ⟨hliteral, hbound⟩
    rcases (withSign_eq_ok_iff hpos).mp hsign with ⟨hi, hlo, hhi⟩
    refine ⟨⟨n, hliteral, hi⟩, ?_⟩
    split at hi <;> omega
  · rintro ⟨⟨n, hliteral, hi⟩, hlo, hhi⟩
    have hbound : n ≤ 2 ^ w - 1 := by
      split at hi <;> omega
    refine ⟨n, readUnsigned_eq_ok_iff.mpr ⟨hliteral, hbound⟩, (withSign_eq_ok_iff hpos).mpr ?_⟩
    refine ⟨hi, ?_⟩
    omega

/-- Exactly the decimal numbers with a sign are read that have 64 bits. -/
theorem readDecimal_eq_ok_iff :
    readDecimal cs = .ok i ↔ Signed (Digits 10 false) cs i ∧ -2 ^ 63 ≤ i ∧ i < 2 ^ 63 := by
  have hread : readDecimal cs = .ok i ↔
      ∃ n, (splitSign cs).2 ≠ [] ∧ readDigits 10 (2 ^ 64 - 1) false 0 (splitSign cs).2 = .ok n ∧
        withSign (2 ^ 63) (splitSign cs).1 n = .ok i := by
    unfold readDecimal
    by_cases hempty : (splitSign cs).2 = []
    · simp [hempty]
    · simp only [List.isEmpty_iff, hempty, if_false]
      cases hdigits : readDigits 10 (Nat.pow 2 64 - 1) false 0 (splitSign cs).2 with
      | error fault => simp_all
      | ok n => simp_all
  rw [hread, (unsigned_digits (by decide)).signed_iff]
  constructor
  · rintro ⟨n, hne, hdigits, hsign⟩
    rcases (withSign_eq_ok_iff (by decide)).mp hsign with ⟨hi, hlo, hhi⟩
    rcases List.exists_cons_of_ne_nil hne with ⟨c, ds, hcons⟩
    rw [hcons] at hdigits ⊢
    have hform := digits_of_readDigits (by decide) (by simp) hdigits (by simp)
    exact ⟨⟨n, hform, hi⟩, hlo, hhi⟩
  · rintro ⟨⟨n, hform, hi⟩, hlo, hhi⟩
    have hbound : n ≤ 2 ^ 64 - 1 := by
      split at hi <;> omega
    rcases hform.exists_cons with ⟨c, d, ds, hcons, -⟩
    refine ⟨n, ?_, hform.readDigits_eq (by decide) hbound, ?_⟩
    · rw [hcons]
      exact List.cons_ne_nil c ds
    · exact (withSign_eq_ok_iff (by decide)).mpr ⟨hi, hlo, hhi⟩

/-! ## Characters -/

/-- The characters of numerals, in lower case. -/
def alphabet : List Char := "+-_0123456789abcdefox".toList

/-- Digits have no other characters than digits and underscores. -/
theorem Digits.isDigit_of_mem (h : Digits base spaced cs n) (hc : c ∈ cs) :
    c = '_' ∨ ∃ d, IsDigit base c d := by
  induction h with
  | @first e d he =>
      rw [List.mem_singleton.mp hc]
      exact .inr ⟨d, he⟩
  | @next cs e n d hcs he ih =>
      rcases List.mem_append.mp hc with hc | hc
      · exact ih hc
      · rw [List.mem_singleton.mp hc]
        exact .inr ⟨d, he⟩
  | @space cs e n d hspaced hcs he ih =>
      rcases List.mem_append.mp hc with hc | hc
      · exact ih hc
      · rcases List.mem_cons.mp hc with hc | hc
        · exact .inl hc
        · rw [List.mem_singleton.mp hc]
          exact .inr ⟨d, he⟩

/-- Digits have no other characters than those of numerals. -/
theorem Digits.mem_alphabet (hbase : base ≤ 16) (h : Digits base spaced cs n) (hc : c ∈ cs) :
    c.toLower ∈ alphabet := by
  have hall : ∀ d < 16, Nat.digitChar d ∈ alphabet := by decide
  rcases h.isDigit_of_mem hc with rfl | ⟨d, hd⟩
  · decide
  · rw [hd.2]
    exact hall d (Nat.lt_of_lt_of_le hd.1 hbase)

/-- Literals have no other characters than those of numerals. -/
theorem Literal.mem_alphabet (h : Literal cs n) (hc : c ∈ cs) : c.toLower ∈ alphabet := by
  cases h with
  | zero =>
      rw [List.mem_singleton.mp hc]
      decide
  | decimal hcs hhead => exact hcs.mem_alphabet (by decide) hc
  | @based start gap cs base n hstart hgap hcs =>
      have hall : ∀ s ∈ starts, ∀ c ∈ s.1, c.toLower ∈ alphabet := by
        simp only [starts, List.forall_mem_cons, List.not_mem_nil, false_implies, implies_true,
          and_true]
        decide
      rcases List.mem_append.mp hc with hc | hc
      · exact hall _ hstart c hc
      · rcases List.mem_append.mp hc with hc | hc
        · rcases hgap with rfl | rfl
          · cases hc
          · rw [List.mem_singleton.mp hc]
            decide
        · exact hcs.mem_alphabet (base_le_of_mem_starts hstart) hc

/-- Literals with a sign have no other characters than those of numerals. -/
theorem Signed.mem_alphabet (h : Signed Literal cs i) (hc : c ∈ cs) : c.toLower ∈ alphabet := by
  cases h with
  | plain h => exact h.mem_alphabet hc
  | plus h =>
      rcases List.mem_cons.mp hc with rfl | hc
      · decide
      · exact h.mem_alphabet hc
  | minus h =>
      rcases List.mem_cons.mp hc with rfl | hc
      · decide
      · exact h.mem_alphabet hc

end Numeral
end WordRanges
