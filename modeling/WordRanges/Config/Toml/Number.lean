import WordRanges.Text.Numeral

/-!
# Numbers and dates in a configuration document

A value that starts with a digit or a sign is an integer, a float or a date; which of them
is told by the characters that follow.  The run of characters is taken first and checked
afterwards.

Main definitions:

- {lit}`Toml.Lexeme`, {lit}`Toml.takeNumber?`: the run of characters and its kind.
- {lit}`Toml.readInteger?`, {lit}`Toml.isFloat`, {lit}`Toml.isDatetime`: the checks.
-/

namespace WordRanges
namespace Toml

/-- The kinds of values made of digits. -/
inductive Lexeme where
  | integer
  | float
  | datetime
deriving DecidableEq, Repr

/-- A run of characters of one kind, and the text after it. -/
structure Run where
  kind : Lexeme
  text : List Char
  rest : List Char

/-- A decimal digit. -/
def isDecimal (c : Char) : Bool :=
  '0' ≤ c && c ≤ '9'

/-- A digit of hexadecimal numerals. -/
def isHexadecimal (c : Char) : Bool :=
  match Numeral.digit? c with
  | some d => d < 16
  | none => false

/-- Take a run: {lit}`done` is its beginning. -/
def takeRun (kind : Lexeme) (more : Char → Bool) (done cs : List Char) : Run :=
  ⟨kind, done ++ cs.takeWhile more, cs.dropWhile more⟩

/-- A character that may stand in a float. -/
def isFloatChar (c : Char) : Bool :=
  isDecimal c || c ∈ ['_', '.', '-', '+', 'e', 'E']

/-- A character that may stand in a date. -/
def isDateChar (c : Char) : Bool :=
  isDecimal c || c ∈ ['-', ':', 'T', 't', ' ', '.', 'Z', 'z', '+']

/-- Continue with the digits of a decimal number, which may turn out to be a float. -/
def takeDecimal (done cs : List Char) : Run :=
  let run := takeRun .integer (fun c => isDecimal c || c == '_') done cs
  match run.rest with
  | c :: rest =>
    if c ∈ ['.', 'e', 'E'] then takeRun .float isFloatChar (run.text ++ [c]) rest else run
  | [] => run

/-- Continue with the digits of a number or of a date. -/
def takeNumberOrDate (done cs : List Char) : Run :=
  let run := takeRun .integer isDecimal done cs
  match run.rest with
  | c :: rest =>
    if c ∈ ['-', ':'] then takeRun .datetime isDateChar (run.text ++ [c]) rest
    else if c = '_' then takeDecimal (run.text ++ [c]) rest
    else if c ∈ ['.', 'e', 'E'] then takeRun .float isFloatChar (run.text ++ [c]) rest
    else run
  | [] => run

/-- A digit of a base, or an underscore. -/
def isBaseDigit (base : Nat) (c : Char) : Bool :=
  match Numeral.digit? c with
  | some d => d < base
  | none => c == '_'

/-- The base that a letter after a leading zero announces. -/
def base? (c : Char) : Option Nat :=
  if c = 'b' then some 2 else if c = 'o' then some 8 else if c = 'x' then some 16 else none

/-- Take the number or date at the start of a text that starts with a digit. -/
def takeNumber? : List Char → Option Run
  | '0' :: c :: cs =>
    match base? c with
    | some base =>
      match cs with
      | d :: _ =>
        if d != '_' && isBaseDigit base d then
          some (takeRun .integer (isBaseDigit base) ['0', c] cs)
        else none
      | [] => none
    | none => some (
      if isDecimal c then takeNumberOrDate ['0', c] cs
      else if c = '_' then takeDecimal ['0', c] cs
      else if c ∈ ['.', 'e', 'E'] then takeRun .float isFloatChar ['0', c] cs
      else ⟨.integer, ['0'], c :: cs⟩)
  | cs => some (takeNumberOrDate [] cs)

/-- Take the number after a sign, which is decimal. -/
def takeSigned? (sign : Char) : List Char → Option Run
  | '0' :: c :: cs =>
    if (base? c).isSome then none else some (takeDecimal [sign, '0'] (c :: cs))
  | c :: cs => if isDecimal c then some (takeDecimal [sign, c] cs) else none
  | [] => none

/-- Each underscore follows a digit, and a digit comes last; {lit}`digit` tells whether a
digit came before. -/
def underscoresPlaced (digit : Bool) : List Char → Bool
  | [] => digit
  | '_' :: cs => digit && underscoresPlaced false cs
  | c :: cs => underscoresPlaced (isHexadecimal c) cs

/-- A number starts with a zero that stands for nothing. -/
def hasLeadingZero : List Char → Bool
  | '0' :: c :: _ => isDecimal c
  | '-' :: '0' :: _ :: _ => true
  | '+' :: '0' :: _ :: _ => true
  | _ => false

/-- The integer that a run of digits writes; integers have 64 bits. -/
def readInteger? (cs : List Char) : Option Int :=
  if !underscoresPlaced false cs || hasLeadingZero cs then none
  else (Numeral.readSigned 64 cs).toOption

/-- The parts of a float between the point and the mark of the exponent, without empty
ones; {lit}`part` is the part being read, reversed. -/
def floatParts (part : List Char) : List Char → List (List Char)
  | [] => if part.isEmpty then [] else [part.reverse]
  | c :: cs =>
    if c ∈ ['.', 'e', 'E'] then
      if part.isEmpty then floatParts [] cs else part.reverse :: floatParts [] cs
    else floatParts (c :: part) cs

/-- Every point is followed by a digit. -/
def pointsPlaced : List Char → Bool
  | [] => true
  | '.' :: c :: cs => isDecimal c && pointsPlaced (c :: cs)
  | ['.'] => false
  | _ :: cs => pointsPlaced cs

/-- The number that decimal digits write. -/
def decimal (cs : List Char) : Nat :=
  cs.foldl (fun n c => n * 10 + (c.toNat - 48)) 0

/-- The least number that is too large for a float of 64 bits. -/
def floatLimit : Nat := Nat.pow 2 1024 - Nat.pow 2 970

/-- The number {lit}`m * 10 ^ e` is small enough for a float of 64 bits.  Only numbers
near the limit are worked out. -/
def floatFits (m : Nat) (e : Int) : Bool :=
  if m = 0 then true
  else
    let size := (Nat.toDigits 10 m).length + e
    if size < 308 then true
    else if 310 < size then false
    else if 0 ≤ e then m * Nat.pow 10 e.toNat < floatLimit
    else m < floatLimit * Nat.pow 10 (-e).toNat

/-- The text after a sign. -/
def dropSign : List Char → List Char
  | '+' :: cs => cs
  | '-' :: cs => cs
  | cs => cs

/-- The digits, the fraction and the exponent of a plain decimal float have the right
form, and the number is not too large. -/
def isDecimalFloat (cs : List Char) : Bool :=
  let cs := dropSign cs
  let whole := cs.takeWhile isDecimal
  let cs := cs.dropWhile isDecimal
  let (fraction, cs) :=
    match cs with
    | '.' :: cs => (cs.takeWhile isDecimal, cs.dropWhile isDecimal)
    | cs => ([], cs)
  let digits := whole ++ fraction
  if digits.isEmpty then false
  else
    match cs with
    | [] => floatFits (decimal digits) (-fraction.length)
    | c :: cs =>
      let exponent := dropSign cs
      if !(c == 'e' || c == 'E') || exponent.isEmpty || !exponent.all isDecimal then false
      else
        -- An exponent of many digits decides by its sign alone.
        let size : Nat :=
          if 9 < (exponent.dropWhile (· == '0')).length then Nat.pow 10 9 else decimal exponent
        let e : Int := if cs.head? = some '-' then -size else size
        floatFits (decimal digits) (e - fraction.length)

/-- A run of characters is a float. -/
def isFloat (cs : List Char) : Bool :=
  let parts := floatParts [] cs
  parts.all (underscoresPlaced false)
    && !(parts.head?.map hasLeadingZero).getD false
    && pointsPlaced cs
    && isDecimalFloat (cs.filter (· != '_'))

/-- The number that the first {lit}`n` characters write, and the text after them. -/
def takeDigits? (n : Nat) (cs : List Char) : Option (Nat × List Char) :=
  let digits := cs.take n
  if digits.length = n && digits.all isDecimal then some (decimal digits, cs.drop n) else none

/-- The text after a given character. -/
def after? (c : Char) : List Char → Option (List Char)
  | d :: cs => if c = d then some cs else none
  | [] => none

/-- The number of days of a month. -/
def daysIn (year month : Nat) : Nat :=
  if month = 2 then
    if year % 4 = 0 ∧ (year % 100 ≠ 0 ∨ year % 400 = 0) then 29 else 28
  else if month ∈ [4, 6, 9, 11] then 30 else 31

/-- The text after a date. -/
def afterDate? (cs : List Char) : Option (List Char) := do
  let (year, cs) ← takeDigits? 4 cs
  let (month, cs) ← takeDigits? 2 (← after? '-' cs)
  let (day, cs) ← takeDigits? 2 (← after? '-' cs)
  if 1 ≤ month && month ≤ 12 && 1 ≤ day && day ≤ daysIn year month then some cs else none

/-- The hour at the start of a text, which may have a single digit, and the text after it. -/
def takeHour? (cs : List Char) : Option (Nat × List Char) :=
  (takeDigits? 2 cs).orElse fun _ => takeDigits? 1 cs

/-- The text after a time of day, whose seconds may have a fraction. -/
def afterTime? (cs : List Char) : Option (List Char) := do
  let (hour, cs) ← takeHour? cs
  let (minute, cs) ← takeDigits? 2 (← after? ':' cs)
  let (second, cs) ← takeDigits? 2 (← after? ':' cs)
  if hour < 24 && minute < 60 && second < 60 then
    match cs with
    | '.' :: d :: rest => if isDecimal d then some (rest.dropWhile isDecimal) else some cs
    | _ => some cs
  else none

/-- A distance from universal time, which may be written with 24 hours or 60 minutes. -/
def isZone : List Char → Bool
  | ['Z'] => true
  | c :: cs =>
    (c == '+' || c == '-') && ((do
      let (hour, cs) ← takeDigits? 2 cs
      let (minute, cs) ← takeDigits? 2 (← after? ':' cs)
      return decide (hour ≤ 24) && decide (minute ≤ 60) && cs.isEmpty) : Option Bool).getD false
  | [] => false

/-- A run of characters is a date, a time of day, or both with an optional zone.  The two
may be separated by a blank. -/
def isDatetime (cs : List Char) : Bool :=
  let blank (c : Char) : Bool := c == ' '
  let cs := (cs.dropWhile blank).reverse.dropWhile blank |>.reverse
  let cs := cs.map fun c => if c = 'z' then 'Z' else if c = 't' ∨ c = ' ' then 'T' else c
  match afterDate? cs with
  | some [] => true
  | some ('T' :: cs) =>
    match afterTime? cs with
    | some cs => cs.isEmpty || isZone cs
    | none => false
  | some _ => false
  | none =>
    match afterTime? cs with
    | some cs => cs.isEmpty
    | none => false

end Toml
end WordRanges
