import WordRanges.Source.Position
import WordRanges.Source.Token
import WordRanges.Text.Letter
import WordRanges.Text.Numeral

/-!
# Lexemes of Go source

The text of a file is a sequence of lexemes: tokens with their place and their text.  The
end of a line stands for a semicolon after a token that can end a statement.  Comments are
lexemes too; those of the form {lit}`//line file:line` are also marks for positions.

Main definitions:

- {lit}`Lexeme`: a token at its place.
- {lit}`Scan`: the state of reading a file.
- {lit}`lex?`: the lexemes and marks of a file; nothing if some text is no lexeme.
-/

namespace WordRanges
namespace Source

/-- A token at its place.  The text of a comment is without carriage returns, and that of a
semicolon tells whether it was written. -/
structure Lexeme where
  token : Token
  pos : Nat
  text : String
deriving DecidableEq, Repr

/-- Where a lexeme ends. -/
def Lexeme.stop (l : Lexeme) : Nat :=
  l.pos + l.text.utf8ByteSize

/-- The part of the source that a lexeme is. -/
def Lexeme.span (l : Lexeme) : Span :=
  ⟨l.pos, l.stop⟩

/-- The text of a literal; that of a raw one is without carriage returns. -/
def Lexeme.literal (l : Lexeme) : String :=
  if l.text.toList.head? = some '\x60' then String.ofList (l.text.toList.filter (· != '\r'))
  else l.text

/-- The number of bytes of a text. -/
def byteSize (cs : List Char) : Nat :=
  cs.foldl (fun size c => size + c.utf8Size) 0

/-! ## Names and numbers -/

/-- A character that can start a name. -/
def isNameStart (c : Char) : Bool :=
  c == '_' || Text.isLetter c

/-- A character that can stand in a name. -/
def isNamePart (c : Char) : Bool :=
  isNameStart c || Text.isDigit c

/-- A decimal digit. -/
def isDecimal (c : Char) : Bool :=
  '0' ≤ c && c ≤ '9'

/-- A digit of hexadecimal numbers. -/
def isHex (c : Char) : Bool :=
  match Numeral.digit? c with
  | some d => d < 16
  | none => false

/-- The notations of numbers. -/
inductive Radix where
  | decimal
  /-- A plain leading zero. -/
  | leadingZero
  | octal
  | binary
  | hex
deriving DecidableEq, Repr

/-- A digit or an underscore in a number; wrong decimal digits are refused later. -/
def Radix.isDigit (r : Radix) (c : Char) : Bool :=
  c == '_' || (if r = .hex then isHex c else isDecimal c)

/-- Digits and underscores are the right ones for the notation. -/
def Radix.digitsFit (r : Radix) (digits : List Char) : Bool :=
  let base := match r with
    | .decimal => 10
    | .leadingZero | .octal => 8
    | .binary => 2
    | .hex => 16
  digits.all fun c =>
    match Numeral.digit? c with
    | some d => d < base
    | none => c == '_'

/-- The notation that the start of a number announces, its mark, and the text after that. -/
def Radix.ofStart : List Char → Radix × List Char × List Char
  | '0' :: c :: cs =>
    if c = 'x' ∨ c = 'X' then (.hex, ['0', c], cs)
    else if c = 'o' ∨ c = 'O' then (.octal, ['0', c], cs)
    else if c = 'b' ∨ c = 'B' then (.binary, ['0', c], cs)
    else (.leadingZero, ['0'], c :: cs)
  | '0' :: [] => (.leadingZero, ['0'], [])
  | cs => (.decimal, [], cs)

/-- The kind of character that came before, for the rule on underscores. -/
inductive Before where
  | digit
  | underscore
  | other
deriving DecidableEq

/-- Underscores stand between digits only. -/
def underscoresFit (hex : Bool) (before : Before) : List Char → Bool
  | [] => before != .underscore
  | c :: cs =>
    if c = '_' then before == .digit && underscoresFit hex .underscore cs
    else if isDecimal c || (hex && isHex c) then underscoresFit hex .digit cs
    else before != .underscore && underscoresFit hex .other cs

/-- Some character is a digit, not only an underscore. -/
def hasDigit (cs : List Char) : Bool :=
  cs.any (· != '_')

/-- A number at the start of a text: its token, its text, and the text after it. -/
def takeNumber? (cs : List Char) : Option (Token × List Char × List Char) := do
  let (radix, mark, rest) := Radix.ofStart cs
  let whole := rest.takeWhile radix.isDigit
  let rest := rest.dropWhile radix.isDigit
  let isPoint := rest.head? == some '.'
  let fraction := if isPoint then (rest.drop 1).takeWhile radix.isDigit else []
  let rest := if isPoint then (rest.drop 1).dropWhile radix.isDigit else rest
  if isPoint && (radix == .octal || radix == .binary) then none
  if !(hasDigit (whole ++ fraction) || radix == .leadingZero) then none
  let point := if isPoint then ['.'] else []
  let body := mark ++ whole ++ point ++ fraction
  let letter := (rest.headD ' ').toLower
  let (isFloat, body, rest) ←
    if letter = 'e' ∨ letter = 'p' then
      let decimal := radix == .decimal || radix == .leadingZero
      if (letter == 'e' && !decimal) || (letter == 'p' && radix != .hex) then none
      else
        let after := rest.drop 1
        let sign := after.takeWhile fun c => c == '+' || c == '-'
        let sign := sign.take 1
        let digits := (after.drop sign.length).takeWhile (Radix.decimal.isDigit)
        if hasDigit digits then
          some (true, body ++ rest.take 1 ++ sign ++ digits,
            (after.drop sign.length).drop digits.length)
        else none
    else if radix == .hex && isPoint then none
    else some (isPoint, body, rest)
  let (token, text, rest) :=
    if rest.head? = some 'i' then (Token.imag, body ++ ['i'], rest.drop 1)
    else (if isFloat then Token.float else Token.int, body, rest)
  if token == .int && !radix.digitsFit whole then none
  let digits := if radix == .hex || radix == .octal || radix == .binary then text.drop 2 else text
  let start := if radix == .hex || radix == .octal || radix == .binary then Before.digit else .other
  if text.contains '_' && !underscoresFit (radix == .hex) start digits then none
  return (token, text, rest)

/-! ## Text between quotes -/

/-- The number of characters of an escape after the backslash. -/
def escapeLength? (quote : Char) : List Char → Option Nat
  | [] => none
  | c :: cs =>
    let number (digits : List Char) (count base limit : Nat) (before : Nat) : Option Nat :=
      let ds := digits.take count
      let value := ds.foldlM (fun n d => do
        let v ← Numeral.digit? d
        if v < base then some (n * base + v) else none) 0
      match value with
      | some n =>
        if ds.length = count && n ≤ limit && !(0xd800 ≤ n && n < 0xe000) then
          some (before + count)
        else none
      | none => none
    if c ∈ ['a', 'b', 'f', 'n', 'r', 't', 'v', '\\'] ∨ c = quote then some 1
    else if '0' ≤ c ∧ c ≤ '7' then number (c :: cs) 3 8 255 0
    else if c = 'x' then number cs 2 16 255 1
    else if c = 'u' then number cs 4 16 0x10ffff 1
    else if c = 'U' then number cs 8 16 0x10ffff 1
    else none

/-- The number of characters up to and with the closing quote, and how many characters
stand before that, escapes counted as one. -/
def quotedLength? (quote : Char) : Nat → List Char → Option (Nat × Nat)
  | 0, _ => none
  | _ + 1, [] => none
  | fuel + 1, c :: cs =>
    if c = '\n' then none
    else if c = quote then some (1, 0)
    else if c = '\\' then do
      let n ← escapeLength? quote cs
      let (length, count) ← quotedLength? quote fuel (cs.drop n)
      return (length + n + 1, count + 1)
    else do
      let (length, count) ← quotedLength? quote fuel cs
      return (length + 1, count + 1)

/-- The number of characters of a literal in double quotes after the first one. -/
def stringLength? (cs : List Char) : Option Nat :=
  (quotedLength? '"' (cs.length + 1) cs).map (·.1)

/-- The number of characters of a literal in single quotes after the first one; it holds
just one character. -/
def runeLength? (cs : List Char) : Option Nat :=
  match quotedLength? '\x27' (cs.length + 1) cs with
  | some (length, 1) => some length
  | _ => none

/-- The number of characters of a raw literal after its first quote. -/
def rawLength? (cs : List Char) : Option Nat :=
  let body := cs.takeWhile (· != '\x60')
  if body.length < cs.length then some (body.length + 1) else none

/-! ## Comments -/

/-- The length of a comment between slashes and stars after its first two characters. -/
def blockLength? : List Char → Option Nat
  | [] => none
  | ['*'] => none
  | '*' :: '/' :: _ => some 2
  | _ :: cs => (blockLength? cs).map (· + 1)

/-- Leave out carriage returns.  In a comment that ends with a star and a slash, one between
these two stays, lest the comment end early. -/
def stripReturns (block : Bool) (before : List Char) : List Char → List Char
  | [] => before.reverse
  | c :: cs =>
    if c = '\r' ∧ ¬(block ∧ 2 < before.length ∧ before.head? = some '*' ∧ cs.head? = some '/') then
      stripReturns block before cs
    else stripReturns block (c :: before) cs

/-- The number after the last colon of a text, if there are only digits, and the text
before that colon.  There is nothing without a colon. -/
def lastNumber? (cs : List Char) : Option (List Char × Option Nat) :=
  if cs.contains ':' then
    let digits := (cs.reverse.takeWhile (· != ':')).reverse
    let number := if digits.isEmpty || !digits.all isDecimal then none
      else some (digits.foldl (fun n c => n * 10 + (c.toNat - 48)) 0)
    some (cs.take (cs.length - digits.length - 1), number)
  else none

/-- The largest line and column that a mark can declare. -/
def maxLineColumn : Nat := Nat.pow 2 30

/-- A number that is a line or a column. -/
def isLineColumn (n : Nat) : Bool :=
  0 < n && n ≤ maxLineColumn

/-- The mark that the text after the word {lit}`line` declares: nothing if it is none, and a
failure if its numbers are wrong. -/
def markOf (file current : String) (offset : Nat) (cs : List Char) : Option (Option LineMark) :=
  match lastNumber? cs with
  | none => some none
  | some (_, none) => none
  | some (rest, some n) =>
    let place (name : List Char) (hasColumn : Bool) (line column : Nat) :
        Option (Option LineMark) :=
      let name := String.ofList name
      let shown :=
        if name = "" then (if hasColumn then current else "")
        else
          let clean := Text.cleanPath name
          if clean.toList.head? = some '/' then clean
          else Text.joinPath (Text.directoryOf file) clean
      some (some ⟨offset, shown, line, column⟩)
    match lastNumber? rest with
    | some (name, some line) =>
      if isLineColumn n && isLineColumn line then place name true line n else none
    | _ => if isLineColumn n then place rest false n 0 else none

/-! ## Reading a file -/

/-- The state of reading a file. -/
structure Scan where
  rest : List Char
  offset : Nat
  /-- The end of the line stands for a semicolon. -/
  pending : Bool
  /-- The offset where the line starts. -/
  lineStart : Nat
  /-- The lexemes so far, the last one first, at offsets within the file. -/
  lexemes : List Lexeme
  /-- The marks so far, the last one first. -/
  marks : List LineMark

namespace Scan

/-- A token after which the end of the line stands for a semicolon. -/
def endsStatement : Token → Bool
  | .ident | .int | .float | .imag | .char | .string => true
  | .kwBreak | .kwContinue | .kwFallthrough | .kwReturn => true
  | .inc | .dec | .rparen | .rbrack | .rbrace => true
  | _ => false

/-- Pass over characters. -/
def skip (s : Scan) (cs : List Char) : Scan :=
  let newlines := cs.reverse.dropWhile (· != '\n')
  let lineStart :=
    if newlines.isEmpty then s.lineStart else s.offset + byteSize newlines
  { s with rest := s.rest.drop cs.length, offset := s.offset + byteSize cs, lineStart }

/-- Add a token whose text comes next. -/
def emit (s : Scan) (token : Token) (text : List Char) : Scan :=
  let s' := s.skip text
  { s' with
    lexemes := ⟨token, s.offset, String.ofList text⟩ :: s.lexemes
    pending := endsStatement token }

/-- Add the semicolon that the end of a line at an offset stands for. -/
def emitNewline (s : Scan) (offset : Nat) : Scan :=
  { s with lexemes := ⟨.semicolon, offset, "\n"⟩ :: s.lexemes, pending := false }

/-- Add a mark; it must lie behind the others and within the file. -/
def addMark (s : Scan) (size : Nat) (m : LineMark) : Scan :=
  if (s.marks.all fun other => other.offset < m.offset) && m.offset < size then
    { s with marks := m :: s.marks }
  else s

/-- The file that the marks declare at an offset. -/
def currentFile (s : Scan) (file : String) : String :=
  match s.marks with
  | m :: _ => m.file
  | [] => file

/-- The mark that a comment declares: one after two slashes has to start its line, and takes
effect on the next line. -/
def markComment (s : Scan) (file : String) (size : Nat) (block : Bool) (text : List Char) :
    Option Scan :=
  let body := text.drop 2
  if (block || s.offset == s.lineStart) && ['l', 'i', 'n', 'e', ' '].isPrefixOf body then
    let body := body.drop 5
    let body := if block then body.take (body.length - 2) else Text.dropFinal '\r' body
    let effect := s.offset + byteSize text + (if block then 0 else 1)
    match markOf file (s.currentFile file) effect body with
    | none => none
    | some none => some s
    | some (some m) => some (s.addMark size m)
  else some s

/-- Add a comment.  One that holds the end of a line stands for it as well. -/
def comment (s : Scan) (file : String) (size : Nat) (block : Bool) (text : List Char) :
    Option Scan := do
  let marked ← s.markComment file size block text
  let lexeme : Lexeme := ⟨.comment, s.offset, String.ofList (stripReturns block [] text)⟩
  let after := { marked.skip text with lexemes := lexeme :: s.lexemes }
  let upToNewline := text.takeWhile (· != '\n')
  if s.pending && upToNewline.length < text.length then
    return after.emitNewline (s.offset + byteSize upToNewline)
  else
    return after

/-- The longest operator at the start of a text. -/
def operator? (cs : List Char) : Option Token :=
  let found := Token.operators.filter fun t => t.text.toList.isPrefixOf cs
  found.foldl (fun best t =>
    match best with
    | some b => if b.text.length < t.text.length then some t else best
    | none => some t) none

/-- Read one lexeme or blank. -/
def step (file : String) (size : Nat) (s : Scan) : Option Scan :=
  match s.rest with
  | [] => some s
  | '\n' :: _ =>
    let after := s.skip ['\n']
    some (if s.pending then after.emitNewline s.offset else after)
  | '/' :: '/' :: cs => s.comment file size false ('/' :: '/' :: cs.takeWhile (· != '\n'))
  | '/' :: '*' :: cs => do
    let n ← blockLength? cs
    s.comment file size true ('/' :: '*' :: cs.take n)
  | '"' :: cs => do return s.emit .string ('"' :: cs.take (← stringLength? cs))
  | '\x27' :: cs => do return s.emit .char ('\x27' :: cs.take (← runeLength? cs))
  | '\x60' :: cs => do return s.emit .string ('\x60' :: cs.take (← rawLength? cs))
  | c :: cs =>
    if c = ' ' ∨ c = '\t' ∨ c = '\r' then some (s.skip [c])
    else if isNameStart c then
      let name := c :: cs.takeWhile isNamePart
      some (s.emit ((Token.keyword? (String.ofList name)).getD .ident) name)
    else if isDecimal c || (c == '.' && (cs.head?.map isDecimal).getD false) then do
      let (token, text, _) ← takeNumber? (c :: cs)
      return s.emit token text
    else do
      let token ← operator? (c :: cs)
      return s.emit token token.text.toList

/-- Read up to the end of the file, where a semicolon may be due. -/
def run (file : String) (size : Nat) : Nat → Scan → Option Scan
  | 0, s => some s
  | fuel + 1, s =>
    match s.rest with
    | [] => some (if s.pending then s.emitNewline s.offset else s)
    | _ => (s.step file size).bind (run file size fuel)

end Scan

/-- The mark that may stand at the start of a file to tell its encoding. -/
def byteOrderMark : Char := '\uFEFF'

/-- The lexemes of a file, with positions counted from a base, and its marks.  There are
none if some text is no lexeme. -/
def lex? (file : String) (base : Nat) (text : String) : Option (List Lexeme × List LineMark) := do
  let cs := text.toList
  let size := text.utf8ByteSize
  let marked := cs.head? == some byteOrderMark
  let body := if marked then cs.drop 1 else cs
  if body.any fun c => c == byteOrderMark || c == '\x00' then none
  let offset := size - byteSize body
  let start : Scan := ⟨body, offset, false, 0, [], []⟩
  let done ← start.run file size (cs.length + 1)
  let lexemes := done.lexemes.reverse.map fun l => { l with pos := l.pos + base }
  return (lexemes ++ [⟨.eof, base + size, ""⟩], done.marks.reverse)

end Source
end WordRanges
