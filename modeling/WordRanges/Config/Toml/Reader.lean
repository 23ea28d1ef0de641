import WordRanges.Config.Toml.Number
import WordRanges.Config.Toml.Table
import WordRanges.Text.Letter

/-!
# Reading configuration documents

Configuration files are written in TOML.  Reading one gives its table, or nothing if the
text is no such document.

Main definitions:

- {lit}`Toml.value?`: the value of a name.
- {lit}`Toml.read?`: the table that a text describes.
-/

namespace WordRanges
namespace Toml

/-! ## Characters -/

/-- A blank within a line. -/
def isSpace (c : Char) : Bool :=
  c == ' ' || c == '\t'

/-- The end of a line. -/
def isNewline (c : Char) : Bool :=
  c == '\n' || c == '\r'

/-- A control character other than tabs and ends of lines. -/
def isControl (c : Char) : Bool :=
  (c.toNat < 0x20 || c.toNat == 0x7f) && !isNewline c && c != '\t'

/-- A character of a bare name. -/
def isBare (c : Char) : Bool :=
  c.isAlphanum || c == '_' || c == '-'

/-- The text after blanks within a line. -/
def skipSpaces (cs : List Char) : List Char :=
  cs.dropWhile isSpace

/-- The text after a comment, at the end of its line. -/
def skipComment? (cs : List Char) : Option (List Char) :=
  if (cs.takeWhile fun c => !isNewline c).any isControl then none
  else some (cs.dropWhile fun c => !isNewline c)

/-! ## Text between quotes -/

/-- The character with the number that hexadecimal digits write. -/
def hexChar? (cs : List Char) : Option Char :=
  if cs.all isHexadecimal then
    let n := cs.foldl (fun n c => n * 16 + (Numeral.digit? c).getD 0) 0
    if n.isValidChar then some (Char.ofNat n) else none
  else none

/-- The character that an escape stands for, and the text after it. -/
def escape? : List Char → Option (Char × List Char)
  | 'b' :: cs => some ('\x08', cs)
  | 't' :: cs => some ('\t', cs)
  | 'n' :: cs => some ('\n', cs)
  | 'f' :: cs => some ('\x0c', cs)
  | 'r' :: cs => some ('\r', cs)
  | '"' :: cs => some ('"', cs)
  | '\\' :: cs => some ('\\', cs)
  | 'u' :: cs =>
    if cs.length < 4 then none else (hexChar? (cs.take 4)).map fun c => (c, cs.drop 4)
  | 'U' :: cs =>
    if cs.length < 8 then none else (hexChar? (cs.take 8)).map fun c => (c, cs.drop 8)
  | _ => none

/-- The text up to a closing double quote, and what comes after it; {lit}`fuel` bounds the
number of characters. -/
def quoted? (fuel : Nat) (done : List Char) (cs : List Char) : Option (String × List Char) :=
  match fuel, cs with
  | 0, _ => none
  | _ + 1, [] => none
  | fuel + 1, c :: cs =>
    if c = '"' then some (String.ofList done.reverse, cs)
    else if c = '\\' then
      match escape? cs with
      | some (e, cs) => quoted? fuel (e :: done) cs
      | none => none
    else if isControl c || isNewline c then none
    else quoted? fuel (c :: done) cs

/-- The text up to a closing single quote, and what comes after it. -/
def literal? (done : List Char) : List Char → Option (String × List Char)
  | [] => none
  | c :: cs =>
    if c = '\'' then some (String.ofList done.reverse, cs)
    else if isControl c || isNewline c then none
    else literal? (c :: done) cs

/-- The text after three closing quotes, where up to two more quotes still belong to the
text between them. -/
def closing? (quote : Char) (cs : List Char) : Option (Option (List Char)) :=
  let count := (cs.takeWhile (· == quote)).length
  if count < 3 then some none
  else if 5 < count then none
  else some (some (cs.drop count))

/-- The text after three closing double quotes that follow some blanks.  A backslash before the
blanks means nothing then. -/
def closingAfterBlanks? (cs : List Char) : Option (List Char) :=
  let rest := skipSpaces cs
  if rest.length < cs.length && (rest.takeWhile (· == '"')).length == 3 then some (rest.drop 3)
  else none

/-- The text after a text in three double quotes.  A backslash at the end of a line hides
it, and a quote that is escaped counts among those right before the end. -/
def afterLongQuoted? (fuel : Nat) (cs : List Char) : Option (List Char) :=
  match fuel, cs with
  | 0, _ => none
  | _ + 1, [] => none
  | fuel + 1, '"' :: cs =>
    match closing? '"' ('"' :: cs) with
    | none => none
    | some (some rest) => some rest
    | some none => afterLongQuoted? fuel cs
  | fuel + 1, '\\' :: cs =>
    match (skipSpaces cs).head? with
    | some c =>
      if isNewline c then afterLongQuoted? fuel (skipSpaces cs)
      else
        match escape? cs with
        | some (_, rest) =>
          if cs.head? = some '"' && 4 < (rest.takeWhile (· == '"')).length then none
          else afterLongQuoted? fuel rest
        | none => closingAfterBlanks? cs
    | none => none
  | fuel + 1, '\r' :: cs => if cs.head? = some '\n' then afterLongQuoted? fuel cs else none
  | fuel + 1, c :: cs => if isControl c then none else afterLongQuoted? fuel cs

/-- The text after a text in three single quotes. -/
def afterLongLiteral? : List Char → Option (List Char)
  | [] => none
  | '\'' :: cs =>
    match closing? '\'' ('\'' :: cs) with
    | none => none
    | some (some rest) => some rest
    | some none => afterLongLiteral? cs
  | '\r' :: cs => if cs.head? = some '\n' then afterLongLiteral? cs else none
  | c :: cs => if isControl c then none else afterLongLiteral? cs

/-! ## Names -/

/-- One part of a name, and the text after it. -/
def namePart? (cs : List Char) : Option (String × List Char) :=
  match cs with
  | '"' :: cs => quoted? (cs.length + 1) [] cs
  | '\'' :: cs => literal? [] cs
  | _ =>
    let part := cs.takeWhile isBare
    if part.isEmpty then none else some (String.ofList part, cs.dropWhile isBare)

/-- The parts of a name up to a closing character, and the text after that. -/
def name? (fuel : Nat) (close : Char) (cs : List Char) : Option (List String × List Char) :=
  match fuel with
  | 0 => none
  | fuel + 1 =>
    match namePart? (skipSpaces cs) with
    | none => none
    | some (part, cs) =>
      match skipSpaces cs with
      | '.' :: cs => (name? fuel close cs).map fun (parts, cs) => (part :: parts, cs)
      | c :: cs => if c = close then some ([part], cs) else none
      | [] => none

/-! ## Values -/

/-- What reading a value takes and gives: the rest of the text, and the document. -/
abbrev Step := List Char × Draft

/-- A reader for the value of a name in the open table; the flag tells whether the value
is an element of an array. -/
abbrev ValueReader := String → Bool → List Char → Draft → Option (Item × Step)

/-- The text after blanks, ends of lines and comments. -/
def skipLines? (fuel : Nat) (cs : List Char) : Option (List Char) :=
  match fuel with
  | 0 => none
  | fuel + 1 =>
    match cs with
    | [] => some []
    | c :: cs =>
      if isSpace c || isNewline c then skipLines? fuel cs
      else if c = '#' then (skipComment? cs).bind (skipLines? fuel)
      else some (c :: cs)

/-- The text after blanks and comments within a line. -/
def skipInline? (cs : List Char) : Option (List Char) :=
  match skipSpaces cs with
  | '#' :: cs => skipComment? cs
  | cs => some cs

/-- The elements of an array up to its end. -/
def arrayRest? (value : ValueReader) (name : String) (fuel : Nat) (cs : List Char) (d : Draft) :
    Option Step :=
  match fuel with
  | 0 => none
  | fuel + 1 => do
    match ← skipLines? (cs.length + 1) cs with
    | ']' :: cs => some (cs, d)
    | cs =>
      let (_, cs, d) ← value name true cs d
      match ← skipLines? (cs.length + 1) cs with
      | ',' :: cs => arrayRest? value name fuel cs d
      | ']' :: cs => some (cs, d)
      | _ => none

/-- A name with its value, in the open table. -/
def pair? (value : ValueReader) (cs : List Char) (d : Draft) :
    Option ((String × Item) × Step) := do
  let (names, cs) ← name? (cs.length + 1) '=' cs
  let key := names.getLastD ""
  let outer := d.context
  let d ← d.enterImplied? names.dropLast
  let (item, cs, d) ← value key false cs d
  let isArray := match item with
    | .array => true
    | _ => false
  let d ← d.set? key item
  return ((key, item), cs, { d.markArray key isArray with context := outer })

/-- The pairs of a table within a line up to its end; {lit}`done` holds those before. -/
def inlineRest? (value : ValueReader) (fuel : Nat) (done : Table) (cs : List Char) (d : Draft) :
    Option (Table × Step) :=
  match fuel with
  | 0 => none
  | fuel + 1 => do
    match ← skipInline? cs with
    | '\x7d' :: cs => some (done, cs, d)
    | cs =>
      let ((key, item), cs, d) ← pair? value cs d
      let done := put key item done
      match ← skipInline? cs with
      | ',' :: cs =>
        if (skipSpaces cs).head? = some '\x7d' then none else inlineRest? value fuel done cs d
      | '\x7d' :: cs => some (done, cs, d)
      | _ => none

/-- The value that a run of digits writes. -/
def numberItem? (run : Run) : Option Item :=
  match run.kind with
  | .integer => (readInteger? run.text).map .integer
  | .float => if isFloat run.text then some .float else none
  | .datetime => if isDatetime run.text then some .datetime else none

/-- The text after one of two words. -/
def afterWord? (cs : List Char) (words : List String) : Option (List Char) :=
  words.findSome? fun word =>
    if word.toList.isPrefixOf cs then some (cs.drop word.length) else none

/-- The value of a name; {lit}`fuel` bounds how deep arrays and tables are nested. -/
def value? : Nat → ValueReader
  | 0, _, _, _, _ => none
  | fuel + 1, name, inArray, cs, d => do
    match skipSpaces cs with
    | '[' :: cs =>
      let d := d.markArray name true
      let (cs, d) ← arrayRest? (value? fuel) name (cs.length + 1) cs d
      return (.array, cs, d)
    | '\x7b' :: cs =>
      let outer := d.context
      let path := outer ++ [name]
      let d := d.imply path
      let d ← if inArray then d.enterNext? path else d.enter? path
      let (entries, cs, d) ← inlineRest? (value? fuel) (cs.length + 1) [] cs d
      return (.table entries, cs, { d with context := outer })
    | '"' :: '"' :: '"' :: cs => return (.text, ← afterLongQuoted? (cs.length + 1) cs, d)
    | '"' :: cs => return (.text, (← quoted? (cs.length + 1) [] cs).2, d)
    | '\'' :: '\'' :: '\'' :: cs => return (.text, ← afterLongLiteral? cs, d)
    | '\'' :: cs => return (.text, (← literal? [] cs).2, d)
    | c :: cs =>
      if isDecimal c then
        let run ← takeNumber? (c :: cs)
        return (← numberItem? run, run.rest, d)
      else if c = '+' ∨ c = '-' then
        match afterWord? cs ["inf", "nan"] with
        | some cs => return (.float, cs, d)
        | none =>
          let run ← takeSigned? c cs
          return (← numberItem? run, run.rest, d)
      else
        match afterWord? (c :: cs) ["inf", "nan"] with
        | some cs => return (.float, cs, d)
        | none =>
          let word := String.ofList ((c :: cs).takeWhile Text.isLetter)
          if word = "true" ∨ word = "false" then
            return (.boolean (word == "true"), (c :: cs).dropWhile Text.isLetter, d)
          else none
    | [] => none

/-! ## Documents -/

/-- The text after the end of a line, which may hold a comment. -/
def endOfLine? (cs : List Char) : Option (List Char) :=
  match skipSpaces cs with
  | [] => some []
  | '#' :: cs => skipComment? cs
  | c :: cs => if isNewline c then some cs else none

/-- Read the lines of a document. -/
def lines? (fuel : Nat) (cs : List Char) (d : Draft) : Option Draft :=
  match fuel with
  | 0 => none
  | fuel + 1 => do
    match ← skipLines? (cs.length + 1) cs with
    | [] => some d
    | '[' :: '[' :: cs =>
      let (path, cs) ← name? (cs.length + 1) ']' cs
      let cs ← after? ']' cs
      let d ← d.enterNext? path
      lines? fuel (← endOfLine? cs) (d.markArray "" false)
    | '[' :: cs =>
      let (path, cs) ← name? (cs.length + 1) ']' cs
      let d ← d.enter? path
      lines? fuel (← endOfLine? cs) (d.markArray "" false)
    | cs =>
      let (_, cs, d) ← pair? (value? (cs.length + 1)) cs d
      lines? fuel (← endOfLine? cs) d

/-- The table that a text describes.  The replacement character stands for text that was
not readable, and a document has no null characters. -/
def read? (text : String) : Option Table :=
  let cs := text.toList
  if cs.any (fun c => c.toNat == 0 || c.toNat == 0xfffd) then none
  else (lines? (cs.length + 1) cs .empty).map (·.table)

end Toml
end WordRanges
