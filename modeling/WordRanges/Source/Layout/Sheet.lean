import WordRanges.Source.Layout.Columns
import WordRanges.Source.Token

/-!
# Writing tokens on a page

Tokens are written one after the other.  White space is held back until the next token,
so that a change of the indentation can still take effect on the line that is begun.  The
sheet keeps track of the line of the source that is written, because where the source
breaks lines decides where the page does.

Main definitions:

- {lit}`Sheet`, {lit}`Print`: a page with its place, and computations that write on it.
- {lit}`putToken`, {lit}`putWord`, {lit}`space`: write tokens and white space.
- {lit}`breakLine`: begin a new line.
- {lit}`sizeOf`: the size of what would be written.
-/

namespace WordRanges
namespace Layout

open Source

/-- White space and changes of the indentation. -/
inductive Space where
  | blank | cellEnd | lineEnd | sectionEnd | indent | unindent
deriving DecidableEq, Repr

/-- The end of a line. -/
def Space.isBreak : Space → Bool
  | .lineEnd | .sectionEnd => true
  | _ => false

/-- A page that is being written. -/
structure Sheet where
  /-- What is written, the last mark first. -/
  marks : List Mark
  /-- White space before the next token. -/
  pending : List Space
  indentation : Nat
  /-- The line of the source that was written last. -/
  sourceLine : Nat
  /-- The line and column of the page. -/
  line : Nat
  column : Nat
  /-- The token that was written last, unless white space follows it. -/
  last? : Option Token
  /-- Cells do not count up to the end of the line, because a token has ended a line. -/
  unaligned : Bool

/-- An empty page. -/
def Sheet.start : Sheet := ⟨[], [], 0, 1, 1, 1, none, false⟩

/-- A computation that writes on a page. -/
abbrev Print := StateM Sheet

/-! ## White space -/

/-- Write white space. -/
def Sheet.putSpace (s : Sheet) (x : Space) : Sheet :=
  match x with
  | .indent => { s with indentation := s.indentation + 1 }
  | .unindent => { s with indentation := s.indentation - 1 }
  | .blank => { s with marks := .blank :: s.marks, column := s.column + 1 }
  | .cellEnd =>
    let mark := if s.unaligned then .blank else .cellEnd
    { s with marks := mark :: s.marks, column := s.column + 1 }
  | .lineEnd =>
    let mark := if s.unaligned then .sectionEnd else .lineEnd
    { s with marks := mark :: s.marks, line := s.line + 1, column := 1, unaligned := false }
  | .sectionEnd =>
    { s with marks := .sectionEnd :: s.marks, line := s.line + 1, column := 1, unaligned := false }

/-- Write white space.  The indentation that ends after the end of a line ends before it, and the
line ends a section then; {lit}`held?` is the end of a line that is held back. -/
def Sheet.putSpaces (s : Sheet) (held? : Option Space) : List Space → Sheet
  | [] => (held?.map s.putSpace).getD s
  | x :: xs =>
    match held?, x with
    | some _, .unindent => (s.putSpace .unindent).putSpaces (some .sectionEnd) xs
    | held?, x =>
      let s := (held?.map s.putSpace).getD s
      if x.isBreak then s.putSpaces (some x) xs else (s.putSpace x).putSpaces none xs

/-- Write the white space that is held back. -/
def Sheet.flush (s : Sheet) : Sheet :=
  { s.putSpaces none s.pending with pending := [] }

/-- White space before the next token. -/
def space (x : Space) : Print Unit :=
  modify fun s => { s with pending := s.pending ++ [x], last? := none }

/-! ## Tokens -/

/-- The next token stands on a line of the source. -/
def moveTo (line : Nat) : Print Unit :=
  modify fun s => { s with sourceLine := line }

/-- Write text after the white space that is held back, and after the indentation at the
beginning of a line. -/
def Sheet.putText (s : Sheet) (text : String) : Sheet :=
  let s := s.flush
  let s :=
    if s.column = 1 then
      { s with
        marks := List.replicate s.indentation .tab ++ s.marks
        column := s.column + s.indentation }
    else s
  let ends := (text.toList.filter (· == '\n')).length
  let tail := String.ofList (text.toList.reverse.takeWhile (· != '\n')).reverse
  { s with
    marks := .word text :: s.marks
    sourceLine := s.sourceLine + ends
    line := s.line + ends
    column := if ends = 0 then s.column + text.utf8ByteSize else 1 + tail.utf8ByteSize
    unaligned := s.unaligned || 0 < ends }

/-- Two tokens that would be read as one if nothing stood between them. -/
def runTogether (last : Token) (next : Token) : Bool :=
  match last, next.text.toList.head? with
  | .int, some '.' | .add, some '+' | .sub, some '-' | .quo, some '*' | .lt, some '-'
  | .lt, some '<' | .bitAnd, some '&' | .bitAnd, some '^' => true
  | _, _ => false

/-- Write a token. -/
def putToken (t : Token) : Print Unit :=
  modify fun s =>
    let s := if s.last?.any (runTogether · t) then { s with pending := [.blank] } else s
    { s.putText t.text with last? := some t }

/-- Write a name or a literal. -/
def putWord (kind : Token) (text : String) : Print Unit :=
  modify fun s => { s.putText text with last? := some kind }

/-- Write a name. -/
def putName (name : String) : Print Unit :=
  putWord .ident name

/-! ## Lines -/

/-- The greatest number of line ends that are written at once. -/
def maxBreaks : Nat := 2

/-- Begin a new line if the source does, or in any case if {lit}`least` is not zero; the answer is
the number of line ends, and one more if the section ends with the line. -/
def breakLine (line least : Nat) (first : Option Space) (endsSection : Bool) : Print Nat := do
  let n := max (min (line - (← get).sourceLine) maxBreaks) least
  if n = 0 then return 0
  first.forM space
  if endsSection then
    space .sectionEnd
    (List.replicate (n - 1) Space.lineEnd).forM space
    return n + 1
  else
    (List.replicate n Space.lineEnd).forM space
    return n

/-- The line of the page on which the next token will stand. -/
def nextLine : Print Nat := do
  let s ← get
  return s.line + (s.pending.filter Space.isBreak).length

/-- The number of lines since a line of the page. -/
def linesSince (line : Nat) : Print Nat :=
  return (← get).line - line

/-! ## Sizes -/

/-- The number of bytes of a mark, or nothing if it ends a line. -/
def Mark.size? : Mark → Option Nat
  | .word s => if s.contains '\n' then none else some s.utf8ByteSize
  | .blank | .tab | .cellEnd => some 1
  | .lineEnd | .sectionEnd => none

/-- White space other than the end of a line. -/
def Mark.isSpace : Mark → Bool
  | .blank | .tab | .cellEnd => true
  | .word _ | .lineEnd | .sectionEnd => false

/-- The number of bytes of what would be written, or one more than {lit}`limit` if it does not fit
on one line of that size. -/
def sizeOf (limit : Nat) (p : Print Unit) : Nat :=
  let marks := (p.run Sheet.start).2.flush.marks.dropWhile Mark.isSpace
  match marks.mapM Mark.size? with
  | some sizes =>
    let size := sizes.foldl (· + ·) 0
    if size ≤ limit then size else limit + 1
  | none => limit + 1

/-- The text of what is written. -/
def written (p : Print Unit) : String :=
  pageText (p.run Sheet.start).2.flush.marks.reverse

end Layout
end WordRanges
