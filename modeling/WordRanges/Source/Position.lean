import WordRanges.Text.CleanPath

/-!
# Positions in source files

All files of a package share one range of positions: each file has a base, and a position
is the base of its file plus the number of bytes before it.  Comments can declare that the
text after them stands in another file or line; such marks change what is shown, not where
things are.

Main definitions:

- {lit}`Span`: a part of the source.
- {lit}`SourceFile`: a file with its lines and marks.
- {lit}`SourceFile.plain`, {lit}`SourceFile.marked`: positions without and with marks.
-/

namespace WordRanges
namespace Source

/-- A part of the source, up to but without its end. -/
structure Span where
  start : Nat
  stop : Nat
deriving DecidableEq, Repr, Inhabited, Hashable

/-- The smallest span around two spans. -/
def Span.to (a b : Span) : Span :=
  ⟨a.start, b.stop⟩

/-- A mark that declares where the text from an offset on stands. -/
structure LineMark where
  offset : Nat
  file : String
  line : Nat
  /-- The column, or zero if it is not known. -/
  column : Nat
deriving DecidableEq, Repr

/-- A line and column of a file. -/
structure Position where
  file : String
  line : Nat
  column : Nat
deriving DecidableEq, Repr

/-- The text of a position. -/
def Position.text (p : Position) : String :=
  p.file ++ ":" ++ p.line.repr ++ ":" ++ p.column.repr

/-- A file of a package. -/
structure SourceFile where
  name : String
  /-- The position of its first byte. -/
  base : Nat
  /-- The number of its bytes. -/
  size : Nat
  /-- The offsets at which its lines start, in ascending order. -/
  lineStarts : List Nat
  /-- Its marks, in ascending order of offsets. -/
  marks : List LineMark
deriving Repr

/-- The offsets at which lines start, after the first line. -/
def lineStartsFrom (offset size : Nat) : List Char → List Nat
  | [] => []
  | c :: cs =>
    let next := offset + c.utf8Size
    if c = '\n' ∧ next < size then next :: lineStartsFrom next size cs
    else lineStartsFrom next size cs

/-- The offsets at which the lines of a text start. -/
def lineStarts (cs : List Char) (size : Nat) : List Nat :=
  0 :: lineStartsFrom 0 size cs

namespace SourceFile

/-- A position lies in the file, or right behind it. -/
def contains (f : SourceFile) (pos : Nat) : Bool :=
  f.base ≤ pos && pos ≤ f.base + f.size

/-- The number of the line at an offset, from one, and the offset where it starts. -/
def lineAt (f : SourceFile) (offset : Nat) : Nat × Nat :=
  let before := f.lineStarts.filter (· ≤ offset)
  (before.length, before.getLastD 0)

/-- The position of an offset without regard to marks. -/
def plainAt (f : SourceFile) (offset : Nat) : Position :=
  let (line, start) := f.lineAt offset
  ⟨f.name, line, offset - start + 1⟩

/-- The last mark at or before an offset. -/
def markAt? (f : SourceFile) (offset : Nat) : Option LineMark :=
  (f.marks.filter fun m => decide (m.offset ≤ offset)).getLast?

/-- The position of an offset as the marks declare it.  A mark without a column leaves the
column open, and a column counts only on the line of its mark. -/
def markedAt (f : SourceFile) (offset : Nat) : Position :=
  let p := f.plainAt offset
  match f.markAt? offset with
  | none => p
  | some m =>
    let distance := p.line - (f.lineAt m.offset).1
    let column :=
      if m.column = 0 then 0
      else if distance = 0 then m.column + (offset - m.offset)
      else p.column
    ⟨m.file, m.line + distance, column⟩

/-- The place of a position without regard to marks. -/
def plain (f : SourceFile) (pos : Nat) : Position :=
  f.plainAt (pos - f.base)

/-- The place of a position as the marks declare it. -/
def marked (f : SourceFile) (pos : Nat) : Position :=
  f.markedAt (pos - f.base)

/-- The line of a position as the marks declare it. -/
def markedLine (f : SourceFile) (pos : Nat) : Nat :=
  (f.marked pos).line

/-- The place of a position to show: as the marks declare it if they lead to a source file
of the language, and else where it is. -/
def shown (f : SourceFile) (pos : Nat) : Position :=
  let p := f.marked pos
  if Text.extension p.file = ".go" then p else f.plain pos

end SourceFile
end Source
end WordRanges
