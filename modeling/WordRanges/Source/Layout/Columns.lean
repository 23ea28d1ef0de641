/-!
# Text in columns

Lines are made of cells, and the cells of consecutive lines stand below each other in
columns.  All cells of a column are filled up with tabs to the same width.  The last cell
of a line belongs to no column, and a line without a cell in a column ends the column.
Columns do not go beyond the end of a section.

Main definitions:

- {lit}`Mark`: what a page is made of.
- {lit}`pageText`: the text of a page.
-/

namespace WordRanges
namespace Layout

/-- What a page is made of. -/
inductive Mark where
  /-- Text that is kept as it is. -/
  | word (s : String)
  | blank
  /-- A tab of the indentation, which ends a cell. -/
  | tab
  /-- The end of a cell; columns of which all cells are empty are left out. -/
  | cellEnd
  | lineEnd
  /-- The end of a line that ends a section too. -/
  | sectionEnd
deriving DecidableEq, Repr

/-- A character, and whether it belongs to text that is kept as it is. -/
structure Glyph where
  char : Char
  kept : Bool
deriving DecidableEq, Repr

/-- A part of a line. -/
structure Cell where
  glyphs : List Glyph
  /-- The cell is one of the indentation. -/
  hard : Bool

namespace Cell

/-- An empty cell. -/
def empty : Cell := ⟨[], false⟩

/-- The number of characters. -/
def width (c : Cell) : Nat :=
  c.glyphs.length

end Cell

/-- A line, and whether it ends a section. -/
structure Line where
  cells : List Cell
  ends : Bool

/-- The glyphs of a mark that belongs to a cell. -/
def Mark.glyphs : Mark → List Glyph
  | .word s => s.toList.map fun c => ⟨c, true⟩
  | .blank => [⟨' ', false⟩]
  | .tab | .cellEnd | .lineEnd | .sectionEnd => []

/-- The lines of a page; {lit}`cells` are those of the line so far, and {lit}`last` is its last
cell. -/
def linesOf (cells : List Cell) (last : List Glyph) : List Mark → List Line
  | [] => [⟨cells ++ [⟨last, false⟩], true⟩]
  | .tab :: ms => linesOf (cells ++ [⟨last, true⟩]) [] ms
  | .cellEnd :: ms => linesOf (cells ++ [⟨last, false⟩]) [] ms
  | .lineEnd :: ms =>
    ⟨cells ++ [⟨last, false⟩], cells.isEmpty⟩ :: linesOf [] [] ms
  | .sectionEnd :: ms => ⟨cells ++ [⟨last, false⟩], true⟩ :: linesOf [] [] ms
  | m :: ms => linesOf cells (last ++ m.glyphs) ms

/-- The sections of a page; {lit}`lines` are those of the section so far. -/
def sectionsOf (lines : List (List Cell)) : List Line → List (List (List Cell))
  | [] => if lines.isEmpty then [] else [lines]
  | l :: ls =>
    if l.ends then (lines ++ [l.cells]) :: sectionsOf [] ls
    else sectionsOf (lines ++ [l.cells]) ls

/-! ## Columns -/

/-- The number of characters that a tab leads to a multiple of. -/
def tabWidth : Nat := 8

/-- The tabs that fill up a cell to the width of its column. -/
def padding (cell column : Nat) : List Glyph :=
  let goal := (column + tabWidth - 1) / tabWidth * tabWidth
  List.replicate ((goal - cell + tabWidth - 1) / tabWidth) ⟨'\t', false⟩

/-- The width of a column with some cells. -/
def columnWidth (cells : List Cell) : Nat :=
  if cells.all fun c => c.width == 0 && !c.hard then 0
  else cells.foldl (fun w c => max w (c.width + 1)) tabWidth

/-- The text of a line whose cells stand in columns of some widths. -/
def lineGlyphs (widths : List Nat) : List Cell → List Glyph
  | [] => []
  | c :: cs =>
    match widths with
    | [] => c.glyphs ++ lineGlyphs [] cs
    | w :: ws => c.glyphs ++ padding c.width w ++ lineGlyphs ws cs

/-- A line has a cell in a column. -/
def hasColumn (column : Nat) (line : List Cell) : Bool :=
  column + 1 < line.length

/-- The texts of lines.  The widths of the columns to the left are known; {lit}`fuel` bounds the
number of lines and columns. -/
def alignLines : Nat → List Nat → List (List Cell) → List (List Glyph)
  | 0, _, _ => []
  | _ + 1, _, [] => []
  | fuel + 1, widths, line :: lines =>
    let column := widths.length
    if hasColumn column line then
      let block := line :: lines.takeWhile (hasColumn column)
      let width := columnWidth (block.map fun cells => cells.getD column .empty)
      alignLines fuel (widths ++ [width]) block
        ++ alignLines fuel widths (lines.dropWhile (hasColumn column))
    else lineGlyphs widths line :: alignLines fuel widths lines

/-- The texts of the lines of a section. -/
def alignSection (lines : List (List Cell)) : List (List Glyph) :=
  alignLines (lines.length + lines.flatten.length + 1) [] lines

/-- The text of a line without white space at its end. -/
def trimmed (line : List Glyph) : String :=
  let isSpace (g : Glyph) : Bool := !g.kept && (g.char == ' ' || g.char == '\t')
  String.ofList ((line.reverse.dropWhile isSpace).reverse.map Glyph.char)

/-- The text of a page. -/
def pageText (marks : List Mark) : String :=
  "\n".intercalate
    (((sectionsOf [] (linesOf [] [] marks)).flatMap alignSection).map trimmed)

end Layout
end WordRanges
