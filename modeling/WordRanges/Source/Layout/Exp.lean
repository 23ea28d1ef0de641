import WordRanges.Source.Layout.Operators
import WordRanges.Source.Layout.Sheet
import WordRanges.Source.Tree

/-!
# The layout of expressions and types

Expressions are written in the usual form of source code.  Lines are broken where the
source breaks them, and lists that are spread over several lines are indented.

Main definitions:

- {lit}`Writers`: the layout of nested parts.
- {lit}`writeList`: the layout of lists between commas.
- {lit}`writeFields`: the layout of structs and interfaces.
- {lit}`writeExp`: the layout of an expression.
-/

namespace WordRanges
namespace Source

/-- The binary operators of an expression that are not in parentheses. -/
def Exp.operators : Exp → OperatorTree
  | .binary _ op x y => .binary op x.operators y.operators
  | .unary _ op _ => .operand (some op)
  | .star _ _ => .operand (some .mul)
  | _ => .operand none

/-- The expression is a binary operation. -/
def Exp.isBinary : Exp → Bool
  | .binary .. => true
  | _ => false

end Source

namespace Layout

open Source

/-- The layout of nested parts. -/
structure Writers where
  /-- The line of the source at a place. -/
  lineAt : Nat → Nat
  /-- An expression within another one: operators that bind less tightly than a precedence get
  parentheses, and the depth tells which operators get blanks. -/
  exp : Nat → Nat → Exp → Print Unit
  /-- A statement, and whether it is the last one of a block. -/
  statement : Bool → Stm → Print Unit

namespace Writers

variable (w : Writers)

/-- The line on which an expression begins. -/
def startLine (e : Exp) : Nat :=
  w.lineAt e.span.start

/-- The line on which an expression ends. -/
def stopLine (e : Exp) : Nat :=
  w.lineAt e.span.stop

/-- The line of the last token of a part of the source. -/
def closeLine (span : Span) : Nat :=
  w.lineAt (span.stop - 1)

/-- An expression on its own. -/
def alone (e : Exp) : Print Unit :=
  w.exp 0 1 e

end Writers

/-! ## Lists -/

/-- How a list is written. -/
structure ListPlan where
  depth : Nat
  /-- The line of the token before the list, if it matters. -/
  before? : Option Nat
  /-- The line of the token after the list, if it matters. -/
  after? : Option Nat
  /-- A comma ends the list if the token after it stands on a new line. -/
  commaEnds : Bool
  /-- A list that is spread over lines is indented. -/
  indents : Bool

/-- How far a list is written. -/
structure ListState where
  index : Nat
  /-- The list is indented. -/
  indented : Bool
  /-- The index after the element that was last on a new line. -/
  fresh : Nat
  /-- The size of the last element, or zero if it takes several lines. -/
  size : Nat
  /-- The product and the number of the sizes since columns began. -/
  product : Nat
  count : Nat
  /-- The line of the last element. -/
  line : Nat

/-- Larger than any line of source code. -/
def anySize : Nat := 1000000

/-- The size up to which the keys of a list stand in one column in any case. -/
def smallSize : Nat := 40

/-- Columns end before an element: it or the one before takes several lines, or its size differs
too much from the mean size of the others. -/
def columnsEnd (s : ListState) (size : Nat) : Bool :=
  if s.size = 0 || size = 0 then true
  else if s.count = 0 || (s.size ≤ smallSize && size ≤ smallSize) then false
  else
    Nat.pow (5 * size) s.count ≤ Nat.pow 2 s.count * s.product
      || Nat.pow 5 s.count * s.product ≤ Nat.pow (2 * size) s.count

/-- The indentation that begins with the next line of a list. -/
def listIndent (plan : ListPlan) (s : ListState) : Option Space :=
  if plan.indents && !s.indented then some .indent else none

/-- The size of an element that counts for columns: that of its key, if it has one. -/
def elementSize (w : Writers) (plan : ListPlan) (x : Exp) : Nat :=
  let whole := sizeOf anySize (w.alone x)
  if anySize < whole || plan.before?.isNone || plan.after?.isNone then 0
  else
    match x with
    | .keyValue _ key _ => sizeOf anySize (w.alone key)
    | _ => whole

/-- Write the comma before an element, and a blank or the end of the line. -/
def writeComma (plan : ListPlan) (s : ListState) (size line : Nat) : Print ListState := do
  let broken := 0 < s.line && s.line < line
  if !broken then moveTo line
  putToken .comma
  let n ←
    if broken then
      breakLine line 0 (listIndent plan s) (columnsEnd s size || s.fresh < s.index)
    else pure 0
  if n = 0 then
    space .blank
    return s
  let s := { s with indented := true, fresh := s.index + 1 }
  return if 1 < n then { s with product := 1, count := 0 } else s

/-- Write the elements of a list. -/
def writeElements (w : Writers) (plan : ListPlan) (several : Bool) :
    ListState → List Exp → Print ListState
  | s, [] => return s
  | s, x :: xs => do
    let line := w.startLine x
    let size := elementSize w plan x
    let broken := 0 < s.line && s.line < line
    let s ← if 0 < s.index then writeComma plan s size line else pure s
    match x with
    | .keyValue _ key value =>
      if several && 0 < size && broken then
        w.alone key
        putToken .colon
        space .cellEnd
        w.alone value
      else w.exp 0 plan.depth x
    | _ => w.exp 0 plan.depth x
    let s := if 0 < size then { s with product := s.product * size, count := s.count + 1 } else s
    writeElements w plan several { s with index := s.index + 1, size, line } xs

/-- Write expressions on one line. -/
def writeLine (w : Writers) (depth : Nat) : Bool → List Exp → Print Unit
  | _, [] => return
  | first, x :: xs => do
    if !first then
      moveTo (w.startLine x)
      putToken .comma
      space .blank
    w.exp 0 depth x
    writeLine w depth false xs

/-- Write a list between commas. -/
def writeList (w : Writers) (plan : ListPlan) (xs : List Exp) : Print Unit := do
  match xs.head?, xs.getLast? with
  | some first, some last =>
    let line := w.startLine first
    if plan.before? = some line && line = w.stopLine last then writeLine w plan.depth true xs
    else
      let start : ListState := ⟨0, false, 0, 0, 1, 0, plan.before?.getD 0⟩
      let n ←
        if plan.before?.any (· < line) then breakLine line 0 (listIndent plan start) true
        else pure 0
      let start := if 0 < n then { start with indented := true, fresh := 1 } else start
      let s ← writeElements w plan (1 < xs.length) start xs
      let ends := plan.commaEnds && plan.after?.any ((← get).sourceLine < ·)
      if ends then putToken .comma
      if s.indented && plan.indents then space .unindent
      if ends then space .sectionEnd
  | _, _ => return

/-- Write names between commas. -/
def writeNames (w : Writers) (indents : Bool) (names : List Ident) : Print Unit :=
  writeList w ⟨1, none, none, false, indents⟩ (names.map .ident)

/-! ## Functions -/

/-- Write parameters and results; {lit}`indented` if they are indented so far, and {lit}`line?` is
the line of the one before. -/
def writeParameters (w : Writers) : Bool → Bool → Nat → List Field → Print (Bool × Nat)
  | _, indented, line, [] => return (indented, line)
  | first, indented, line, .mk span names type _ :: rest => do
    let start := w.lineAt span.start
    let broken := 0 < line && line < start
    if !first then
      if !broken then moveTo start
      putToken .comma
    let n ←
      if broken then breakLine start 0 (if indented then none else some .indent) true else pure 0
    if n = 0 && !first then space .blank
    let indented := indented || 0 < n
    if !names.isEmpty then
      writeNames w (!indented) names
      space .blank
    w.alone type.unparen
    writeParameters w false indented (w.lineAt span.stop) rest

/-- Write parameters in parentheses, or type parameters in brackets. -/
def writeFieldList (w : Writers) (opening closing : Token) : FieldList → Print Unit
  | .mk span fields => do
    let start := w.lineAt span.start
    let stop := w.closeLine span
    moveTo start
    putToken opening
    if !fields.isEmpty then
      let (indented, line) ← writeParameters w true false start fields
      if 0 < line && line < stop then
        putToken .comma
        discard (breakLine stop 0 none true)
      if indented then space .unindent
    moveTo stop
    putToken closing

/-- Write the parameters and results of a function. -/
def writeSignature (w : Writers) : Exp → Print Unit
  | .func _ typeParams? params results? => do
    typeParams?.forM (writeFieldList w .lbrack .rbrack)
    writeFieldList w .lparen .rparen params
    match results? with
    | none => return
    | some results =>
      match results.fields with
      | [] => return
      | [.mk _ [] type _] =>
        space .blank
        w.alone type.unparen
      | _ =>
        space .blank
        writeFieldList w .lparen .rparen results
  | _ => return

/-! ## Structs and interfaces -/

/-- The size up to which a struct or interface with a single element stands on one line. -/
def maxFieldSize : Nat := 30

/-- The fields or elements are few and small enough to stand on one line. -/
def fieldsFit (w : Writers) : List Field → Bool
  | [.mk _ names type none] =>
    let blank := if names.isEmpty then 0 else 1
    blank + sizeOf maxFieldSize (w.alone type) ≤ maxFieldSize
  | _ => false

/-- Write the only field or element of a struct or interface on one line. -/
def writeOneField (w : Writers) (isStruct : Bool) : Field → Print Unit
  | .mk _ names type _ => do
    if isStruct || names.isEmpty then
      writeLine w 1 true (names.map .ident)
      if !names.isEmpty then space .blank
      w.alone type
    else
      writeLine w 1 true ((names.take 1).map .ident)
      writeSignature w type

/-- Write a field of a struct with its tag. -/
def writeField (w : Writers) (sep : Space) : Field → Print Unit
  | .mk _ names type tag? => do
    if !names.isEmpty then
      writeNames w false names
      space sep
    w.alone type
    match tag? with
    | none => return
    | some tag =>
      if !names.isEmpty && sep = .cellEnd then space sep
      space sep
      moveTo (w.lineAt tag.span.start)
      putWord .string tag.text

/-- Write an element of an interface. -/
def writeElement (w : Writers) : Field → Print Unit
  | .mk _ (name :: _) type _ => do
    w.alone (.ident name)
    writeSignature w type
  | .mk _ [] type _ => w.alone type

/-- Write fields or elements on lines of their own; {lit}`line?` is the line of the page where the
one before began. -/
def writeRows (w : Writers) (row : Field → Print Unit) : Option Nat → List Field → Print Unit
  | _, [] => return
  | line?, f :: fs => do
    match line? with
    | none => pure ()
    | some line =>
      let spread ← linesSince line
      discard (breakLine (w.lineAt f.span.start) 1 none (0 < spread))
    let line ← nextLine
    row f
    writeRows w row (some line) fs

/-- Write the fields of a struct or the elements of an interface in braces. -/
def writeFields (w : Writers) (isStruct : Bool) : FieldList → Print Unit
  | .mk span fields => do
    let start := w.lineAt span.start
    let stop := w.closeLine span
    if start = stop && fields.isEmpty then
      moveTo start
      putToken .lbrace
      putToken .rbrace
    else if start = stop && fieldsFit w fields then
      moveTo start
      putToken .lbrace
      space .blank
      fields.forM (writeOneField w isStruct)
      space .blank
      moveTo stop
      putToken .rbrace
    else
      space .blank
      moveTo start
      putToken .lbrace
      space .indent
      if !fields.isEmpty then space .sectionEnd
      let sep : Space := if fields.length = 1 then .blank else .cellEnd
      writeRows w (if isStruct then writeField w sep else writeElement w) none fields
      space .unindent
      space .sectionEnd
      moveTo stop
      putToken .rbrace

/-! ## Selectors, calls and parts -/

/-- Write a selector; the answer tells whether a new line was indented for it, which the caller
has to end. -/
def writeSelector (w : Writers) (depth : Nat) (isCalled : Bool) (x : Exp) (name : Ident) :
    Print Bool := do
  w.exp highestPrecedence depth x
  putToken .period
  let line := w.lineAt name.pos
  if (← get).sourceLine < line then
    space .indent
    space .lineEnd
    moveTo line
    putName name.name
    if !isCalled then space .unindent
    return true
  else
    moveTo line
    putName name.name
    return false

/-- A type that needs parentheses where it is called. -/
def needsParens : Exp → Bool
  | .func .. => true
  | .chan _ .receive _ => true
  | _ => false

/-- Write a call. -/
def writeCall (w : Writers) (depth : Nat) (span : Span) (fn : Exp) (args : List Exp)
    (spread : Bool) : Print Unit := do
  let depth := if 1 < args.length then depth + 1 else depth
  if needsParens fn then putToken .lparen
  let indented ←
    match fn with
    | .selector _ x name => do
      moveTo (w.startLine fn)
      writeSelector w depth true x name
    | _ => do
      w.exp highestPrecedence depth fn
      pure false
  if needsParens fn then putToken .rparen
  let start := w.stopLine fn
  let stop := w.closeLine span
  moveTo start
  putToken .lparen
  if spread then
    let line := (args.getLast?.map w.stopLine).getD start
    writeList w ⟨depth, some start, some line, false, true⟩ args
    moveTo line
    putToken .ellipsis
    if line < stop then
      putToken .comma
      space .sectionEnd
  else writeList w ⟨depth, some start, some stop, true, true⟩ args
  moveTo stop
  putToken .rparen
  if indented then space .unindent

/-- Write the bounds of a part of a list between colons.  Colons get blanks if there are several
bounds and one of them is a binary operation. -/
def writeBounds (w : Writers) (depth : Nat) (blanks : Bool) :
    Option (Option Exp) → List (Option Exp) → Print Unit
  | _, [] => return
  | before?, x? :: rest => do
    match before? with
    | none => pure ()
    | some before =>
      if blanks && before.isSome then space .blank
      putToken .colon
      if blanks && x?.isSome then space .blank
    x?.forM (w.exp 0 (depth + 1))
    writeBounds w depth blanks (some x?) rest

/-- Write a part of a list. -/
def writeSlice (w : Writers) (depth : Nat) (span : Span) (x : Exp) (lo? hi? max? : Option Exp) :
    Print Unit := do
  w.exp highestPrecedence 1 x
  moveTo (w.stopLine x)
  putToken .lbrack
  let bounds := [lo?, hi?] ++ (if max?.isSome then [max?] else [])
  let given := bounds.filterMap fun b => b
  let blanks := depth ≤ 1 && decide (1 < given.length) && given.any Exp.isBinary
  writeBounds w depth blanks none bounds
  moveTo (w.closeLine span)
  putToken .rbrack

/-- Write an element, or type arguments. -/
def writeIndex (w : Writers) (depth : Nat) (span : Span) (x : Exp) (indices : List Exp) :
    Print Unit := do
  let start := w.stopLine x
  let stop := w.closeLine span
  w.exp highestPrecedence 1 x
  moveTo start
  putToken .lbrack
  match indices with
  | [index] => w.exp 0 (depth + 1) index
  | _ => writeList w ⟨depth + 1, some start, some stop, true, true⟩ indices
  moveTo stop
  putToken .rbrack

/-- Write a composite literal. -/
def writeComposite (w : Writers) (depth : Nat) (span : Span) (type? : Option Exp)
    (elems : List Exp) : Print Unit := do
  type?.forM (w.exp highestPrecedence depth)
  let start := (type?.map w.stopLine).getD (w.lineAt span.start)
  let stop := w.closeLine span
  moveTo start
  putToken .lbrace
  writeList w ⟨1, some start, some stop, true, true⟩ elems
  space .indent
  space .unindent
  moveTo stop
  putToken .rbrace

/-! ## Function literals -/

/-- The size up to which a function stands on one line. -/
def maxBodySize : Nat := 100

/-- The greatest number of statements of a function that stands on one line. -/
def maxBodyLength : Nat := 5

/-- The size of the body of a function on one line, or more than the greatest size if it cannot
stand on one. -/
def bodySize (w : Writers) : Block → Nat
  | .mk span body =>
    if w.lineAt span.start != w.closeLine span || maxBodyLength < body.length then maxBodySize + 1
    else
      let sizes := body.map fun s => sizeOf maxBodySize (w.statement false s)
      sizes.foldl (· + ·) 0 + 2 * (body.length - 1)

/-- Write statements on one line. -/
def writeOneLine (w : Writers) : Bool → List Stm → Print Unit
  | _, [] => return
  | first, s :: ss => do
    if !first then
      putToken .semicolon
      space .blank
    w.statement ss.isEmpty s
    writeOneLine w false ss

/-! ## All expressions -/

/-- Write an operand in parentheses. -/
def inParens (p : Print Unit) : Print Unit := do
  putToken .lparen
  p
  putToken .rparen

/-- Write a binary operation. -/
def writeBinary (w : Writers) (depth : Nat) (op : Token) (x y : Exp) : Print Unit := do
  let tree := OperatorTree.binary op x.operators y.operators
  let blanks := op.precedence < tree.cutoff depth
  w.exp op.precedence (depth + OperatorTree.leftDepth op x.operators) x
  if blanks then space .blank
  let xLine := (← get).sourceLine
  let yLine := w.startLine y
  moveTo (w.stopLine x)
  putToken op
  let n ← if xLine != yLine then breakLine yLine 1 (some .indent) true else pure 0
  if blanks && n = 0 then space .blank
  w.exp (op.precedence + 1) (depth + 1) y
  if 0 < n then space .unindent

/-- Write a channel type. -/
def writeChan (w : Writers) (dir : ChanDir) (elem : Exp) : Print Unit := do
  match dir with
  | .both => putToken .kwChan
  | .receive =>
    putToken .arrow
    putToken .kwChan
  | .send =>
    putToken .kwChan
    putToken .arrow
  space .blank
  w.alone elem

/-- Write an expression; {lit}`literal` writes the body of a function literal after its header,
whose size it is given. -/
def writeExp (w : Writers) (literal : Nat → Block → Print Unit) (precedence depth : Nat)
    (e : Exp) : Print Unit := do
  moveTo (w.startLine e)
  match e with
  | .ident id => putName id.name
  | .literal _ kind text => putWord kind text
  | .binary _ op x y =>
    if op.precedence < precedence then inParens (w.exp 0 (reduceDepth depth) e)
    else writeBinary w depth op x y
  | .keyValue _ key value =>
    w.alone key
    putToken .colon
    space .blank
    w.alone value
  | .star _ x =>
    let body : Print Unit := do
      putToken .mul
      w.alone x
    if unaryPrecedence < precedence then inParens body else body
  | .unary _ op x =>
    if unaryPrecedence < precedence then inParens (w.alone e)
    else
      putToken op
      w.exp unaryPrecedence depth x
  | .funcLit _ signature body =>
    putToken .kwFunc
    let column := (← get).column - "func".length
    writeSignature w signature
    let s ← get
    let size := if s.sourceLine = w.startLine signature then s.column - column else anySize
    literal size body
  | .paren span x =>
    match x with
    | .paren .. => w.exp 0 depth x
    | _ =>
      putToken .lparen
      w.exp 0 (reduceDepth depth) x
      moveTo (w.closeLine span)
      putToken .rparen
  | .selector _ x name => discard (writeSelector w depth false x name)
  | .typeAssert span x type? =>
    w.exp highestPrecedence depth x
    putToken .period
    putToken .lparen
    match type? with
    | some t => w.alone t
    | none => putToken .kwType
    moveTo (w.closeLine span)
    putToken .rparen
  | .index span x indices => writeIndex w depth span x indices
  | .slice span x lo? hi? max? => writeSlice w depth span x lo? hi? max?
  | .call span fn args spread => writeCall w depth span fn args spread
  | .composite span type? elems => writeComposite w depth span type? elems
  | .ellipsis _ elem? =>
    putToken .ellipsis
    elem?.forM w.alone
  | .array _ length? elem =>
    putToken .lbrack
    length?.forM w.alone
    putToken .rbrack
    w.alone elem
  | .struct _ fields =>
    putToken .kwStruct
    writeFields w true fields
  | .func .. =>
    putToken .kwFunc
    writeSignature w e
  | .interface _ elems =>
    putToken .kwInterface
    writeFields w false elems
  | .map _ key elem =>
    putToken .kwMap
    putToken .lbrack
    w.alone key
    putToken .rbrack
    w.alone elem
  | .chan _ dir elem => writeChan w dir elem

end Layout
end WordRanges
