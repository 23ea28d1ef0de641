import WordRanges.Source.Layout.Exp
import WordRanges.Source.Node

/-!
# The layout of statements

The bodies of function literals are written with one statement on a line, unless they
stand on one line of the source and are short.

Main definitions:

- {lit}`writeBlock`: the layout of statements in braces.
- {lit}`writeStatement`: the layout of a statement.
- {lit}`Source.Exp.layout`: the text of an expression as it is usually written.
-/

namespace WordRanges
namespace Source

/-- A node that names a type. -/
def Node.isTypeName : Node → Bool
  | .mk kind _ _ _ children =>
    if kind == "SelectorExpr" then
      match children with
      | x :: _ => x.isTypeName
      | [] => false
    else kind == "Ident"

mutual

/-- The node contains a composite literal that begins with the name of a type and is not in
parentheses. -/
def Node.hasBareLiteral : Node → Bool
  | .mk kind _ _ _ children =>
    if kind == "ParenExpr" then false
    else if kind == "CompositeLit" then children.head?.any Node.isTypeName
    else Node.anyBareLiteral children

/-- One of the nodes contains such a literal. -/
def Node.anyBareLiteral : List Node → Bool
  | [] => false
  | n :: ns => n.hasBareLiteral || Node.anyBareLiteral ns

end

/-- A condition without the parentheses around it, unless they keep a composite literal from being
read as a block. -/
def Exp.condition : Exp → Exp
  | .paren span x => if x.node.hasBareLiteral then .paren span x else x.condition
  | x => x

/-- The number of labels of a statement. -/
def Stm.labelCount : Stm → Nat
  | .labeled _ _ body => body.labelCount + 1
  | _ => 0

/-- The statement is empty. -/
def Stm.isEmpty : Stm → Bool
  | .empty _ => true
  | _ => false

end Source

namespace Layout

open Source

/-! ## Lists of statements -/

/-- Write statements on lines of their own.  So many of them are written so far, the last of which
begins on a line of the page; {lit}`last?` is the number of statements if a brace follows them. -/
def writeStatementRows (w : Writers) (last? : Option Nat) : Nat → Nat → List Stm → Print Unit
  | _, _, [] => return
  | i, line, s :: ss => do
    if s.isEmpty then writeStatementRows w last? i line ss
    else
      let spread ← linesSince line
      discard (breakLine (w.lineAt s.span.start) 1 none (i = 0 || 0 < spread))
      let line ← nextLine
      w.statement (last? = some (i + 1)) s
      writeStatementRows w last? (i + 1) (line + s.labelCount) ss

/-- Write indented statements; {lit}`atEnd` if a brace follows them. -/
def writeStatements (w : Writers) (atEnd : Bool) (body : List Stm) : Print Unit := do
  space .indent
  writeStatementRows w (if atEnd then some body.length else none) 0 0 body
  space .unindent

/-- Write something in braces, the last of which stands on a line of its own. -/
def inBraces (w : Writers) (span : Span) (body : Print Unit) : Print Unit := do
  moveTo (w.lineAt span.start)
  putToken .lbrace
  body
  discard (breakLine (w.closeLine span) 1 none false)
  moveTo (w.closeLine span)
  putToken .rbrace

/-- Write a block. -/
def writeBlock (w : Writers) : Block → Print Unit
  | .mk span body => inBraces w span (writeStatements w true body)

/-- Write the body of a function whose header has some size. -/
def writeBody (w : Writers) (header : Nat) : Block → Print Unit
  | .mk span body => do
    space .blank
    if header + bodySize w (.mk span body) ≤ maxBodySize then
      moveTo (w.lineAt span.start)
      putToken .lbrace
      if !body.isEmpty then
        space .blank
        writeOneLine w true body
        space .blank
      moveTo (w.closeLine span)
      putToken .rbrace
    else writeBlock w (.mk span body)

/-! ## Clauses -/

/-- Write clauses on lines of their own, given how each is written if it is the last one or not. -/
def writeClauses (w : Writers) : List (Span × (Bool → Print Unit)) → Print Unit
  | [] => return
  | (span, write) :: rest => do
    discard (breakLine (w.lineAt span.start) 1 none true)
    moveTo (w.lineAt span.start)
    write rest.isEmpty
    writeClauses w rest

/-- Write a clause of a switch. -/
def writeClause (w : Writers) (atEnd : Bool) : Clause → Print Unit
  | .mk span isDefault cases body => do
    let start := w.lineAt span.start
    let line := (cases.getLast?.map w.stopLine).getD start
    if isDefault then putToken .kwDefault
    else
      putToken .kwCase
      space .blank
      writeList w ⟨1, some start, some line, false, true⟩ cases
    moveTo line
    putToken .colon
    writeStatements w atEnd body

/-- Write a clause of a select. -/
def writeCommClause (w : Writers) (atEnd : Bool) : CommClause → Print Unit
  | .mk span comm? body => do
    match comm? with
    | none => putToken .kwDefault
    | some s =>
      putToken .kwCase
      space .blank
      w.statement false s
    moveTo ((comm?.map fun s => w.lineAt s.span.stop).getD (w.lineAt span.start))
    putToken .colon
    writeStatements w atEnd body

/-- Write the clauses of a switch in braces. -/
def writeSwitchBody (w : Writers) (span : Span) (clauses : List Clause) : Print Unit :=
  inBraces w span
    (writeClauses w (clauses.map fun
      | .mk s d cs b => (s, fun atEnd => writeClause w atEnd (.mk s d cs b))))

/-! ## Headers -/

/-- Write the parts of a header between blanks. -/
def writeHeader (w : Writers) (isLoop : Bool) (init? : Option Stm) (cond? : Option Exp)
    (post? : Option Stm) : Print Unit := do
  space .blank
  let writeCond : Print Unit := cond?.forM fun c => w.alone c.condition
  if init?.isNone && post?.isNone then
    writeCond
    if cond?.isSome then space .blank
  else
    init?.forM (w.statement false)
    putToken .semicolon
    space .blank
    writeCond
    if isLoop then
      putToken .semicolon
      space .blank
      post?.forM (w.statement false)
    if if isLoop then post?.isSome else cond?.isSome then space .blank

/-- A list looks better if it is indented as a whole: several elements take more than one line, or
one of them begins on a new line. -/
def isSpread (w : Writers) (xs : List Exp) : Bool :=
  let begins := xs.map w.startLine
  let ends := xs.map w.stopLine
  let isFresh := (ends.zip (begins.drop 1)).any fun (e, b) => e < b
  let long := ((begins.zip ends).filter fun (b, e) => b < e).length
  isFresh || 1 < long

/-! ## Declarations -/

/-- Whether each of some declarations in a group leaves room for a type: those with values do if
one of the neighbours that have values too has a type. -/
def typeColumns (specs : List (Bool × Bool)) : List Bool :=
  let step (keep : Bool) (run : List Bool) : List Bool := run.map fun _ => keep
  let (done, run, keep) := specs.foldl (fun (done, run, keep) (hasType, hasValues) =>
    if hasValues then (done, run ++ [true], (!run.isEmpty && keep) || hasType)
    else (done ++ step keep run ++ [false], [], keep || hasType)) ([], [], false)
  done ++ step keep run

/-- Write a part of a group of constants or variables. -/
def writeValueRow (w : Writers) (keepsType : Bool) (names : List Ident) (type? : Option Exp)
    (values : List Exp) : Print Unit := do
  writeNames w false names
  if type?.isSome || keepsType then space .cellEnd
  type?.forM w.alone
  if !values.isEmpty then
    space .cellEnd
    putToken .assign
    space .blank
    writeList w ⟨1, none, none, false, true⟩ values

/-- Write a part of a declaration that is alone, or in a group. -/
def writeSpec (w : Writers) (inGroup : Bool) (isOnly : Bool) : Spec → Print Unit
  | .imports .. => return
  | .value _ names type? values => do
    writeNames w (!inGroup) names
    type?.forM fun t => do
      space .blank
      w.alone t
    if !values.isEmpty then
      space .blank
      putToken .assign
      space .blank
      writeList w ⟨1, none, none, false, true⟩ values
  | .type _ name typeParams? isAlias type => do
    w.alone (.ident name)
    typeParams?.forM (writeFieldList w .lbrack .rbrack)
    space (if isOnly then .blank else .cellEnd)
    if isAlias then
      putToken .assign
      space .blank
    w.alone type

/-- Write a part of a group. -/
def writeGroupSpec (w : Writers) (isOnly keepsType : Bool) : Spec → Print Unit
  | .value span names type? values =>
    if isOnly then writeSpec w true true (.value span names type? values)
    else writeValueRow w keepsType names type? values
  | spec => writeSpec w true isOnly spec

/-- Write the parts of a group on lines of their own; {lit}`line?` is the line of the page where the
one before began. -/
def writeSpecRows (w : Writers) (isOnly : Bool) : Option Nat → List (Spec × Bool) → Print Unit
  | _, [] => return
  | line?, (spec, keepsType) :: rest => do
    match line? with
    | none => pure ()
    | some line =>
      let spread ← linesSince line
      discard (breakLine (w.lineAt spec.span.start) 1 none (0 < spread))
    let line ← nextLine
    moveTo (w.lineAt spec.span.start)
    writeGroupSpec w isOnly keepsType spec
    writeSpecRows w isOnly (some line) rest

/-- A part of a declaration has a type, and values. -/
def Spec.columns : Spec → Bool × Bool
  | .value _ _ type? values => (type?.isSome, !values.isEmpty)
  | _ => (true, false)

/-- Write a declaration. -/
def writeDecl (w : Writers) : Decl → Print Unit
  | .func .. => return
  | .general span keyword specs => do
    putToken keyword
    space .blank
    match specs with
    | [spec] =>
      if spec.span.stop = span.stop then writeSpec w false true spec
      else writeGroup span specs
    | _ => writeGroup span specs
where
  /-- Write parts of a declaration in parentheses. -/
  writeGroup (span : Span) (specs : List Spec) : Print Unit := do
    putToken .lparen
    if !specs.isEmpty then
      space .indent
      space .sectionEnd
      writeSpecRows w (specs.length = 1) none (specs.zip (typeColumns (specs.map Spec.columns)))
      space .unindent
      space .sectionEnd
    moveTo (w.closeLine span)
    putToken .rparen

/-! ## All statements -/

/-- Write a labeled statement. -/
def writeLabeled (w : Writers) (atEnd : Bool) (label : Ident) (body : Stm) : Print Unit := do
  space .unindent
  w.alone (.ident label)
  putToken .colon
  space .indent
  if !body.isEmpty then
    discard (breakLine (w.lineAt body.span.start) 1 none true)
    w.statement atEnd body
  else if !atEnd then
    space .lineEnd
    moveTo (w.lineAt body.span.start)
    putToken .semicolon

/-- Write an assignment. -/
def writeAssign (w : Writers) (start : Nat) (op : Token) (lhs rhs : List Exp) : Print Unit := do
  let depth := if 1 < lhs.length && 1 < rhs.length then 2 else 1
  let line := (lhs.getLast?.map w.stopLine).getD start
  writeList w ⟨depth, some start, some line, false, true⟩ lhs
  space .blank
  moveTo line
  putToken op
  space .blank
  writeList w ⟨depth, some line, none, false, true⟩ rhs

/-- Write the results that a function returns. -/
def writeResults (w : Writers) (results : List Exp) : Print Unit := do
  if results.isEmpty then return
  space .blank
  if isSpread w results then
    space .indent
    writeList w ⟨1, none, none, false, false⟩ results
    space .unindent
  else writeList w ⟨1, none, none, false, true⟩ results

/-- Write a loop over the elements of something. -/
def writeRange (w : Writers) (key? value? : Option Exp) (define : Bool) (x : Exp) (body : Block) :
    Print Unit := do
  putToken .kwFor
  space .blank
  key?.forM fun key => do
    w.alone key
    value?.forM fun value => do
      moveTo (w.startLine value)
      putToken .comma
      space .blank
      w.alone value
    space .blank
    putToken (if define then .define else .assign)
    space .blank
  putToken .kwRange
  space .blank
  w.alone x.condition
  space .blank
  writeBlock w body

/-- Write a statement. -/
def writeStatement (w : Writers) (atEnd : Bool) (s : Stm) : Print Unit := do
  let start := w.lineAt s.span.start
  moveTo start
  match s with
  | .empty _ => return
  | .exp x => w.alone x
  | .labeled _ label body => writeLabeled w atEnd label body
  | .send _ channel value =>
    w.alone channel
    space .blank
    putToken .arrow
    space .blank
    w.alone value
  | .incDec _ op x =>
    w.exp 0 2 x
    putToken op
  | .assign _ op lhs rhs => writeAssign w start op lhs rhs
  | .goCall _ call =>
    putToken .kwGo
    space .blank
    w.alone call
  | .deferCall _ call =>
    putToken .kwDefer
    space .blank
    w.alone call
  | .returns _ results =>
    putToken .kwReturn
    writeResults w results
  | .branch _ token label? =>
    putToken token
    label?.forM fun label => do
      space .blank
      w.alone (.ident label)
  | .block b => writeBlock w b
  | .ifElse _ init? cond body else? =>
    putToken .kwIf
    writeHeader w false init? (some cond) none
    writeBlock w body
    else?.forM fun other => do
      space .blank
      putToken .kwElse
      space .blank
      w.statement atEnd other
  | .switch _ init? tag? body clauses =>
    putToken .kwSwitch
    writeHeader w false init? tag? none
    writeSwitchBody w body clauses
  | .typeSwitch _ init? guard body clauses =>
    putToken .kwSwitch
    init?.forM fun init => do
      space .blank
      w.statement false init
      putToken .semicolon
    space .blank
    w.statement false guard
    space .blank
    writeSwitchBody w body clauses
  | .select _ body clauses =>
    putToken .kwSelect
    space .blank
    if clauses.isEmpty then
      moveTo (w.lineAt body.start)
      putToken .lbrace
      moveTo (w.closeLine body)
      putToken .rbrace
    else
      inBraces w body
        (writeClauses w (clauses.map fun
          | .mk s c b => (s, fun atEnd => writeCommClause w atEnd (.mk s c b))))
  | .loop _ init? cond? post? body =>
    putToken .kwFor
    writeHeader w true init? cond? post?
    writeBlock w body
  | .range _ key? value? define x body => writeRange w key? value? define x body
  | .decl d => writeDecl w d

/-! ## Tying the knot -/

/-- The layout of all parts; {lit}`fuel` bounds how deep they are nested. -/
def writers (lineAt : Nat → Nat) : Nat → Writers
  | 0 => ⟨lineAt, fun _ _ _ => pure (), fun _ _ => pure ()⟩
  | fuel + 1 =>
    let w := writers lineAt fuel
    ⟨lineAt, writeExp w (writeBody w), writeStatement w⟩

end Layout

/-- The text of an expression as it is usually written, given the lines of places and a bound for
its depth. -/
def Source.Exp.layout (lineAt : Nat → Nat) (depth : Nat) (e : Source.Exp) : String :=
  Layout.written ((Layout.writers lineAt depth).alone e)

end WordRanges
