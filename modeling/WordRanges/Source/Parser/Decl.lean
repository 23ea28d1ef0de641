import WordRanges.Source.Parser.Exp

/-!
# Reading declarations and statements

Main definitions:

- {lit}`Grammar.generalDecl`, {lit}`Grammar.funcDecl`: declarations.
- {lit}`Grammar.readStm`: statements.
- {lit}`grammar`: the readers at a nesting depth.
- {lit}`parse?`: the tree of a file.
-/

namespace WordRanges
namespace Source
namespace Parser

/-! ## Type parameters or array lengths -/

/-- An expression that can only be a type. -/
def isTypeElement : Exp → Bool
  | .array _ _ _ | .struct _ _ | .func _ _ _ _ | .interface _ _ | .map _ _ _ | .chan _ _ _ => true
  | .binary _ _ x y => isTypeElement x || isTypeElement y
  | .unary _ op _ => op == .tilde
  | .paren _ x => isTypeElement x
  | _ => false

/-- A name and its constraint read as one expression, such as a product for a pointer.  An
expression that might also be an array length counts only if {lit}`force` is set. -/
def splitName? (force : Bool) : Exp → Option (Ident × Option Exp)
  | .ident id => some (id, none)
  | .binary s .mul (.ident id) y =>
    if force || isTypeElement y then some (id, some (.star ⟨s.start, y.span.stop⟩ y)) else none
  | .binary s .bitOr x y =>
    match splitName? (force || isTypeElement y) x with
    | some (id, some t) => some (id, some (.binary ⟨t.span.start, s.stop⟩ .bitOr t y))
    | _ => none
  | .call _ (.ident id) [x] false => if force || isTypeElement x then some (id, some x) else none
  | _ => none

namespace Grammar

variable (g : Grammar)

/-! ## Declarations -/

/-- The end of a declared value: its last value, its type or its last name. -/
def valueStop (names : List Ident) (type? : Option Exp) (values : List Exp) : Nat :=
  match values.getLast?, type? with
  | some v, _ => v.span.stop
  | none, some t => t.span.stop
  | none, none => (names.getLastD default).span.stop

/-- Declared constants or variables. -/
def valueSpec (keyword : Token) : Reader Spec := do
  let names ← sepList ident
  let t ← token
  let type? ←
    if keyword = .kwConst then
      if t ∈ [.eof, .semicolon, .rparen] then pure none else g.type?
    else if t = .assign then pure none
    else do pure (some (← g.type))
  let values ← if ← accept .assign then g.exps else pure []
  endStatement
  let start := (names.headD default).pos
  return .value ⟨start, valueStop names type? values⟩ names type? values

/-- A declared generic type after some of its type parameters. -/
def genericRest (name : Ident) (bracket : Nat) (first : Parameter) : Reader Spec := do
  let first ← match first with
    | ⟨name?, some t⟩ => do pure ⟨name?, some (← g.unionRest t)⟩
    | ⟨some id, none⟩ => g.parameterNamed id true
    | p => pure p
  let fields ← if ← accept .comma then g.fieldsOf [first] .rbrack false
    else match distribute? [first] with
      | some fields => pure fields
      | none => failure
  let r ← expect .rbrack
  if !dotsFit false fields then failure
  if fields.any (fun | .mk _ names _ _ => names.isEmpty) then failure
  let isAlias ← accept .assign
  let t ← g.type
  endStatement
  return .type (name.span.to t.span) name (some (.mk ⟨bracket, r.stop⟩ fields)) isAlias t

/-- A declared type. -/
def typeSpec : Reader Spec := do
  let name ← ident
  if (← token) = .lbrack then
    let l ← next
    if (← token) = .ident then
      let id ← ident
      let x ← if (← token) = .lbrack then pure (Exp.ident id)
        else nested do g.binaryRest 1 (← g.primary (.ident id))
      let t ← token
      match splitName? (t == .comma) x with
      | some (id, none) =>
        if t = .rbrack then plain name (← g.arrayRest l.pos (some x))
        else g.genericRest name l.pos ⟨some id, none⟩
      | some (id, some c) => g.genericRest name l.pos ⟨some id, some c⟩
      | none => plain name (← g.arrayRest l.pos (some x))
    else plain name (← g.arrayRest l.pos none)
  else
    let isAlias ← accept .assign
    let t ← g.type
    endStatement
    return .type (name.span.to t.span) name none isAlias t
where
  plain (name : Ident) (t : Exp) : Reader Spec := do
    endStatement
    return .type (name.span.to t.span) name none false t

/-- An imported package. -/
def importSpec : Reader Spec := do
  let name? ← match ← token with
    | .ident => do pure (some (← ident))
    | .period => do
      let l ← next
      pure (some ⟨l.pos, "."⟩)
    | _ => pure none
  let path ← expect .string
  endStatement
  let start := (name?.map (·.pos)).getD path.pos
  return .imports ⟨start, path.stop⟩ name? path.span

/-- A declaration of constants, variables, types or imports. -/
def generalDecl (keyword : Token) : Reader Decl := do
  let l ← expect keyword
  let spec : Reader Spec :=
    match keyword with
    | .kwType => g.typeSpec
    | .kwImport => importSpec
    | _ => g.valueSpec keyword
  if ← accept .lparen then
    let specs ← many (return (← token) ∉ [.rparen, .eof]) spec
    let r ← expect .rparen
    endStatement
    return .general ⟨l.pos, r.stop⟩ keyword specs
  else
    let s ← spec
    return .general ⟨l.pos, s.span.stop⟩ keyword [s]

/-- A function or method. -/
def funcDecl : Reader Decl := do
  let l ← expect .kwFunc
  let receiver? ← if (← token) = .lparen then do pure (some (← g.parameters false)) else pure none
  let name ← ident
  let typeParams? ← g.typeParameters?
  let sig ← g.signature l.pos typeParams?
  if (← token) = .lbrace then
    let b ← g.block
    endStatement
    return .func ⟨l.pos, b.span.stop⟩ receiver? name sig (some b)
  else
    endStatement
    return .func ⟨l.pos, sig.span.stop⟩ receiver? name sig none

/-! ## Statements -/

/-- Operators that assign. -/
def isAssignment (t : Token) : Bool :=
  t == .assign || t == .define || t.ofAssign?.isSome

/-- A statement without a block, and the operand of a range if it is one. -/
def simpleStm (mode : Mode) : Reader (Stm × Option Exp) := do
  let lhs ← g.exps
  let l ← peek
  let first := lhs.headD default
  if isAssignment l.token then
    discard next
    if mode = .ranges && (l.token = .assign || l.token = .define) && (← token) = .kwRange then
      discard next
      let x ← g.exp
      return (.assign (first.span.to x.span) l.token lhs [], some x)
    else
      let rhs ← g.exps
      let stop := (rhs.getLastD default).span.stop
      return (.assign ⟨first.span.start, stop⟩ l.token lhs rhs, none)
  else if 1 < lhs.length then failure
  else
    match l.token with
    | .colon => do
      discard next
      match mode, first with
      | .labels, .ident id => do
        let s ← g.stm
        return (.labeled (id.span.to s.span) id s, none)
      | _, _ => failure
    | .arrow => do
      discard next
      let y ← g.exp
      return (.send (first.span.to y.span) first y, none)
    | .inc | .dec => do
      discard next
      return (.incDec ⟨first.span.start, l.stop⟩ l.token first, none)
    | _ => return (.exp first, none)

/-- A statement without a block and without a range. -/
def plainStm : Reader Stm := do
  return (← g.simpleStm .basic).1

/-- The expression that a statement is. -/
def expOf : Stm → Reader Exp
  | .exp x => return x
  | _ => failure

/-- The call after {lit}`go` or {lit}`defer`. -/
def callAfter : Reader Exp := do
  match ← g.exp with
  | .call s fn args spread => return .call s fn args spread
  | _ => failure

/-- The initial statement and the condition of an {lit}`if`. -/
def ifHead : Reader (Option Stm × Exp) := do
  if (← token) = .lbrace then failure
  let first? ← if (← token) = .semicolon then pure none else do pure (some (← g.plainStm))
  if (← token) = .lbrace then
    match first? with
    | some s => return (none, ← expOf s)
    | none => failure
  else
    discard (expect .semicolon)
    return (first?, ← expOf (← g.plainStm))

/-- An {lit}`if` statement. -/
def readIfElse : Reader Stm := do
  let l ← expect .kwIf
  let (init?, cond) ← atLevel (fun _ => -1) g.ifHead
  let body ← g.block
  if ← accept .kwElse then
    match ← token with
    | .kwIf => do
      let s ← g.ifElse
      return .ifElse ⟨l.pos, s.span.stop⟩ init? cond body (some s)
    | .lbrace => do
      let b ← g.block
      endStatement
      return .ifElse ⟨l.pos, b.span.stop⟩ init? cond body (some (.block b))
    | _ => failure
  else
    endStatement
    return .ifElse ⟨l.pos, body.span.stop⟩ init? cond body none

/-- The end of a clause: that of its last statement, or else of its colon. -/
def clauseStop (colon : Lexeme) (body : List Stm) : Nat :=
  (body.getLast?.map (·.span.stop)).getD colon.stop

/-- A clause of a switch. -/
def clause : Reader Clause := do
  let l ← next
  let cases ← if l.token = .kwCase then g.exps else pure []
  let colon ← expect .colon
  let body ← g.stms
  return .mk ⟨l.pos, clauseStop colon body⟩ (l.token == .kwDefault) cases body

/-- A type switch guard. -/
def isGuard : Stm → Bool
  | .exp (.typeAssert _ _ none) => true
  | .assign _ .define [_] [.typeAssert _ _ none] => true
  | _ => false

/-- An assignment in the place of a type switch guard. -/
def isWrongGuard : Stm → Bool
  | .assign _ .assign [_] [.typeAssert _ _ none] => true
  | _ => false

/-- The initial statement and the subject of a switch. -/
def switchHead : Reader (Option Stm × Option Stm) := do
  if (← token) = .lbrace then return (none, none)
  let first? ← if (← token) = .semicolon then pure none else do pure (some (← g.plainStm))
  if ← accept .semicolon then
    if (← token) = .lbrace then return (first?, none)
    else return (first?, some (← g.plainStm))
  else return (none, first?)

/-- A switch or type switch. -/
def switchStm : Reader Stm := do
  let l ← expect .kwSwitch
  let (init?, subject?) ← atLevel (fun _ => -1) g.switchHead
  let open_ ← expect .lbrace
  let clauses ← many (return (← token) ∈ [.kwCase, .kwDefault]) g.clause
  let close ← expect .rbrace
  endStatement
  let span : Span := ⟨l.pos, close.stop⟩
  let body : Span := ⟨open_.pos, close.stop⟩
  match subject? with
  | none => return .switch span init? none body clauses
  | some s =>
    if isWrongGuard s then failure
    else if isGuard s then return .typeSwitch span init? s body clauses
    else return .switch span init? (some (← expOf s)) body clauses

/-- The communication of a clause of a select. -/
def communication : Reader Stm := do
  let lhs ← g.exps
  let l ← peek
  let first := lhs.headD default
  match l.token with
  | .arrow => do
    if 1 < lhs.length then failure
    discard next
    let y ← g.exp
    return .send (first.span.to y.span) first y
  | .assign | .define => do
    if 2 < lhs.length then failure
    discard next
    let y ← g.exp
    return .assign (first.span.to y.span) l.token lhs [y]
  | _ => if 1 < lhs.length then failure else return .exp first

/-- A clause of a select. -/
def commClause : Reader CommClause := do
  let l ← next
  let comm? ← if l.token = .kwCase then do pure (some (← g.communication)) else pure none
  let colon ← expect .colon
  let body ← g.stms
  return .mk ⟨l.pos, clauseStop colon body⟩ comm? body

/-- A select statement. -/
def selectStm : Reader Stm := do
  let l ← expect .kwSelect
  let open_ ← expect .lbrace
  let clauses ← many (return (← token) ∈ [.kwCase, .kwDefault]) g.commClause
  let close ← expect .rbrace
  endStatement
  return .select ⟨l.pos, close.stop⟩ ⟨open_.pos, close.stop⟩ clauses

/-- The head of a loop: over a range, or with up to three parts. -/
inductive LoopHead where
  | range (key? value? : Option Exp) (define : Bool) (x : Exp)
  | parts (init? : Option Stm) (cond? : Option Exp) (post? : Option Stm)

/-- The parts of a loop after its initial statement. -/
def loopParts (init? : Option Stm) : Reader LoopHead := do
  let cond? ← match ← token with
    | .semicolon => pure none
    | .lbrace => failure
    | _ => do pure (some (← expOf (← g.plainStm)))
  endStatement
  let post? ← if (← token) = .lbrace then pure none else do pure (some (← g.plainStm))
  return .parts init? cond? post?

/-- The head of a loop. -/
def loopHead : Reader LoopHead := do
  match ← token with
  | .lbrace => return .parts none none none
  | .kwRange => do
    discard next
    return .range none none false (← g.exp)
  | .semicolon => do
    discard next
    g.loopParts none
  | _ => do
    match ← g.simpleStm .ranges with
    | (.assign _ op lhs _, some x) =>
      match lhs with
      | [key] => return .range (some key) none (op == .define) x
      | [key, value] => return .range (some key) (some value) (op == .define) x
      | _ => failure
    | (s, _) =>
      if ← accept .semicolon then g.loopParts (some s)
      else return .parts none (some (← expOf s)) none

/-- A loop. -/
def loopStm : Reader Stm := do
  let l ← expect .kwFor
  let head ← atLevel (fun _ => -1) g.loopHead
  let body ← g.block
  endStatement
  let span : Span := ⟨l.pos, body.span.stop⟩
  match head with
  | .range key? value? define x => return .range span key? value? define x body
  | .parts init? cond? post? => return .loop span init? cond? post? body

/-- A statement that leaves the normal order of statements. -/
def branchStm : Reader Stm := do
  let l ← next
  let label? ←
    if l.token = .kwGoto then do pure (some (← ident))
    else if l.token ≠ .kwFallthrough && (← token) = .ident then do pure (some (← ident))
    else pure none
  endStatement
  let stop := (label?.map (·.span.stop)).getD l.stop
  return .branch ⟨l.pos, stop⟩ l.token label?

/-- A return statement. -/
def returnStm : Reader Stm := do
  let l ← expect .kwReturn
  let results ← if (← token) ∈ [.semicolon, .rbrace] then pure [] else g.exps
  endStatement
  let stop := (results.getLast?.map (·.span.stop)).getD l.stop
  return .returns ⟨l.pos, stop⟩ results

/-- A statement that starts with an expression. -/
def expStm : Reader Stm := do
  match (← g.simpleStm .labels).1 with
  | .labeled s id body => return .labeled s id body
  | s => do
    endStatement
    return s

/-- A statement. -/
def readStm : Reader Stm := do
  let l ← peek
  match l.token with
  | .kwConst | .kwType | .kwVar => do return .decl (← g.generalDecl l.token)
  | .ident | .int | .float | .imag | .char | .string | .kwFunc | .lparen | .lbrack | .kwStruct
  | .kwMap | .kwChan | .kwInterface | .add | .sub | .mul | .bitAnd | .bitXor | .tilde | .arrow
  | .not => g.expStm
  | .kwGo => do
    discard next
    let x ← g.callAfter
    endStatement
    return .goCall ⟨l.pos, x.span.stop⟩ x
  | .kwDefer => do
    discard next
    let x ← g.callAfter
    endStatement
    return .deferCall ⟨l.pos, x.span.stop⟩ x
  | .kwReturn => g.returnStm
  | .kwBreak | .kwContinue | .kwGoto | .kwFallthrough => branchStm
  | .lbrace => do
    let b ← g.block
    endStatement
    return .block b
  | .kwIf => g.readIfElse
  | .kwSwitch => g.switchStm
  | .kwSelect => g.selectStm
  | .kwFor => g.loopStm
  | .semicolon => do
    discard next
    return .empty ⟨l.pos, if l.text == "\n" then l.pos else l.stop⟩
  | .rbrace => return .empty ⟨l.pos, l.pos⟩
  | _ => failure

/-- The readers one level deeper. -/
def deeper (g : Grammar) : Grammar where
  binary := g.readBinary
  unary := g.readUnary
  type? := g.readType?
  stm := g.readStm
  ifElse := g.readIfElse

end Grammar

/-- The readers for parts that are nested at most so deep. -/
def grammar : Nat → Grammar
  | 0 => .bottom
  | depth + 1 => (grammar depth).deeper

/-! ## Files -/

/-- Declarations up to the end of a file; imports come first. -/
def declsWithin (g : Grammar) (imports : Bool) : Nat → Reader (List Decl)
  | 0 => failure
  | n + 1 => do
    match ← token with
    | .eof => return []
    | .kwImport => do
      if !imports then failure
      let d ← g.generalDecl .kwImport
      return d :: (← declsWithin g true n)
    | .kwFunc => do
      let d ← g.funcDecl
      return d :: (← declsWithin g false n)
    | t => do
      if t ∉ [.kwConst, .kwVar, .kwType] then failure
      let d ← g.generalDecl t
      return d :: (← declsWithin g false n)

/-- A whole file. -/
def unit (g : Grammar) : Reader SourceUnit := do
  let l ← expect .kwPackage
  let name ← ident
  endStatement
  let decls ← declsWithin g true (← fuel)
  let stop := (decls.getLast?.map (·.span.stop)).getD name.span.stop
  return ⟨⟨l.pos, stop⟩, name, decls, none⟩

/-- The tree of a file, read from its lexemes without comments.  No part is nested deeper
than there are lexemes. -/
def parse? (lexemes : List Lexeme) : Option SourceUnit :=
  let tokens := lexemes.filter (·.token ≠ .comment)
  ((unit (grammar (tokens.length + 1))).run ⟨tokens, 0⟩).map (·.1)

end Parser
end Source
end WordRanges
