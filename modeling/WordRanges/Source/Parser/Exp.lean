import WordRanges.Source.Parser.Type

/-!
# Reading expressions

Operands, the selectors, brackets and calls after them, prefix operators, and binary
operators by precedence.

Main definitions:

- {lit}`Grammar.operand`, {lit}`Grammar.primary`: operands, and what follows them.
- {lit}`Grammar.readUnary`, {lit}`Grammar.readBinary`: operators.
-/

namespace WordRanges
namespace Source
namespace Parser
namespace Grammar

variable (g : Grammar)

/-- Statements up to the end of a block or clause. -/
def stms : Reader (List Stm) :=
  many (return (← token) ∉ [.kwCase, .kwDefault, .rbrace, .eof]) g.stm

/-- A block. -/
def block : Reader Block := do
  let l ← expect .lbrace
  let body ← g.stms
  let r ← expect .rbrace
  return .mk ⟨l.pos, r.stop⟩ body

/-! ## Composite literals -/

/-- The elements of a composite literal in braces, where {lit}`literal` reads such a literal
without a type. -/
def element (literal : Reader Exp) : Reader Exp := do
  let x ← part
  if ← accept .colon then
    let y ← part
    return .keyValue (x.span.to y.span) x y
  else return x
where
  part : Reader Exp := do
    if (← token) = .lbrace then literal else g.exp

/-- A composite literal from its opening brace on; {lit}`n` bounds how deep literals without
a type are nested. -/
def literalValue (type? : Option Exp) : Nat → Reader Exp
  | 0 => failure
  | n + 1 => do
    let l ← expect .lbrace
    let elems ← nested (commaList .rbrace (g.element (literalValue none n)))
    let r ← expect .rbrace
    let start := (type?.map (·.span.start)).getD l.pos
    return .composite ⟨start, r.stop⟩ type? elems

/-- An expression can be the type of a composite literal; names can be it only where a brace
cannot open a block. -/
def isLiteralType (level : Int) : Exp → Bool
  | .ident _ | .selector _ _ _ | .index _ _ _ => 0 ≤ level
  | .array _ _ _ | .struct _ _ | .map _ _ _ => true
  | _ => false

/-! ## Operands -/

/-- An operand. -/
def operand : Reader Exp := do
  let l ← peek
  match l.token with
  | .ident => do return .ident (← ident)
  | .int | .float | .imag | .char | .string => do
    discard next
    return .literal l.span l.token l.literal
  | .lparen => do
    discard next
    let x ← nested g.exp
    let r ← expect .rparen
    return .paren ⟨l.pos, r.stop⟩ x
  | .kwFunc => do
    let t ← g.funcType
    if (← token) = .lbrace then
      let b ← nested g.block
      return .funcLit (t.span.to b.span) t b
    else return t
  | _ => do
    match ← g.readType? with
    | some t => return t
    | none => failure

/-- A part of a slice expression up to the next colon or the end. -/
def slicePart : Reader (Option Exp) := do
  if (← token) ∈ [.colon, .rbrack] then return none else return some (← g.exp)

/-- The rest of a slice expression after its first part. -/
def sliceRest (x : Exp) (lo? : Option Exp) : Reader Exp := do
  discard (expect .colon)
  let hi? ← g.slicePart
  if ← accept .colon then
    let max? ← g.slicePart
    if hi?.isNone || max?.isNone then failure
    let r ← peek
    return .slice ⟨x.span.start, r.stop⟩ x lo? hi? max?
  else
    let r ← peek
    return .slice ⟨x.span.start, r.stop⟩ x lo? hi? none

/-- What stands in brackets after an operand: an index, a slice or type arguments. -/
def bracketRest (x : Exp) : Reader Exp := do
  discard (expect .lbrack)
  let y ← nested do
    if (← token) = .colon then g.sliceRest x none
    else
      let i ← g.exp
      match ← token with
      | .colon => g.sliceRest x (some i)
      | .comma => do
        let more ← many (return (← token) = .comma) (do
          discard next
          if (← token) = .rbrack then return none
          return some (← g.type))
        let r ← peek
        return .index ⟨x.span.start, r.stop⟩ x (i :: more.filterMap id)
      | _ => do
        let r ← peek
        return .index ⟨x.span.start, r.stop⟩ x [i]
  discard (expect .rbrack)
  return y

/-- The arguments of a call; the last one may be spread. -/
def argumentsWithin : Nat → Reader (List Exp × Bool)
  | 0 => failure
  | n + 1 => do
    if (← token) = .rparen then return ([], false)
    let x ← g.exp
    if ← accept .ellipsis then
      discard (accept .comma)
      return ([x], true)
    else if ← accept .comma then
      let (xs, spread) ← argumentsWithin n
      return (x :: xs, spread)
    else return ([x], false)

/-- A call or conversion. -/
def callRest (fn : Exp) : Reader Exp := do
  discard (expect .lparen)
  let (args, spread) ← nested (do g.argumentsWithin (← fuel))
  let r ← expect .rparen
  return .call ⟨fn.span.start, r.stop⟩ fn args spread

/-- A field, a method or a type assertion. -/
def selectorRest (x : Exp) : Reader Exp := do
  discard (expect .period)
  match ← token with
  | .ident => do
    let id ← ident
    return .selector (x.span.to id.span) x id
  | .lparen => do
    discard next
    let type? ← if ← accept .kwType then pure none else do pure (some (← g.type))
    let r ← expect .rparen
    return .typeAssert ⟨x.span.start, r.stop⟩ x type?
  | _ => failure

/-- Selectors, brackets, calls and literals after an operand, at most {lit}`n` of them. -/
def primaryFrom (x : Exp) : Nat → Reader Exp
  | 0 => return x
  | n + 1 => do
    match ← token with
    | .period => do primaryFrom (← g.selectorRest x) n
    | .lbrack => do primaryFrom (← g.bracketRest x) n
    | .lparen => do primaryFrom (← g.callRest x) n
    | .lbrace => do
      if isLiteralType (← get).level x.unparen then
        match x with
        | .paren _ _ => failure
        | _ => do primaryFrom (← g.literalValue (some x) (← fuel)) n
      else return x
    | _ => return x

/-- An operand with all that follows it. -/
def primary (x : Exp) : Reader Exp := do
  g.primaryFrom x (← fuel)

/-! ## Operators -/

/-- A channel type after a receive arrow is a channel to receive from; the arrow belongs to
the outermost channel that can still be restricted. -/
def receiveOnly? (start : Nat) : Exp → Option Exp
  | .chan s .both elem => some (.chan ⟨start, s.stop⟩ .receive elem)
  | .chan s .send elem => (receiveOnly? elem.span.start elem).map fun elem =>
    .chan ⟨start, s.stop⟩ .receive elem
  | _ => none

/-- An operand with the prefix operators before it. -/
def readUnary : Reader Exp := do
  let l ← peek
  match l.token with
  | .add | .sub | .not | .bitXor | .bitAnd | .tilde => do
    discard next
    let x ← g.unary
    return .unary ⟨l.pos, x.span.stop⟩ l.token x
  | .arrow => do
    discard next
    let x ← g.unary
    match x with
    | .chan _ _ _ =>
      match receiveOnly? l.pos x with
      | some t => return t
      | none => failure
    | _ => return .unary ⟨l.pos, x.span.stop⟩ .arrow x
  | .mul => do
    discard next
    let x ← g.unary
    return .star ⟨l.pos, x.span.stop⟩ x
  | _ => do g.primary (← g.operand)

/-- Binary operators after a first operand, at most {lit}`n` of them. -/
def binaryFrom (precedence : Nat) (x : Exp) : Nat → Reader Exp
  | 0 => return x
  | n + 1 => do
    let op ← token
    if op.precedence < precedence then return x
    else
      discard next
      let y ← g.binary (op.precedence + 1)
      binaryFrom precedence (.binary (x.span.to y.span) op x y) n

/-- The rest of an expression after its first operand. -/
def binaryRest (precedence : Nat) (x : Exp) : Reader Exp := do
  g.binaryFrom precedence x (← fuel)

/-- An expression whose operators bind at least as tightly as a precedence. -/
def readBinary (precedence : Nat) : Reader Exp := do
  g.binaryRest precedence (← g.readUnary)

end Grammar
end Parser
end Source
end WordRanges
