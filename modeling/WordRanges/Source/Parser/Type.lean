import WordRanges.Source.Parser.Basic

/-!
# Reading types

Types, parameter lists and the fields of structs and interfaces.  In a parameter list a
name alone may be a type or a name whose type follows later; which one it is is only known
at the end of the list.

Main definitions:

- {lit}`Parameter`, {lit}`distribute?`: parameters as they are read, and their fields.
- {lit}`Grammar.parameters`, {lit}`Grammar.results?`: signatures.
- {lit}`Grammar.readType?`: a type, if one comes next.
-/

namespace WordRanges
namespace Source
namespace Parser

/-- A field of names and a type. -/
def fieldOf (names : List Ident) (type : Exp) : Field :=
  match names with
  | [] => .mk type.span [] type none
  | id :: _ => .mk (id.span.to type.span) names type none

/-! ## Parameters -/

/-- A parameter as it is read: a name, a type or both. -/
structure Parameter where
  name? : Option Ident
  type? : Option Exp

/-- The fields of parameters with names: each type belongs to the names before it. -/
def namedFields? (names : List Ident) : List Parameter → Option (List Field)
  | [] => if names.isEmpty then some [] else none
  | ⟨some id, none⟩ :: ps => namedFields? (names ++ [id]) ps
  | ⟨some id, some t⟩ :: ps => (namedFields? [] ps).map (fieldOf (names ++ [id]) t :: ·)
  | ⟨none, _⟩ :: _ => none

/-- The fields of parameters.  If no parameter has both a name and a type, all of them are
types; otherwise all of them have names. -/
def distribute? (ps : List Parameter) : Option (List Field) :=
  if ps.any fun p => p.name?.isSome && p.type?.isSome then namedFields? [] ps
  else
    ps.mapM fun p =>
      match p with
      | ⟨_, some t⟩ => some (fieldOf [] t)
      | ⟨some id, none⟩ => some (fieldOf [] (.ident id))
      | ⟨none, none⟩ => none

/-- Dots may stand only before the type of the last parameter, and only if {lit}`dots`. -/
def dotsFit (dots : Bool) : List Field → Bool
  | [] => true
  | [.mk _ names (.ellipsis _ _) _] => dots && names.length ≤ 1
  | .mk _ _ (.ellipsis _ _) _ :: _ => false
  | _ :: fields => dotsFit dots fields

namespace Grammar

variable (g : Grammar)

/-- An element in brackets after an expression, or a generic type with its arguments. -/
def indexed (x : Exp) (args : List Exp) (close : Lexeme) : Exp :=
  .index ⟨x.span.start, close.stop⟩ x args

/-- The type arguments of a generic type. -/
def typeArguments (x : Exp) : Reader Exp := do
  discard (expect .lbrack)
  let args ← nested (commaList .rbrack g.type)
  let close ← expect .rbrack
  if args.isEmpty then failure
  return indexed x args close

/-- A name that may be qualified. -/
def qualified (id : Ident) : Reader Exp := do
  if ← accept .period then
    let sel ← ident
    return .selector (id.span.to sel.span) (.ident id) sel
  else
    return .ident id

/-- A name that may be qualified and have type arguments. -/
def typeName (id : Ident) : Reader Exp := do
  let x ← qualified id
  if (← token) = .lbrack then g.typeArguments x else return x

/-- A term of a union. -/
def term : Reader Exp := do
  if (← token) = .tilde then
    let tilde ← next
    let x ← g.type
    return .unary ⟨tilde.pos, x.span.stop⟩ .tilde x
  else
    g.type

/-- The terms after the first one of a union, at most {lit}`n` of them. -/
def unionFrom (x : Exp) : Nat → Reader Exp
  | 0 => return x
  | n + 1 => do
    if ← accept .bitOr then
      let y ← g.term
      unionFrom (.binary (x.span.to y.span) .bitOr x y) n
    else return x

/-- The rest of a union after its first term. -/
def unionRest (x : Exp) : Reader Exp := do
  g.unionFrom x (← fuel)

/-- An array type after its opening bracket; the length may have been read before. -/
def arrayRest (start : Nat) (length? : Option Exp) : Reader Exp := do
  let length? ← match length? with
    | some n => pure (some n)
    | none => nested do
      match ← token with
      | .ellipsis => do
        let l ← next
        return some (.ellipsis l.span none)
      | .rbrack => return none
      | _ => return some (← g.exp)
  discard (expect .rbrack)
  let elem ← g.type
  return .array ⟨start, elem.span.stop⟩ length? elem

/-- What stands in brackets after a name: the length of an array type, for which the name
is a field or parameter, or the type arguments of a generic type. -/
def arrayOrInstance (id : Ident) : Reader Parameter := do
  let bracket ← expect .lbrack
  let args ← nested (commaListNoEnd)
  let close ← expect .rbrack
  match args with
  | ([], _) =>
    let elem ← g.type
    return ⟨some id, some (.array ⟨bracket.pos, elem.span.stop⟩ none elem)⟩
  | ([n], trailing) =>
    match ← g.type? with
    | some elem =>
      if trailing then failure
      return ⟨some id, some (.array ⟨bracket.pos, elem.span.stop⟩ (some n) elem)⟩
    | none => return ⟨none, some (indexed (.ident id) [n] close)⟩
  | (args, _) => return ⟨none, some (indexed (.ident id) args close)⟩
where
  /-- Expressions up to the closing bracket, and whether a comma stands before it. -/
  commaListNoEnd : Reader (List Exp × Bool) := do
    if (← token) = .rbrack then return ([], false)
    let x ← g.exp
    let xs ← many (return (← token) = .comma) (do
      discard next
      if (← token) = .rbrack then return none
      return some (← g.exp))
    let trailing := xs.any Option.isNone
    if (xs.dropLast).any Option.isNone then failure
    return (x :: xs.filterMap fun x => x, trailing)

/-- The type of a parameter that takes all further arguments. -/
def dotsType : Reader Exp := do
  let dots ← expect .ellipsis
  let elem ← g.type
  return .ellipsis ⟨dots.pos, elem.span.stop⟩ (some elem)

/-- The rest of a parameter that starts with a name, without further terms of a union; unions are
allowed for type parameters. -/
def parameterStart (id : Ident) (unions : Bool) : Reader Parameter := do
  match ← token with
  | .lbrack => g.arrayOrInstance id
  | .period => return ⟨none, some (← g.typeName id)⟩
  | .ellipsis => return ⟨some id, some (← g.dotsType)⟩
  | .tilde => if unions then return ⟨some id, some (← g.term)⟩ else return ⟨some id, none⟩
  | .bitOr => return if unions then ⟨none, some (.ident id)⟩ else ⟨some id, none⟩
  | _ => return ⟨some id, ← g.type?⟩

/-- The rest of a parameter that starts with a name; unions are allowed for type
parameters. -/
def parameterNamed (id : Ident) (unions : Bool) : Reader Parameter := do
  match ← g.parameterStart id unions with
  | ⟨name?, some (.ellipsis s t)⟩ => return ⟨name?, some (.ellipsis s t)⟩
  | ⟨name?, some t⟩ => return ⟨name?, some (← if unions then g.unionRest t else pure t)⟩
  | p => return p

/-- A parameter. -/
def parameter (unions : Bool) : Reader Parameter := do
  match ← token with
  | .ident => do g.parameterNamed (← ident) unions
  | .ellipsis => do return ⟨none, some (← g.dotsType)⟩
  | _ => do
    let t ← if unions then g.term else g.type
    return ⟨none, some (← if unions then g.unionRest t else pure t)⟩

/-- The fields of a parameter list up to its end, given parameters read before.  Type
parameters must have names. -/
def fieldsOf (first : List Parameter) (close : Token) (dots : Bool) : Reader (List Field) := do
  let more ← commaList close (g.parameter (close == .rbrack))
  match distribute? (first ++ more) with
  | none => failure
  | some fields =>
    if close == .rbrack && fields.any (fun | .mk _ names _ _ => names.isEmpty) then failure
    if !dotsFit dots fields then failure
    return fields

/-- Parameters or results in parentheses. -/
def parameters (isResult : Bool) : Reader FieldList := do
  let l ← expect .lparen
  let fields ← g.fieldsOf [] .rparen !isResult
  let r ← expect .rparen
  return .mk ⟨l.pos, r.stop⟩ fields

/-- Type parameters in brackets, if there are any. -/
def typeParameters? : Reader (Option FieldList) := do
  if (← token) = .lbrack then
    let l ← next
    let fields ← g.fieldsOf [] .rbrack false
    let r ← expect .rbrack
    if fields.isEmpty then failure
    return some (.mk ⟨l.pos, r.stop⟩ fields)
  else
    return none

/-- The results of a signature. -/
def results? : Reader (Option FieldList) := do
  if (← token) = .lparen then
    return some (← g.parameters true)
  else
    match ← g.type? with
    | some t => return some (.mk t.span [fieldOf [] t])
    | none => return none

/-- A signature, from where it starts. -/
def signature (start : Nat) (typeParams? : Option FieldList) : Reader Exp := do
  let params ← g.parameters false
  let results? ← g.results?
  let stop := ((results?.map (·.span.stop)).getD params.span.stop)
  return .func ⟨start, stop⟩ typeParams? params results?

/-! ## Structs and interfaces -/

/-- The names and the type of a struct field. -/
def structFieldStart : Reader Field := do
  match ← token with
  | .ident =>
    let id ← ident
    match ← token with
    | .period | .string | .semicolon | .rbrace => return fieldOf [] (← g.typeName id)
    | _ =>
      let ids ← many (accept .comma) ident
      if ids.isEmpty && (← token) = .lbrack then
        match ← g.arrayOrInstance id with
        | ⟨some id, some t⟩ => return fieldOf [id] t
        | ⟨none, some t⟩ => return fieldOf [] t
        | _ => failure
      else
        return fieldOf (id :: ids) (← g.type)
  | .mul =>
    let star ← next
    let t ← g.typeName (← ident)
    return fieldOf [] (.star ⟨star.pos, t.span.stop⟩ t)
  | _ => failure

/-- A struct field with its tag. -/
def structField : Reader Field := do
  let field ← g.structFieldStart
  if (← token) = .string then
    let tag ← next
    endStatement
    match field with
    | .mk s names t _ => return .mk ⟨s.start, tag.stop⟩ names t (some ⟨tag.span, tag.literal⟩)
  else
    endStatement
    return field

/-- A struct type after its keyword. -/
def structRest (start : Nat) : Reader Exp := do
  let l ← expect .lbrace
  let fields ← many (return (← token) ∈ [.ident, .mul, .lparen]) g.structField
  let r ← expect .rbrace
  return .struct ⟨start, r.stop⟩ (.mk ⟨l.pos, r.stop⟩ fields)

/-- A method or an embedded type of an interface that starts with a name. -/
def interfaceNamed : Reader Field := do
  let id ← ident
  match ← token with
  | .lparen => do
    let params ← g.parameters false
    let results? ← g.results?
    let stop := (results?.map (·.span.stop)).getD params.span.stop
    return fieldOf [id] (.func ⟨params.span.start, stop⟩ none params results?)
  | .lbrack => do
    discard next
    let first ← nested g.exp
    let more ← if ← accept .comma then nested (commaList .rbrack g.type) else pure []
    let close ← expect .rbrack
    return fieldOf [] (← g.unionRest (indexed (.ident id) (first :: more) close))
  | _ => do return fieldOf [] (← g.unionRest (← g.typeName id))

/-- A method or an embedded element of an interface. -/
def interfaceElement : Reader Field := do
  let isNamed := (← token) = .ident
  let field ← if isNamed then g.interfaceNamed else do pure (fieldOf [] (← g.unionRest (← g.term)))
  endStatement
  return field

/-- An interface type after its keyword. -/
def interfaceRest (start : Nat) : Reader Exp := do
  let l ← expect .lbrace
  let elems ← many (return (← token) ∈ [.ident, .tilde, .lbrack, .kwStruct, .mul, .kwFunc,
    .kwInterface, .kwMap, .kwChan, .arrow, .lparen]) g.interfaceElement
  let r ← expect .rbrace
  return .interface ⟨start, r.stop⟩ (.mk ⟨l.pos, r.stop⟩ elems)

/-! ## Types -/

/-- A channel type. -/
def chanType : Reader Exp := do
  let first ← next
  let dir ← if first.token = .kwChan then
      if ← accept .arrow then pure ChanDir.send else pure .both
    else do
      discard (expect .kwChan)
      pure .receive
  let elem ← g.type
  return .chan ⟨first.pos, elem.span.stop⟩ dir elem

/-- A function type after its keyword, without type parameters. -/
def funcType : Reader Exp := do
  let l ← expect .kwFunc
  g.signature l.pos none

/-- A type, if one comes next. -/
def readType? : Reader (Option Exp) := do
  match ← token with
  | .ident => do return some (← g.typeName (← ident))
  | .lbrack => do
    let l ← next
    return some (← g.arrayRest l.pos none)
  | .kwStruct => do return some (← g.structRest (← next).pos)
  | .mul => do
    let l ← next
    let t ← g.type
    return some (.star ⟨l.pos, t.span.stop⟩ t)
  | .kwFunc => do return some (← g.funcType)
  | .kwInterface => do return some (← g.interfaceRest (← next).pos)
  | .kwMap => do
    let l ← next
    discard (expect .lbrack)
    let key ← g.type
    discard (expect .rbrack)
    let value ← g.type
    return some (.map ⟨l.pos, value.span.stop⟩ key value)
  | .kwChan | .arrow => do return some (← g.chanType)
  | .lparen => do
    let l ← next
    let t ← g.type
    let r ← expect .rparen
    return some (.paren ⟨l.pos, r.stop⟩ t)
  | _ => return none

end Grammar
end Parser
end Source
end WordRanges
