import WordRanges.Source.Lexer
import WordRanges.Source.Tree

/-!
# Reading source trees: the basis

A reader takes lexemes from the front and may fail.  Grammars are recursive, so readers get
the readers for nested parts as a record; the record for a nesting depth is made from the
one for the depth below.

Main definitions:

- {lit}`Reader`: readers of lexemes.
- {lit}`Grammar`: the readers for nested parts.
- {lit}`many`, {lit}`commaList`: sequences.
-/

namespace WordRanges
namespace Source
namespace Parser

/-- The lexemes to read, and whether a brace may open a composite literal: not at a negative
level, which is that of the head of a statement with a block. -/
structure State where
  rest : List Lexeme
  level : Int

/-- A reader of lexemes. -/
abbrev Reader := StateT State Option

/-- The next lexeme, which stays. -/
def peek : Reader Lexeme := do
  match (← get).rest with
  | [] => failure
  | l :: _ => return l

/-- The token of the next lexeme. -/
def token : Reader Token := do
  return (← peek).token

/-- Take the next lexeme. -/
def next : Reader Lexeme := do
  let s ← get
  match s.rest with
  | [] => failure
  | l :: rest => set { s with rest }; return l

/-- Take a given token or fail. -/
def expect (t : Token) : Reader Lexeme := do
  let l ← next
  if l.token = t then return l else failure

/-- Take a token if it comes next. -/
def accept (t : Token) : Reader Bool := do
  if (← token) = t then
    discard next
    return true
  else
    return false

/-- Read at a level of its own. -/
def atLevel {α : Type} (change : Int → Int) (r : Reader α) : Reader α := do
  let before := (← get).level
  modify fun s => { s with level := change before }
  let x ← r
  modify fun s => { s with level := before }
  return x

/-- Read inside brackets, where braces may open composite literals. -/
def nested {α : Type} (r : Reader α) : Reader α :=
  atLevel (· + 1) r

/-- Take the end of a statement, which may be left out before a closing bracket. -/
def endStatement : Reader Unit := do
  match ← token with
  | .rparen | .rbrace => return
  | .semicolon => discard next
  | _ => failure

/-- A name. -/
def ident : Reader Ident := do
  let l ← expect .ident
  return ⟨l.pos, l.text⟩

/-- The number of lexemes that are left, as a bound on how often to read. -/
def fuel : Reader Nat := do
  return (← get).rest.length + 1

/-- Read while a condition holds, at most {lit}`n` times. -/
def manyWithin {α : Type} (more : Reader Bool) (r : Reader α) : Nat → Reader (List α)
  | 0 => return []
  | n + 1 => do
    if ← more then
      let x ← r
      let xs ← manyWithin more r n
      return x :: xs
    else return []

/-- Read while a condition holds. -/
def many {α : Type} (more : Reader Bool) (r : Reader α) : Reader (List α) := do
  manyWithin more r (← fuel)

/-- Items between commas up to a closing token, which stays; a comma may stand before it. -/
def commaListWithin {α : Type} (close : Token) (r : Reader α) : Nat → Reader (List α)
  | 0 => failure
  | n + 1 => do
    if (← token) = close then return []
    let x ← r
    if ← accept .comma then
      return x :: (← commaListWithin close r n)
    else if (← token) = close then return [x]
    else failure

/-- Items between commas up to a closing token, which stays. -/
def commaList {α : Type} (close : Token) (r : Reader α) : Reader (List α) := do
  commaListWithin close r (← fuel)

/-- One or more items between commas. -/
def sepList {α : Type} (r : Reader α) : Reader (List α) := do
  let x ← r
  let xs ← many (accept .comma) r
  return x :: xs

/-- What a statement may be: with a label, as the head of a loop over a range, or neither. -/
inductive Mode where
  | basic
  | labels
  | ranges
deriving DecidableEq

/-- The readers for nested parts. -/
structure Grammar where
  /-- An expression whose operators bind at least as tightly as a precedence. -/
  binary : Nat → Reader Exp
  /-- An operand with the prefix operators before it. -/
  unary : Reader Exp
  /-- A type, if one comes next. -/
  type? : Reader (Option Exp)
  stm : Reader Stm
  ifElse : Reader Stm

/-- The readers at no depth, which fail. -/
def Grammar.bottom : Grammar where
  binary _ := failure
  unary := failure
  type? := failure
  stm := failure
  ifElse := failure

namespace Grammar

/-- An expression. -/
def exp (g : Grammar) : Reader Exp :=
  g.binary 1

/-- A type. -/
def type (g : Grammar) : Reader Exp := do
  match ← g.type? with
  | some t => return t
  | none => failure

/-- Expressions between commas. -/
def exps (g : Grammar) : Reader (List Exp) :=
  sepList g.exp

end Grammar
end Parser
end Source
end WordRanges
