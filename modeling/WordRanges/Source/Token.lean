/-!
# Tokens of Go source

The tokens that Go source is made of: names and literals, operators and delimiters, and
keywords.

Main definitions:

- {lit}`Token` and {lit}`Token.text`: the tokens and how they are written.
- {lit}`Token.precedence`: how tightly a binary operator binds.
-/

namespace WordRanges
namespace Source

/-- A kind of token. -/
inductive Token where
  | illegal | eof | comment | ident | int | float | imag | char
  | string
  | add | sub | mul | quo | rem | bitAnd | bitOr | bitXor
  | shl | shr | andNot | addAssign | subAssign | mulAssign | quoAssign | remAssign
  | andAssign | orAssign | xorAssign | shlAssign | shrAssign | andNotAssign | logicalAnd | logicalOr
  | arrow | inc | dec | eq | lt | gt | assign | not
  | ne | le | ge | define | ellipsis | lparen | lbrack | lbrace
  | comma | period | rparen | rbrack | rbrace | semicolon | colon | tilde
  | kwBreak | kwCase | kwChan | kwConst | kwContinue | kwDefault | kwDefer | kwElse
  | kwFallthrough | kwFor | kwFunc | kwGo | kwGoto | kwIf | kwImport | kwInterface
  | kwMap | kwPackage | kwRange | kwReturn | kwSelect | kwStruct | kwSwitch | kwType
  | kwVar
deriving DecidableEq, Repr

namespace Token

/-- How a token is written; kinds of names and literals, which are written in many ways,
have a name in capitals. -/
def text : Token → String
  | .illegal => "ILLEGAL"
  | .eof => "EOF"
  | .comment => "COMMENT"
  | .ident => "IDENT"
  | .int => "INT"
  | .float => "FLOAT"
  | .imag => "IMAG"
  | .char => "CHAR"
  | .string => "STRING"
  | .add => "+"
  | .sub => "-"
  | .mul => "*"
  | .quo => "/"
  | .rem => "%"
  | .bitAnd => "&"
  | .bitOr => "|"
  | .bitXor => "^"
  | .shl => "<<"
  | .shr => ">>"
  | .andNot => "&^"
  | .addAssign => "+="
  | .subAssign => "-="
  | .mulAssign => "*="
  | .quoAssign => "/="
  | .remAssign => "%="
  | .andAssign => "&="
  | .orAssign => "|="
  | .xorAssign => "^="
  | .shlAssign => "<<="
  | .shrAssign => ">>="
  | .andNotAssign => "&^="
  | .logicalAnd => "&&"
  | .logicalOr => "||"
  | .arrow => "<-"
  | .inc => "++"
  | .dec => "--"
  | .eq => "=="
  | .lt => "<"
  | .gt => ">"
  | .assign => "="
  | .not => "!"
  | .ne => "!="
  | .le => "<="
  | .ge => ">="
  | .define => ":="
  | .ellipsis => "..."
  | .lparen => "("
  | .lbrack => "["
  | .lbrace => "\x7b"
  | .comma => ","
  | .period => "."
  | .rparen => ")"
  | .rbrack => "]"
  | .rbrace => "\x7d"
  | .semicolon => ";"
  | .colon => ":"
  | .tilde => "~"
  | .kwBreak => "break"
  | .kwCase => "case"
  | .kwChan => "chan"
  | .kwConst => "const"
  | .kwContinue => "continue"
  | .kwDefault => "default"
  | .kwDefer => "defer"
  | .kwElse => "else"
  | .kwFallthrough => "fallthrough"
  | .kwFor => "for"
  | .kwFunc => "func"
  | .kwGo => "go"
  | .kwGoto => "goto"
  | .kwIf => "if"
  | .kwImport => "import"
  | .kwInterface => "interface"
  | .kwMap => "map"
  | .kwPackage => "package"
  | .kwRange => "range"
  | .kwReturn => "return"
  | .kwSelect => "select"
  | .kwStruct => "struct"
  | .kwSwitch => "switch"
  | .kwType => "type"
  | .kwVar => "var"

/-- The kinds of names and literals, and the marks that are not written. -/
def classes : List Token :=
  [.illegal, .eof, .comment, .ident, .int, .float, .imag, .char, .string]

/-- The operators and delimiters. -/
def operators : List Token :=
  [.add, .sub, .mul, .quo, .rem, .bitAnd, .bitOr, .bitXor, .shl, .shr, .andNot, .addAssign,
    .subAssign, .mulAssign, .quoAssign, .remAssign, .andAssign, .orAssign, .xorAssign, .shlAssign,
    .shrAssign, .andNotAssign, .logicalAnd, .logicalOr, .arrow, .inc, .dec, .eq, .lt, .gt,
    .assign, .not, .ne, .le, .ge, .define, .ellipsis, .lparen, .lbrack, .lbrace, .comma, .period,
    .rparen, .rbrack, .rbrace, .semicolon, .colon, .tilde]

/-- The keywords. -/
def keywords : List Token :=
  [.kwBreak, .kwCase, .kwChan, .kwConst, .kwContinue, .kwDefault, .kwDefer, .kwElse,
    .kwFallthrough, .kwFor, .kwFunc, .kwGo, .kwGoto, .kwIf, .kwImport, .kwInterface, .kwMap,
    .kwPackage, .kwRange, .kwReturn, .kwSelect, .kwStruct, .kwSwitch, .kwType, .kwVar]

/-- All tokens. -/
def all : List Token :=
  classes ++ operators ++ keywords

/-- The token that is written in a given way. -/
def ofText? (s : String) : Option Token :=
  all.find? fun t => t.text == s

/-- The keyword that is written in a given way. -/
def keyword? (s : String) : Option Token :=
  keywords.find? fun t => t.text == s

/-- How tightly a binary operator binds, from one to five; zero for any other token. -/
def precedence : Token → Nat
  | .logicalOr => 1
  | .logicalAnd => 2
  | .eq | .ne | .lt | .le | .gt | .ge => 3
  | .add | .sub | .bitOr | .bitXor => 4
  | .mul | .quo | .rem | .shl | .shr | .bitAnd | .andNot => 5
  | _ => 0

/-- The binary operator of an operator that also assigns. -/
def ofAssign? : Token → Option Token
  | .addAssign => some .add
  | .subAssign => some .sub
  | .mulAssign => some .mul
  | .quoAssign => some .quo
  | .remAssign => some .rem
  | .andAssign => some .bitAnd
  | .orAssign => some .bitOr
  | .xorAssign => some .bitXor
  | .shlAssign => some .shl
  | .shrAssign => some .shr
  | .andNotAssign => some .andNot
  | _ => none

end Token
end Source
end WordRanges
