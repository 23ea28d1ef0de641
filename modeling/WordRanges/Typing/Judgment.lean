import WordRanges.Source.Constant.Arithmetic
import WordRanges.Source.Tree
import WordRanges.Typing.Member

/-!
# Names and judgments

What names stand for, and what is found out about expressions: whether they are types,
constants, variables or other values, and which type they have.

Main definitions:

- {lit}`Entity`: what a name stands for.
- {lit}`Judgment`: an expression with what it stands for.
- {lit}`predeclared?`: the names that are declared everywhere.
-/

namespace WordRanges
namespace Typing

open Source

/-- A function that is part of the language. -/
inductive Builtin where
  | append | cap | clear | close | complex | copy | delete | imag | len | make | max | min | new
  | panic | print | println | real | recover
deriving DecidableEq, Repr

/-- The name of a function of the language. -/
def Builtin.name : Builtin → String
  | .append => "append"
  | .cap => "cap"
  | .clear => "clear"
  | .close => "close"
  | .complex => "complex"
  | .copy => "copy"
  | .delete => "delete"
  | .imag => "imag"
  | .len => "len"
  | .make => "make"
  | .max => "max"
  | .min => "min"
  | .new => "new"
  | .panic => "panic"
  | .print => "print"
  | .println => "println"
  | .real => "real"
  | .recover => "recover"

/-- All functions of the language. -/
def Builtin.all : List Builtin :=
  [.append, .cap, .clear, .close, .complex, .copy, .delete, .imag, .len, .make, .max, .min, .new,
    .panic, .print, .println, .real, .recover]

/-- A call is a statement of its own, not only a value. -/
def Builtin.isStatement : Builtin → Bool
  | .clear | .close | .copy | .delete | .panic | .print | .println | .recover => true
  | _ => false

/-- What a name stands for. -/
inductive Entity where
  | constant (type : Ty) (value : Constant)
  /-- The index of a constant within its declaration. -/
  | iota
  | nil
  /-- A type; a generic one is without its arguments. -/
  | type (t : Ty)
  /-- A further name of the types that a generic type gives. -/
  | genericAlias (name : String) (params : List Nat) (target : Ty)
  | variable (type : Ty)
  | function (typeParams : List Nat) (type : Ty)
  | builtin (b : Builtin)

/-- The names that are declared everywhere, other than those of functions. -/
def predeclaredNames : List (String × Entity) :=
  let named (b : BasicType) : String × Entity := (b.name, .type (.basic b))
  [.bool, .int, .int8, .int16, .int32, .int64, .uint, .uint8, .uint16, .uint32, .uint64, .uintptr,
    .float32, .float64, .complex64, .complex128, .string, .byte, .rune].map named
  ++ [("error", .type (.named errorId [])), ("comparable", .type (.named comparableId [])),
    ("any", .type (.alias "any" [] (.interface [] [] [] false))),
    ("true", .constant (.basic .untypedBool) (.bool true)),
    ("false", .constant (.basic .untypedBool) (.bool false)), ("iota", .iota), ("nil", .nil)]

/-- What a name stands for that is declared everywhere. -/
def predeclared? (name : String) : Option Entity :=
  match predeclaredNames.lookup name with
  | some e => some e
  | none => (Builtin.all.find? fun b => b.name == name).map .builtin

/-- The types that are declared everywhere. -/
def predeclaredTypes : TypeEnv where
  named := #[
    ⟨"error", [], .interface ["Error"] [.func [] [""] [] [.basic .string] false] [] false, [], []⟩,
    ⟨"comparable", [], .interface [] [] [] false, [], []⟩]
  params := #[]

/-! ## Judgments -/

/-- What an expression stands for. -/
inductive Mode where
  /-- A call without results. -/
  | nothing
  | builtin (b : Builtin)
  | type
  | constant (value : Constant)
  /-- A value with an address. -/
  | variable
  /-- An element of a map. -/
  | mapElem
  | value
  /-- A value that may come with a truth value that tells whether there was one. -/
  | commaOk

/-- An expression with what it stands for and its type. -/
structure Judgment where
  exp : Exp
  mode : Mode
  type : Ty
  /-- The type parameters of a generic function or further name, each with its argument as far as
  these are written; there are none once all arguments are known. -/
  typeParams : List (Nat × Option Ty) := []
  /-- The expression can be a statement of its own. -/
  isStatement : Bool := false

namespace Judgment

/-- The value of a constant expression. -/
def constant? (j : Judgment) : Option Constant :=
  match j.mode with
  | .constant v => some v
  | _ => none

/-- The expression is a type. -/
def isType (j : Judgment) : Bool :=
  match j.mode with
  | .type => true
  | _ => false

/-- The expression has an address. -/
def isVariable (j : Judgment) : Bool :=
  match j.mode with
  | .variable => true
  | _ => false

/-- The expression is a value of some kind. -/
def isValue (j : Judgment) : Bool :=
  match j.mode with
  | .nothing | .builtin _ | .type => false
  | .constant _ | .variable | .mapElem | .value | .commaOk => true

/-- The expression is the constant without a type that pointers and the like can be. -/
def isNil (j : Judgment) : Bool :=
  j.isValue && TypeEnv.isNil j.type

/-- The judgment with a value that is not constant. -/
def asValue (j : Judgment) : Judgment :=
  { j with mode := .value }

end Judgment
end Typing
end WordRanges
