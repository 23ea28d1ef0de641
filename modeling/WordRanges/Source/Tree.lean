import WordRanges.Source.Position
import WordRanges.Source.Token
import WordRanges.Source.Types

/-!
# Trees of Go source

Declarations, statements and expressions as they are written, each with its place.  Types
are written as expressions, since only their context tells them apart.

Main definitions:

- {lit}`Exp`, {lit}`Stm`, {lit}`Decl`: expressions, statements and declarations.
- {lit}`SourceUnit`: a whole file.
- {lit}`Exp.span`, {lit}`Stm.span`, {lit}`Decl.span`: where they stand.
-/

namespace WordRanges
namespace Source

/-- A name at its place. -/
structure Ident where
  pos : Nat
  name : String
deriving DecidableEq, Repr, Inhabited

/-- Where a name stands. -/
def Ident.span (id : Ident) : Span :=
  ⟨id.pos, id.pos + id.name.utf8ByteSize⟩

/-- A text literal at its place, which is the tag of a field. -/
structure Tag where
  span : Span
  text : String

mutual

/-- An expression or a type. -/
inductive Exp where
  | ident (id : Ident)
  | literal (span : Span) (kind : Token) (text : String)
  | composite (span : Span) (type? : Option Exp) (elems : List Exp)
  | funcLit (span : Span) (signature : Exp) (body : Block)
  | paren (span : Span) (x : Exp)
  | selector (span : Span) (x : Exp) (name : Ident)
  /-- An element, or a generic type or function with type arguments. -/
  | index (span : Span) (x : Exp) (indices : List Exp)
  | slice (span : Span) (x : Exp) (lo? hi? max? : Option Exp)
  /-- A type assertion; without a type it belongs to a type switch. -/
  | typeAssert (span : Span) (x : Exp) (type? : Option Exp)
  | call (span : Span) (fn : Exp) (args : List Exp) (spread : Bool)
  | star (span : Span) (x : Exp)
  | unary (span : Span) (op : Token) (x : Exp)
  | binary (span : Span) (op : Token) (x y : Exp)
  | keyValue (span : Span) (key value : Exp)
  | ellipsis (span : Span) (elem? : Option Exp)
  /-- An array type, or a slice type if there is no length. -/
  | array (span : Span) (length? : Option Exp) (elem : Exp)
  | struct (span : Span) (fields : FieldList)
  | func (span : Span) (typeParams? : Option FieldList) (params : FieldList)
      (results? : Option FieldList)
  | interface (span : Span) (elems : FieldList)
  | map (span : Span) (key value : Exp)
  | chan (span : Span) (dir : ChanDir) (elem : Exp)

/-- Parameters, results, fields or methods. -/
inductive FieldList where
  | mk (span : Span) (fields : List Field)

/-- Names of one type; without names the type stands alone. -/
inductive Field where
  | mk (span : Span) (names : List Ident) (type : Exp) (tag? : Option Tag)

/-- A statement. -/
inductive Stm where
  | empty (span : Span)
  | exp (x : Exp)
  | labeled (span : Span) (label : Ident) (body : Stm)
  | send (span : Span) (channel value : Exp)
  | incDec (span : Span) (op : Token) (x : Exp)
  | assign (span : Span) (op : Token) (lhs rhs : List Exp)
  | goCall (span : Span) (call : Exp)
  | deferCall (span : Span) (call : Exp)
  | returns (span : Span) (results : List Exp)
  | branch (span : Span) (token : Token) (label? : Option Ident)
  | block (b : Block)
  | ifElse (span : Span) (init? : Option Stm) (cond : Exp) (body : Block) (else? : Option Stm)
  | switch (span : Span) (init? : Option Stm) (tag? : Option Exp) (body : Span)
      (clauses : List Clause)
  /-- A type switch; {lit}`guard` is the expression or definition that it switches on. -/
  | typeSwitch (span : Span) (init? : Option Stm) (guard : Stm) (body : Span)
      (clauses : List Clause)
  | select (span : Span) (body : Span) (clauses : List CommClause)
  | loop (span : Span) (init? : Option Stm) (cond? : Option Exp) (post? : Option Stm)
      (body : Block)
  | range (span : Span) (key? value? : Option Exp) (define : Bool) (x : Exp) (body : Block)
  | decl (d : Decl)

/-- Statements between braces. -/
inductive Block where
  | mk (span : Span) (body : List Stm)

/-- A clause of a switch; the default clause has no cases. -/
inductive Clause where
  | mk (span : Span) (isDefault : Bool) (cases : List Exp) (body : List Stm)

/-- A clause of a select; the default clause has no communication. -/
inductive CommClause where
  | mk (span : Span) (comm? : Option Stm) (body : List Stm)

/-- A declaration. -/
inductive Decl where
  | general (span : Span) (keyword : Token) (specs : List Spec)
  | func (span : Span) (receiver? : Option FieldList) (name : Ident) (signature : Exp)
      (body? : Option Block)

/-- A part of a declaration. -/
inductive Spec where
  | imports (span : Span) (name? : Option Ident) (path : Span)
  | value (span : Span) (names : List Ident) (type? : Option Exp) (values : List Exp)
  | type (span : Span) (name : Ident) (typeParams? : Option FieldList) (isAlias : Bool)
      (type : Exp)

end

instance : Inhabited Exp := ⟨.ident default⟩

/-- The declarations of a file. -/
structure SourceUnit where
  /-- Where the package clause starts, and where the last declaration ends. -/
  span : Span
  package : Ident
  decls : List Decl
  /-- The version of the language that the file is written in, if it tells. -/
  version? : Option Nat := none

/-! ## Places -/

/-- Where an expression stands. -/
def Exp.span : Exp → Span
  | .ident id => id.span
  | .literal s _ _ | .composite s _ _ | .funcLit s _ _ | .paren s _ | .selector s _ _
  | .index s _ _ | .slice s _ _ _ _ | .typeAssert s _ _ | .call s _ _ _ | .star s _
  | .unary s _ _ | .binary s _ _ _ | .keyValue s _ _ | .ellipsis s _ | .array s _ _
  | .struct s _ | .func s _ _ _ | .interface s _ | .map s _ _ | .chan s _ _ => s

/-- Where fields stand. -/
def FieldList.span : FieldList → Span
  | .mk s _ => s

/-- The fields of a list. -/
def FieldList.fields : FieldList → List Field
  | .mk _ fields => fields

/-- Where a field stands. -/
def Field.span : Field → Span
  | .mk s _ _ _ => s

/-- Where a block stands. -/
def Block.span : Block → Span
  | .mk s _ => s

/-- The statements of a block. -/
def Block.body : Block → List Stm
  | .mk _ body => body

/-- Where a declaration stands. -/
def Decl.span : Decl → Span
  | .general s _ _ => s
  | .func s _ _ _ _ => s

/-- Where a part of a declaration stands. -/
def Spec.span : Spec → Span
  | .imports s _ _ => s
  | .value s _ _ _ => s
  | .type s _ _ _ _ => s

/-- Where a statement stands. -/
def Stm.span : Stm → Span
  | .empty s | .labeled s _ _ | .send s _ _ | .incDec s _ _ | .assign s _ _ _ | .goCall s _
  | .deferCall s _ | .returns s _ | .branch s _ _ | .ifElse s _ _ _ _ | .switch s _ _ _ _
  | .typeSwitch s _ _ _ _ | .select s _ _ | .loop s _ _ _ _ | .range s _ _ _ _ _ => s
  | .exp x => x.span
  | .block b => b.span
  | .decl d => d.span

/-- The expression without parentheses around it. -/
def Exp.unparen : Exp → Exp
  | .paren _ x => x.unparen
  | x => x

end Source
end WordRanges
