import WordRanges.Analysis.Operand

/-!
# Diagnostics

A comparison of an integer expression with a constant is worth a diagnostic if it comes
out the same for all values that the expression can have.

Main definitions:

- {lit}`Finding`, {lit}`findingOf?`: what is found out about a comparison.
- {lit}`Finding.message` and {lit}`Finding.related`: how it is reported.
-/

namespace WordRanges

open Source

/-- A comparison that always has the same outcome. -/
structure Finding where
  outcome : Bool
  /-- The side of the comparison that is not constant. -/
  subject : Expr
  /-- That side is the left one. -/
  onLeft : Bool
  /-- The values of that side. -/
  operand : Operand

namespace Finding

/-- The message about a comparison, given the text of the side that is not constant. -/
def messageFor (f : Finding) (subject : String) : String :=
  "comparison is always " ++ (if f.outcome then "true" else "false") ++ ": " ++ subject
    ++ " is in " ++ f.operand.text

/-- The message about a comparison. -/
def message (f : Finding) : String :=
  f.messageFor f.subject.text

/-- Where the type parameter of the compared expression is declared, and what is said
about it. -/
def related (f : Finding) : List (Nat × String) :=
  let line (p : TypeParam) : Nat × String :=
    (p.pos, p.name ++ " is constrained by " ++ p.constraint)
  (f.subject.note.param?.map line).toList

end Finding

/-- The constant that is compared, and whether it stands on the right, where it is looked for
first; two constants are not compared. -/
def constantSide? (x y : Expr) : Option (Bool × Int) :=
  match y.integer? with
  | some k => if x.integer?.isSome then none else some (true, k)
  | none => x.integer?.map fun k => (false, k)

/-- What is found out about a comparison, if it always has the same outcome. -/
def findingOf? (op : Comparison) (x y : Expr) : Option Finding := do
  let (onRight, k) ← constantSide? x y
  let subject := if onRight then x else y
  let operand ← subject.operand?
  let word ← (Constant.int k).word? operand.unsigned
  let op := if onRight then op else op.flip
  let outcome ← op.decide? operand.value operand.unsigned word
  return ⟨outcome, subject, onRight, operand⟩

/-- What is found out about all comparisons within an expression, outer ones first. -/
def Expr.findings (x : Expr) : List Finding :=
  x.binaries.filterMap fun (op, x, y) => do findingOf? (← Comparison.ofToken? op) x y

end WordRanges
