import WordRanges.Analysis.Expr
import WordRanges.Source.ExpText
import WordRanges.Typing.Package

/-!
# From source to typed expressions

The expressions of a checked package with what is known of them.

Main definitions:

- {lit}`annotate`: the typed expression of an expression.
-/

namespace WordRanges

open Source

/-- What the check of a package tells of an expression. -/
def noteOf (s : Typing.State) (e : Exp) : Note :=
  match s.records[e.span]? with
  | some r => .ofType s.env r.type r.value?
  | none => ⟨[], none, none⟩

/-- The expression is a type. -/
def isTypeExp (s : Typing.State) (e : Exp) : Bool :=
  match s.records[e.span]? with
  | some r => r.isType
  | none => false

mutual

/-- The typed expression of an expression.  Operators, parentheses, conversions and calls are
looked into. -/
def annotate (s : Typing.State) : Exp → Expr
  | .paren _ x => .paren (annotate s x)
  | .unary span op x => .unary (noteOf s (.unary span op x)) op (annotate s x)
  | .binary span op x y =>
    .binary (noteOf s (.binary span op x y)) op (annotate s x) (annotate s y)
  | .call span fn [x] spread =>
    let note := noteOf s (.call span fn [x] spread)
    if isTypeExp s fn then .conversion note fn.text (annotate s x)
    else if spread then .atom note (Exp.call span fn [x] spread).text
    else .call note fn.text [annotate s x]
  | .call span fn args false =>
    .call (noteOf s (.call span fn args false)) fn.text (annotateAll s args)
  | e => .atom (noteOf s e) e.text

/-- The typed expressions of expressions. -/
def annotateAll (s : Typing.State) : List Exp → List Expr
  | [] => []
  | x :: xs => annotate s x :: annotateAll s xs

end

end WordRanges
