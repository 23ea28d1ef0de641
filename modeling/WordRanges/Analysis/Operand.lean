import WordRanges.Analysis.Comparison
import WordRanges.Analysis.Expr

/-!
# The values of integer expressions

Which values an integer expression can have follows from its type and, for some
operations, from their operands: a conversion that loses nothing keeps the values of its
operand, a mask makes bits zero, an or makes bits one, and a remainder is smaller than
the divisor and has the sign of the dividend.

Main definitions:

- {lit}`Operand`, {lit}`Operand.ofTerms?`: the values of an expression, and those of a type.
- {lit}`Expr.operand?`: the values of an expression.
-/

namespace WordRanges

open Source

/-- The set of values that an integer expression can have. -/
structure Operand where
  value : Value 64
  /-- All values of the type of the expression. -/
  domain : Value 64
  /-- Whether the values are compared in unsigned order. -/
  unsigned : Bool
deriving DecidableEq, Repr

namespace Operand

/-- The order of the values of some integer types: unsigned if all of them are, signed if
none of them is. -/
def unsigned? (terms : List BasicType) : Option Bool :=
  if terms.isEmpty then none
  else if terms.all (·.isUnsigned) then some true
  else if terms.all (!·.isUnsigned) then some false
  else none

/-- The smallest set that contains the values of all of some integer types. -/
def domain? : List BasicType → Option (Value 64)
  | [] => none
  | b :: bs => bs.foldlM (fun v b => b.values?.map (integerPolicy.hull v)) =<< b.values?

/-- All values of an expression that may have any of some integer types. -/
def ofTerms? (terms : List BasicType) : Option Operand := do
  let unsigned ← unsigned? terms
  let domain ← domain? terms
  return ⟨domain, domain, unsigned⟩

/-- The operand with its values restricted to a set, unless nothing would be left. -/
def restrict (x : Operand) (set : Value 64) : Operand :=
  match integerPolicy.intersect? x.domain set with
  | some v => { x with value := v }
  | none => x

/-- The text of the values in the order of the type.  A single unsigned value is its number. -/
def text (x : Operand) : String :=
  if x.unsigned then
    match x.value.constant? with
    | some c => Word.unsignedText c
    | none => x.value.constraint.unsigned.unsignedText
  else
    x.value.constraint.signed.signedText

end Operand

/-! ## Sets made by operations -/

/-- The word of a constant operand, in the order of an expression. -/
def Expr.word? (x : Expr) (unsigned : Bool) : Option (BitVec 64) :=
  x.integer?.bind fun n => (Constant.int n).word? unsigned

/-- The constant operand of an operation in which either one may be it; the second one is
preferred. -/
def eitherWord? (x y : Expr) (unsigned : Bool) : Option (BitVec 64) :=
  match y.integer? with
  | some n => (Constant.int n).word? unsigned
  | none => x.word? unsigned

/-- The results of masking with a constant. -/
def maskSet? (k : BitVec 64) : Option (Value 64) :=
  integerPolicy.make? { Constraint.full 64 with bits := ⟨~~~k, 0⟩ } 0

/-- The results of an or with a constant. -/
def orSet? (k : BitVec 64) : Option (Value 64) :=
  integerPolicy.make? { Constraint.full 64 with bits := ⟨0, k⟩ } 0

/-- The remainders of unsigned division by a constant. -/
def uremSet? (k : BitVec 64) : Option (Value 64) :=
  if k = 0 then none else integerPolicy.urange? 0 (k - 1)

/-- The remainders of signed division by a constant, given the dividend's values: they
are smaller than the divisor and have the sign of the dividend. -/
def sremSet? (dividend : Option Operand) (k : BitVec 64) : Option (Value 64) :=
  if k = 0 ∨ k = BitVec.intMin 64 then none
  else
    let top := (if k.msb then -k else k) - 1
    let lo :=
      match dividend with
      | some x => if x.value.lo.msb then -top else 0
      | none => -top
    let hi :=
      match dividend with
      | some x => if x.value.hi.sle 0 then 0 else top
      | none => top
    integerPolicy.range? lo hi

/-! ## Inference -/

/-- The values that an expression can have; nothing if it may be no integer, or if its
type mixes signed and unsigned integers. -/
def Expr.operand? : Expr → Option Operand
  | .paren x => x.operand?
  | .atom n _ => Operand.ofTerms? n.terms
  | .call n _ _ => Operand.ofTerms? n.terms
  | .unary n _ _ => Operand.ofTerms? n.terms
  | .conversion n _ x => do
    let out ← Operand.ofTerms? n.terms
    match x.operand? with
    | some arg =>
      if arg.value.IsSubset out.domain then return { out with value := arg.value }
      else return out
    | none => return out
  | .binary n op x y => do
    let out ← Operand.ofTerms? n.terms
    let set? :=
      match op with
      | .bitAnd => (eitherWord? x y out.unsigned).bind maskSet?
      | .bitOr => (eitherWord? x y out.unsigned).bind orSet?
      | .rem =>
        match y.word? out.unsigned with
        | none => none
        | some k => if out.unsigned then uremSet? k else sremSet? x.operand? k
      | _ => none
    match set? with
    | some set => return out.restrict set
    | none => return out

end WordRanges
