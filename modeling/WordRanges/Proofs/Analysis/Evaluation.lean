import WordRanges.Analysis.Operand
import WordRanges.Proofs.Analysis.Integers

/-!
# Evaluating integer expressions

The integers that an expression can have when it is evaluated.  Constants have their exact
value.  Conversions, masks, ors and remainders are computed from their operands; any other
expression can have every integer of its type, however often it occurs.

Which shape the type of an expression has is read off its note by a function
{lit}`shape?`, which has no answer for types that are not looked at.  If types are type
parameters, expressions are typed more freely: a conversion to a type parameter is not constant
even if its operand is.

Main results:

- Theorem {lit}`Expr.HasValue.eq_of_integer?`: a constant has one value.
- Theorem {lit}`Expr.HasValue.holds`: the values of a typed expression are integers of its type.
-/

namespace WordRanges

open Source Source.BasicType

/-- The shape of a type that is one basic integer type. -/
def Note.shape? (n : Note) : Option IntegerShape :=
  match n.terms with
  | [b] => b.integer?
  | _ => none

namespace Expr

/-- An expression that is not looked into: a conversion of something that is no integer, or
anything but a conversion, a mask, an or, a remainder or parentheses. -/
def isLeaf : Expr → Bool
  | .atom _ _ => true
  | .call _ _ _ => true
  | .unary _ _ _ => true
  | .binary _ op _ _ => op != .bitAnd && op != .bitOr && op != .rem
  | .paren _ => false
  | .conversion _ _ x => x.note.terms.isEmpty

/-- Evaluating an expression can give an integer. -/
inductive HasValue (shape? : Note → Option IntegerShape) : Expr → Int → Prop where
  | constant {x : Expr} {k : Int} (h : x.integer? = some k) : HasValue shape? x k
  | leaf {x : Expr} {s : IntegerShape} {v : Int} (hleaf : x.isLeaf = true)
      (hvaries : x.note.value? = none) (hshape : shape? x.note = some s) (hv : s.Holds v) :
      HasValue shape? x v
  | paren {x : Expr} {v : Int} (hx : HasValue shape? x v) : HasValue shape? (.paren x) v
  | conversion {n : Note} {target : String} {x : Expr} {s : IntegerShape} {v : Int}
      (hvaries : n.value? = none) (hshape : shape? n = some s) (hx : HasValue shape? x v) :
      HasValue shape? (.conversion n target x) (s.wrap v)
  | bitAnd {n : Note} {x y : Expr} {s : IntegerShape} {a b : Int} (hvaries : n.value? = none)
      (hshape : shape? n = some s) (hx : HasValue shape? x a) (hy : HasValue shape? y b) :
      HasValue shape? (.binary n .bitAnd x y) (s.bitAnd a b)
  | bitOr {n : Note} {x y : Expr} {s : IntegerShape} {a b : Int} (hvaries : n.value? = none)
      (hshape : shape? n = some s) (hx : HasValue shape? x a) (hy : HasValue shape? y b) :
      HasValue shape? (.binary n .bitOr x y) (s.bitOr a b)
  /-- The remainder of division towards zero; there is none by zero. -/
  | rem {n : Note} {x y : Expr} {a b : Int} (hvaries : n.value? = none)
      (hx : HasValue shape? x a) (hy : HasValue shape? y b) (hb : b ≠ 0) :
      HasValue shape? (.binary n .rem x y) (a.tmod b)

mutual

/-- What type checking guarantees of an expression that is not constant: it and its parts
have types with shapes, and operations on constants only are constant themselves. -/
inductive IsTyped (shape? : Note → Option IntegerShape) : Expr → Prop where
  | leaf {x : Expr} {s : IntegerShape} (hleaf : x.isLeaf = true) (hvaries : x.note.value? = none)
      (hshape : shape? x.note = some s) : IsTyped shape? x
  | paren {x : Expr} (hx : IsTyped shape? x) : IsTyped shape? (.paren x)
  | conversion {n : Note} {target : String} {x : Expr} {s : IntegerShape}
      (hvaries : n.value? = none) (hshape : shape? n = some s) (hx : IsTyped shape? x) :
      IsTyped shape? (.conversion n target x)
  | operation {n : Note} {op : Token} {x y : Expr} {s : IntegerShape}
      (hop : op = .bitAnd ∨ op = .bitOr ∨ op = .rem) (hvaries : n.value? = none)
      (hshape : shape? n = some s) (hx : IsOperand shape? s x) (hy : IsOperand shape? s y)
      (hone : x.integer? = none ∨ y.integer? = none) : IsTyped shape? (.binary n op x y)

/-- What type checking guarantees of an operand of an operation in a type: it is of that
type, or it is a constant that the type holds. -/
inductive IsOperand (shape? : Note → Option IntegerShape) : IntegerShape → Expr → Prop where
  | varies {x : Expr} {s : IntegerShape} (hx : IsTyped shape? x) (hshape : shape? x.note = some s) :
      IsOperand shape? s x
  | constant {x : Expr} {s : IntegerShape} {k : Int} (hk : x.integer? = some k) (hv : s.Holds k) :
      IsOperand shape? s x

end

/-- The result of a mask, an or or a remainder of integers of a type. -/
inductive Computes (s : IntegerShape) (a b : Int) : Token → Int → Prop where
  | bitAnd : Computes s a b .bitAnd (s.bitAnd a b)
  | bitOr : Computes s a b .bitOr (s.bitOr a b)
  | rem (hb : b ≠ 0) : Computes s a b .rem (a.tmod b)

/-- A constant expression all of whose parts are integers of their types. -/
inductive IsConstant (shape? : Note → Option IntegerShape) : Expr → Int → Prop where
  | leaf {x : Expr} {s : IntegerShape} {k : Int} (hleaf : x.isLeaf = true)
      (hk : x.integer? = some k) (hshape : shape? x.note = some s) (hv : s.Holds k) :
      IsConstant shape? x k
  | paren {x : Expr} {k : Int} (hx : IsConstant shape? x k) : IsConstant shape? (.paren x) k
  | conversion {n : Note} {target : String} {x : Expr} {s : IntegerShape} {k : Int}
      (hk : (Expr.conversion n target x).integer? = some k) (hshape : shape? n = some s)
      (hv : s.Holds k) (hx : IsConstant shape? x k) : IsConstant shape? (.conversion n target x) k
  | operation {n : Note} {op : Token} {x y : Expr} {s : IntegerShape} {a b k : Int}
      (hk : (Expr.binary n op x y).integer? = some k) (hshape : shape? n = some s)
      (hx : IsConstant shape? x a) (hy : IsConstant shape? y b) (ha : s.Holds a) (hb : s.Holds b)
      (hcomputes : Computes s a b op k) : IsConstant shape? (.binary n op x y) k

mutual

/-- What type checking guarantees of an expression that is not constant if types may be type
parameters: as above, but a constant that is converted need not become a constant. -/
inductive IsGeneric (shape? : Note → Option IntegerShape) : Expr → Prop where
  | leaf {x : Expr} {s : IntegerShape} (hleaf : x.isLeaf = true) (hvaries : x.note.value? = none)
      (hshape : shape? x.note = some s) : IsGeneric shape? x
  | paren {x : Expr} (hx : IsGeneric shape? x) : IsGeneric shape? (.paren x)
  | conversion {n : Note} {target : String} {x : Expr} {s : IntegerShape}
      (hvaries : n.value? = none) (hshape : shape? n = some s) (hx : IsGeneric shape? x) :
      IsGeneric shape? (.conversion n target x)
  | constant {n : Note} {target : String} {x : Expr} {s : IntegerShape} {k : Int}
      (hvaries : n.value? = none) (hshape : shape? n = some s) (hx : IsConstant shape? x k)
      (hv : s.Holds k) : IsGeneric shape? (.conversion n target x)
  | operation {n : Note} {op : Token} {x y : Expr} {s : IntegerShape}
      (hop : op = .bitAnd ∨ op = .bitOr ∨ op = .rem) (hvaries : n.value? = none)
      (hshape : shape? n = some s) (hx : IsGenericOperand shape? s x)
      (hy : IsGenericOperand shape? s y) (hone : x.integer? = none ∨ y.integer? = none) :
      IsGeneric shape? (.binary n op x y)

/-- What type checking guarantees of an operand of such an operation. -/
inductive IsGenericOperand (shape? : Note → Option IntegerShape) : IntegerShape → Expr → Prop where
  | varies {x : Expr} {s : IntegerShape} (hx : IsGeneric shape? x)
      (hshape : shape? x.note = some s) : IsGenericOperand shape? s x
  | constant {x : Expr} {s : IntegerShape} {k : Int} (hk : x.integer? = some k) (hv : s.Holds k) :
      IsGenericOperand shape? s x

end

variable {shape? : Note → Option IntegerShape} {x : Expr} {v k a b : Int} {s : IntegerShape}

mutual

/-- Expressions of basic types are typed in particular if types may be type parameters. -/
theorem IsTyped.isGeneric : ∀ {x : Expr}, x.IsTyped shape? → x.IsGeneric shape?
  | _, .leaf hleaf hvaries hshape => .leaf hleaf hvaries hshape
  | _, .paren hx => .paren hx.isGeneric
  | _, .conversion hvaries hshape hx => .conversion hvaries hshape hx.isGeneric
  | _, .operation hop hvaries hshape hx hy hone =>
      .operation hop hvaries hshape hx.isGenericOperand hy.isGenericOperand hone

/-- Operands of basic types are operands in particular if types may be type parameters. -/
theorem IsOperand.isGenericOperand :
    ∀ {s : IntegerShape} {x : Expr}, x.IsOperand shape? s → x.IsGenericOperand shape? s
  | _, _, .varies hx hshape => .varies hx.isGeneric hshape
  | _, _, .constant hk hv => .constant hk hv

end

/-! ## Types and constants -/

/-- A typed expression is not constant. -/
theorem IsGeneric.value?_eq_none : ∀ {x : Expr}, x.IsGeneric shape? → x.note.value? = none
  | _, .leaf _ hvaries _ => hvaries
  | _, .paren hx => hx.value?_eq_none
  | _, .conversion hvaries _ _ => hvaries
  | _, .constant hvaries _ _ _ => hvaries
  | _, .operation _ hvaries _ _ _ _ => hvaries

/-- A typed expression is no integer constant. -/
theorem IsGeneric.integer?_eq_none (h : x.IsGeneric shape?) : x.integer? = none := by
  rw [integer?, h.value?_eq_none]
  rfl

/-- The type of a typed expression has a shape. -/
theorem IsGeneric.exists_shape : ∀ {x : Expr}, x.IsGeneric shape? → ∃ s, shape? x.note = some s
  | _, .leaf _ _ hshape => ⟨_, hshape⟩
  | _, .paren hx => hx.exists_shape
  | _, .conversion _ hshape _ => ⟨_, hshape⟩
  | _, .constant _ hshape _ _ => ⟨_, hshape⟩
  | _, .operation _ _ hshape _ _ _ => ⟨_, hshape⟩

/-- A constant expression has its value. -/
theorem IsConstant.integer?_eq : ∀ {x : Expr}, x.IsConstant shape? k → x.integer? = some k
  | _, .leaf _ hk _ _ => hk
  | _, .paren hx => hx.integer?_eq
  | _, .conversion hk _ _ _ => hk
  | _, .operation hk _ _ _ _ _ _ => hk

/-- A constant expression is evaluated to its value. -/
theorem IsConstant.hasValue (h : x.IsConstant shape? k) : x.HasValue shape? k :=
  .constant h.integer?_eq

/-- Masks, ors and remainders are computed. -/
theorem Computes.op_cases {op : Token} (h : Computes s a b op v) :
    op = .bitAnd ∨ op = .bitOr ∨ op = .rem := by
  cases h with
  | bitAnd => exact .inl rfl
  | bitOr => exact .inr (.inl rfl)
  | rem => exact .inr (.inr rfl)

/-- What is computed from integers of a type is an integer of the type. -/
theorem Computes.holds {op : Token} (h : Computes s a b op v) (ha : s.Holds a) : s.Holds v := by
  cases h with
  | bitAnd => exact IntegerShape.holds_decode _ _
  | bitOr => exact IntegerShape.holds_decode _ _
  | rem => exact ha.tmod _

/-- An integer constant is constant. -/
theorem value?_ne_none_of_integer? (h : x.integer? = some k) : x.note.value? ≠ none := by
  intro hnone
  rw [integer?, hnone] at h
  cases h

/-- A constant has one value. -/
theorem HasValue.eq_of_integer? (h : x.HasValue shape? v) (hk : x.integer? = some k) : v = k := by
  induction h with
  | constant hv =>
      rw [hk] at hv
      exact (Option.some.inj hv).symm
  | leaf _ hvaries => exact absurd hvaries (value?_ne_none_of_integer? hk)
  | paren _ ih => exact ih hk
  | conversion hvaries => exact absurd hvaries (value?_ne_none_of_integer? hk)
  | bitAnd hvaries => exact absurd hvaries (value?_ne_none_of_integer? hk)
  | bitOr hvaries => exact absurd hvaries (value?_ne_none_of_integer? hk)
  | rem hvaries => exact absurd hvaries (value?_ne_none_of_integer? hk)

/-- The operands of a typed mask, or or remainder. -/
theorem IsGeneric.operands {n : Note} {op : Token} {y : Expr}
    (h : IsGeneric shape? (.binary n op x y)) (hop : op = .bitAnd ∨ op = .bitOr ∨ op = .rem)
    (hs : shape? n = some s) :
    x.IsGenericOperand shape? s ∧ y.IsGenericOperand shape? s ∧
      (x.integer? = none ∨ y.integer? = none) := by
  cases h with
  | leaf hleaf =>
      rcases hop with rfl | rfl | rfl <;> cases hleaf
  | operation _ _ hshape hx hy hone =>
      rw [hs] at hshape
      cases hshape
      exact ⟨hx, hy, hone⟩

/-- The values of a typed expression are integers of its type. -/
theorem HasValue.holds (h : x.HasValue shape? v) (ht : x.IsGeneric shape?)
    (hs : shape? x.note = some s) : s.Holds v := by
  induction h generalizing s with
  | constant hv =>
      rw [ht.integer?_eq_none] at hv
      cases hv
  | leaf _ _ hshape hv =>
      rw [hs] at hshape
      cases hshape
      exact hv
  | paren _ ih =>
      cases ht with
      | leaf hleaf => cases hleaf
      | paren ht => exact ih ht hs
  | conversion _ hshape _ _ =>
      cases hshape.symm.trans hs
      exact IntegerShape.holds_decode _ _
  | bitAnd _ hshape _ _ _ _ =>
      cases hshape.symm.trans hs
      exact IntegerShape.holds_decode _ _
  | bitOr _ hshape _ _ _ _ =>
      cases hshape.symm.trans hs
      exact IntegerShape.holds_decode _ _
  | rem _ hx _ _ ihx _ =>
      cases (ht.operands (.inr (.inr rfl)) hs).1 with
      | varies ht hshape => exact (ihx ht hshape).tmod _
      | constant hk hv => exact (hx.eq_of_integer? hk ▸ hv).tmod _

/-- The values of an operand are integers of the type of the operation. -/
theorem HasValue.holds_of_isGenericOperand (h : x.HasValue shape? v)
    (hx : x.IsGenericOperand shape? s) : s.Holds v := by
  cases hx with
  | varies ht hshape => exact h.holds ht hshape
  | constant hk hv => exact h.eq_of_integer? hk ▸ hv

end Expr
end WordRanges
