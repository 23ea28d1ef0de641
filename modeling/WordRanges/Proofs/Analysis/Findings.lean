import WordRanges.Analysis.Diagnostic
import WordRanges.Proofs.Analysis.Inference

/-!
# Findings are right

The set of values that is inferred for an expression contains the word of every integer that
evaluating the expression can give.  So a comparison that is found to have always the same
outcome does have it, whatever its parts are evaluated to.

Main results:

- Theorem {lit}`compare_eq_of_contains`: comparing a member of a set has the outcome that is
  decided.
- Theorem {lit}`compare_eq_outcome`: a comparison has the outcome that is found.
-/

namespace WordRanges

open Source Source.BasicType

/-! ## Comparisons -/

/-- What type checking guarantees of a side of a comparison with a constant: it is an integer
constant, or an expression of one basic integer type that is not constant. -/
def Expr.IsSide (x : Expr) : Prop :=
  (∃ k, x.integer? = some k) ∨ x.IsTyped Note.shape?

/-- Comparing an integer of a type with a constant has the outcome that is decided for a set that
contains the integer. -/
theorem compare_eq_of_contains {op : Comparison} {s : IntegerShape} {set : Value 64} {a n : Int}
    {k : BitVec 64} {outcome : Bool} (hsized : s.IsSized) (ha : s.Holds a)
    (hmember : set.Contains (BitVec.ofInt 64 a)) (hk : (Constant.int n).word? s.unsigned = some k)
    (h : op.decide? set s.unsigned k = some outcome) : op.compare a n = outcome := by
  obtain ⟨hword, hn⟩ := word_of_word? hk
  have hdecided := Comparison.holds_of_decide? h hmember
  rw [← hword, Comparison.holds_eq_compare, decode_ofInt (ha.extend hsized), decode_ofInt hn]
    at hdecided
  exact hdecided

/-- Comparing a typed expression with a constant has the outcome that is decided. -/
theorem compare_eq_of_decide? {op : Comparison} {x : Expr} {o : Operand} {a n : Int} {k : BitVec 64}
    {outcome : Bool} (hx : x.IsTyped Note.shape?) (ha : x.HasValue Note.shape? a)
    (ho : x.operand? = some o) (hk : (Constant.int n).word? o.unsigned = some k)
    (h : op.decide? o.value o.unsigned k = some outcome) : op.compare a n = outcome := by
  obtain ⟨s, hs⟩ := hx.isGeneric.exists_shape
  obtain ⟨hunsigned, hmember⟩ :=
    ha.contains_operand chooses_shape? hx.isGeneric (Expr.fits_shape? x) hs ho
  rw [hunsigned] at hk h
  exact compare_eq_of_contains (chooses_shape?.isSized hs) (ha.holds hx.isGeneric hs) hmember hk h

/-- A side of a comparison that is no integer constant is typed. -/
theorem Expr.IsSide.isTyped {x : Expr} (h : x.IsSide) (hx : x.integer? = none) :
    x.IsTyped Note.shape? := by
  rcases h with ⟨k, hk⟩ | ht
  · rw [hx] at hk
    cases hk
  · exact ht

/-- A comparison has the outcome that is found, whatever its sides are evaluated to. -/
theorem compare_eq_outcome {op : Comparison} {x y : Expr} {f : Finding} {a b : Int}
    (hx : x.IsSide) (hy : y.IsSide) (h : findingOf? op x y = some f)
    (ha : x.HasValue Note.shape? a) (hb : y.HasValue Note.shape? b) :
    op.compare a b = f.outcome := by
  unfold findingOf? at h
  obtain ⟨⟨onRight, k⟩, hside, h⟩ := Option.bind_eq_some_iff.mp h
  obtain ⟨o, ho, h⟩ := Option.bind_eq_some_iff.mp h
  obtain ⟨word, hword, h⟩ := Option.bind_eq_some_iff.mp h
  obtain ⟨outcome, hdecide, h⟩ := Option.bind_eq_some_iff.mp h
  cases h
  unfold constantSide? at hside
  split at hside
  · rename_i n hn
    split at hside
    · cases hside
    · rename_i hvaries
      cases hside
      cases hb.eq_of_integer? hn
      have ht := hx.isTyped (Option.not_isSome_iff_eq_none.mp hvaries)
      exact compare_eq_of_decide? ht ha ho hword hdecide
  · rename_i hvaries
    obtain ⟨n, hn, heq⟩ := Option.map_eq_some_iff.mp hside
    cases heq
    cases ha.eq_of_integer? hn
    rw [← Comparison.compare_flip]
    exact compare_eq_of_decide? (hy.isTyped hvaries) hb ho hword hdecide

/-! ## A converted remainder of a mask -/

namespace Sample

/-- The note on an expression of an integer type. -/
def typed (b : BasicType) (value? : Option Int) : Note :=
  ⟨[b], none, value?.map .int⟩

/-- A variable of eight bits, masked with seven. -/
def masked : Expr :=
  .binary (typed .int8 none) .bitAnd (.atom (typed .int8 none) "v")
    (.atom (typed .int8 (some 7)) "7")

/-- The unsigned remainder of the mask by five. -/
def remainder : Expr :=
  .conversion (typed .uint32 none) "uint32"
    (.binary (typed .int8 none) .rem (.paren masked) (.atom (typed .int8 (some 5)) "5"))

/-- The constant that the remainder is compared with. -/
def five : Expr :=
  .atom (typed .uint32 (some 5)) "5"

/-- The remainder is typed. -/
theorem isTyped_remainder : remainder.IsTyped Note.shape? := by
  have hmasked : masked.IsTyped Note.shape? :=
    .operation (.inl rfl) rfl rfl (.varies (.leaf rfl rfl rfl) rfl)
      (.constant (k := 7) rfl (by decide)) (.inl rfl)
  exact .conversion rfl rfl (.operation (.inr (.inr rfl)) rfl rfl (.varies (.paren hmasked) rfl)
    (.constant (k := 5) rfl (by decide)) (.inl rfl))

/-- If the variable is minus one, the remainder is two. -/
theorem hasValue_remainder : remainder.HasValue Note.shape? 2 := by
  have hvariable : Expr.HasValue Note.shape? (.atom (typed .int8 none) "v") (-1) :=
    .leaf rfl rfl rfl (by decide)
  have hmask : (IntegerShape.mk 8 false).bitAnd (-1) 7 = 7 := by decide
  have hmasked : masked.HasValue Note.shape? 7 :=
    hmask ▸ .bitAnd (s := ⟨8, false⟩) rfl rfl hvariable (.constant rfl)
  have hfive : Expr.HasValue Note.shape? (.atom (typed .int8 (some 5)) "5") 5 := .constant rfl
  have hrem := Expr.HasValue.rem (n := typed .int8 none) rfl (.paren hmasked) hfive (by decide)
  exact .conversion (s := ⟨32, true⟩) rfl rfl hrem

/-- That the remainder is smaller than five is found and true. -/
theorem remainder_lt_five : ∃ f, findingOf? .lt remainder five = some f ∧ f.outcome = true ∧
    remainder.HasValue Note.shape? 2 ∧ Comparison.lt.compare 2 5 = f.outcome := by
  have hfound : (findingOf? .lt remainder five).map (·.outcome) = some true := by decide +kernel
  obtain ⟨f, hf, houtcome⟩ := Option.map_eq_some_iff.mp hfound
  refine ⟨f, hf, houtcome, hasValue_remainder, ?_⟩
  exact compare_eq_outcome (.inr isTyped_remainder) (.inl ⟨5, rfl⟩) hf hasValue_remainder
    (.constant rfl)

end Sample

end WordRanges
