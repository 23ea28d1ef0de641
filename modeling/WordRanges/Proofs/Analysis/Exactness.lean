import WordRanges.Proofs.Analysis.Instances
import WordRanges.Proofs.Domain.Extremal

/-!
# Exact decisions and exact sets

A comparison with a constant is decided for a set whenever all members compare in the same way:
the words that compare in that way are a set of the domain, and inclusion and disjointness of
sets are decided exactly.

For a mask, an or or a remainder of a variable with a constant, the set that is inferred has the
results for all integers of the type as members, and no other words.  This is because each
integer of the set is kept by the operation, so it is a result itself.  Hence the comparison of
such an expression with a constant is found exactly if it has the same outcome for all values of
the variable.

Main results:

- Theorem {lit}`Comparison.decide?_exact`: an outcome is decided if and only if it is that of all
  members.
- Theorem {lit}`Expr.valid_operand`: inferred sets are values of the domain.
- Theorem {lit}`map_findingOf?_eq_some_iff`: an outcome is found if and only if it is that of all
  members of the inferred set.
- Theorem {lit}`Expr.Restricts.computes_self`: integers of the set of an operation are kept by it.
- Theorem {lit}`Expr.operation_exact`: the set of a mask, an or or a remainder of a variable is
  exact.
-/

namespace WordRanges

open Source Source.BasicType

/-! ## Deciding comparisons completely -/

namespace Comparison

variable {q : Policy} {op : Comparison} {unsigned outcome : Bool} {x : Value 64} {k : BitVec 64}

/-- It is decided that members lie in a set or outside of it whenever all of them do. -/
theorem decideIn_eq_some_iff {set : Option (Value 64)} (hx : q.Valid x) :
    decideIn x set = some outcome ↔
      ∀ y, x.Contains y → ((∃ v ∈ set, v.Contains y) ↔ outcome = true) := by
  refine ⟨fun h y => exists_contains_of_decideIn h, fun h => ?_⟩
  have hlo := hx.contains_lo
  unfold decideIn
  cases set with
  | none =>
      have hfalse : outcome = false := by simpa using h x.lo hlo
      rw [hfalse]
  | some v =>
      simp only [Option.mem_some_iff, exists_eq_left'] at h ⊢
      cases outcome with
      | false =>
          have hapart : integerPolicy.intersect? x v = none := by
            rw [Policy.intersect?_eq_none_iff hx]
            rintro y ⟨hy, hv⟩
            exact Bool.false_ne_true ((h y hy).mp hv)
          rw [hapart, Option.isNone_none, if_pos rfl]
      | true =>
          have hmeets : ¬ (integerPolicy.intersect? x v).isNone = true := by
            intro hnone
            have hapart :=
              Policy.not_contains_of_intersect? (Option.isNone_iff_eq_none.mp hnone) hlo
            exact hapart ((h x.lo hlo).mpr rfl)
          have hsubset : x.IsSubset v := hx.isSubset fun y hy => (h y hy).mpr rfl
          rw [if_neg hmeets, if_pos hsubset]

/-- Every comparison but inequality has a set, which may be empty. -/
theorem exists_satisfying (h : op ≠ .ne) (k : BitVec 64) (unsigned : Bool) :
    ∃ set, op.satisfying k unsigned = .ok set := by
  cases op with
  | ne => exact absurd rfl h
  | eq => exact ⟨_, rfl⟩
  | lt | le | gt | ge => cases unsigned <;> exact ⟨_, rfl⟩

/-- An outcome is decided exactly if it is that of all members. -/
theorem decide?_eq_some_iff (hx : q.Valid x) :
    op.decide? x unsigned k = some outcome ↔
      ∀ y, x.Contains y → op.holds unsigned y k = outcome := by
  refine ⟨fun h y => holds_of_decide? h, fun h => ?_⟩
  by_cases hne : op = .ne
  · subst hne
    have hequal : decideIn x (some (integerPolicy.const k)) = some !outcome := by
      rw [decideIn_eq_some_iff hx]
      intro y hy
      have hy := h y hy
      simp only [Option.mem_some_iff, exists_eq_left', Policy.contains_const]
      rw [← hy, holds, bne, Bool.not_not, beq_iff_eq]
    rw [decide?, hequal, Option.map_some, Bool.not_not]
  · obtain ⟨set, hset⟩ := exists_satisfying hne k unsigned
    have hdecide : op.decide? x unsigned k = decideIn x set := by
      cases op with
      | ne => exact absurd rfl hne
      | eq | lt | le | gt | ge => simp only [decide?, hset]
    rw [hdecide, decideIn_eq_some_iff hx]
    intro y hy
    rw [exists_satisfying_contains hset, h y hy]

/-- For an operand whose set was made under any policy, comparing with a word has a result.  An
outcome is decided if and only if all members, in the order of the operand, have it; otherwise
there are members with different outcomes. -/
theorem decide?_exact {o : Operand} (ho : q.Makes o.value) (op : Comparison) (k : BitVec 64) :
    (op.token.decide? o.value o.unsigned k = .ok (op.decide? o.value o.unsigned k) ∧
      (op ≠ .ne → ∃ set, op.satisfying k o.unsigned = .ok set)) ∧
    (∀ outcome, op.decide? o.value o.unsigned k = some outcome ↔
      ∀ y, o.value.Contains y → op.compare ((IntegerShape.mk 64 o.unsigned).decode y)
        ((IntegerShape.mk 64 o.unsigned).decode k) = outcome) ∧
    (op.decide? o.value o.unsigned k = none ↔
      (∃ y, o.value.Contains y ∧ op.compare ((IntegerShape.mk 64 o.unsigned).decode y)
        ((IntegerShape.mk 64 o.unsigned).decode k) = true) ∧
      ∃ y, o.value.Contains y ∧ op.compare ((IntegerShape.mk 64 o.unsigned).decode y)
        ((IntegerShape.mk 64 o.unsigned).decode k) = false) := by
  have hsome (outcome : Bool) : op.decide? o.value o.unsigned k = some outcome ↔
      ∀ y, o.value.Contains y → op.holds o.unsigned y k = outcome :=
    decide?_eq_some_iff ho.valid
  simp only [← holds_eq_compare]
  refine ⟨⟨by cases op <;> rfl, fun hne => exists_satisfying hne k _⟩, hsome, ?_⟩
  constructor
  · intro hnone
    have hmixed (outcome : Bool) :
        ∃ y, o.value.Contains y ∧ op.holds o.unsigned y k = !outcome := by
      by_contra hall
      have hsame := (hsome outcome).mpr fun y hy => by
        by_contra hne
        exact hall ⟨y, hy, Bool.eq_not_of_ne hne⟩
      rw [hnone] at hsame
      cases hsame
    exact ⟨hmixed false, hmixed true⟩
  · rintro ⟨⟨y, hy, htrue⟩, z, hz, hfalse⟩
    cases hdecide : op.decide? o.value o.unsigned k with
    | none => rfl
    | some outcome =>
        have hall := (hsome outcome).mp hdecide
        rw [hall y hy] at htrue
        rw [hall z hz, htrue] at hfalse
        cases hfalse

/-! ### A set on both sides of zero -/

namespace Apart

/-- The words minus three and five. -/
def pair : Value 64 :=
  ⟨⟨⟨-3, 5⟩, ⟨5, -3⟩, ⟨2, 5⟩⟩, 0⟩

theorem makes_pair : integerPolicy.Makes pair :=
  Policy.Valid.makes ⟨by decide +kernel, by decide⟩

/-- One is between the signed bounds but no member.  That both members are less than six is
decided in signed order, and they differ in this in unsigned order. -/
theorem pair_ne_one : integerPolicy.Makes pair ∧
    (∀ y, pair.Contains y → Comparison.ne.compare y.toInt 1 = true) ∧
    (∀ y, pair.Contains y → Comparison.lt.compare y.toInt 6 = true) ∧
    (∃ y, pair.Contains y ∧ Comparison.lt.compare y.toNat 6 = true) ∧
    ∃ y, pair.Contains y ∧ Comparison.lt.compare y.toNat 6 = false := by
  have hne := (decide?_exact (o := ⟨pair, pair, false⟩) makes_pair .ne 1).2.1 true
  have hlt := (decide?_exact (o := ⟨pair, pair, false⟩) makes_pair .lt 6).2.1 true
  have hnone := (decide?_exact (o := ⟨pair, pair, true⟩) makes_pair .lt 6).2.2
  exact ⟨makes_pair, hne.mp (by decide +kernel), hlt.mp (by decide +kernel),
    hnone.mp (by decide +kernel)⟩

end Apart

end Comparison

/-! ## Findings -/

/-- The smallest set for some types is a value of the domain. -/
theorem valid_domain? {terms : List BasicType} {d : Value 64} (h : Operand.domain? terms = some d) :
    integerPolicy.Valid d := by
  have hfold (bs : List BasicType) : ∀ v, integerPolicy.Valid v →
      bs.foldlM (fun v b => b.values?.map (integerPolicy.hull v)) v = some d →
      integerPolicy.Valid d := by
    induction bs with
    | nil =>
        intro v hv h
        cases h
        exact hv
    | cons b bs ih =>
        intro v hv h
        rw [List.foldlM_cons] at h
        obtain ⟨next, hnext, h⟩ := Option.bind_eq_some_iff.mp h
        obtain ⟨all, -, rfl⟩ := Option.map_eq_some_iff.mp hnext
        exact ih _ (Policy.valid_hull hv all) h
  cases terms with
  | nil => cases h
  | cons b bs =>
      obtain ⟨v, hv, h⟩ := Option.bind_eq_some_iff.mp h
      exact hfold bs v (valid_of_values? hv) h

/-- What is inferred for some types is a value of the domain. -/
theorem valid_ofTerms? {terms : List BasicType} {out : Operand}
    (h : Operand.ofTerms? terms = some out) :
    integerPolicy.Valid out.value ∧ integerPolicy.Valid out.domain := by
  obtain ⟨-, hdomain, hvalue⟩ := ofTerms?_eq_some_iff.mp h
  rw [hvalue]
  exact ⟨valid_domain? hdomain, valid_domain? hdomain⟩

/-- Restricting to a set gives a value of the domain. -/
theorem valid_restrict {o : Operand} (hvalue : integerPolicy.Valid o.value)
    (hdomain : integerPolicy.Valid o.domain) (set : Value 64) :
    integerPolicy.Valid (o.restrict set).value := by
  unfold Operand.restrict
  split
  · rename_i v hv
    exact Policy.valid_of_intersect? hdomain hv
  · exact hvalue

/-- The set that is inferred for an expression is a value of the domain. -/
theorem Expr.valid_operand : ∀ {x : Expr} {o : Operand}, x.operand? = some o →
    integerPolicy.Valid o.value
  | .paren x, _, h => valid_operand (x := x) h
  | .atom _ _, _, h => (valid_ofTerms? h).1
  | .call _ _ _, _, h => (valid_ofTerms? h).1
  | .unary _ _ _, _, h => (valid_ofTerms? h).1
  | .conversion _ _ x, _, h => by
      obtain ⟨out, hout, rfl | ⟨arg, harg, -, rfl⟩⟩ := operand?_conversion_cases h
      · exact (valid_ofTerms? hout).1
      · have hvalid : integerPolicy.Valid arg.value := valid_operand harg
        exact hvalid
  | .binary _ _ _ _, _, h => by
      obtain ⟨out, hout, rfl | ⟨set, -, rfl⟩⟩ := operand?_binary_cases h
      · exact (valid_ofTerms? hout).1
      · exact valid_restrict (valid_ofTerms? hout).1 (valid_ofTerms? hout).2 set

section Findings

variable {cmp : Comparison} {x c : Expr} {o : Operand} {m : Int} {outcome : Bool}

/-- The outcome that is found for a comparison with a constant is the one that is decided. -/
theorem map_outcome_findingOf? {y : Expr} {onRight : Bool}
    (hside : constantSide? x y = some (onRight, m))
    (ho : (if onRight then x else y).operand? = some o)
    (hm : (IntegerShape.mk 64 o.unsigned).Holds m) :
    (findingOf? cmp x y).map (·.outcome) =
      (if onRight then cmp else cmp.flip).decide? o.value o.unsigned (BitVec.ofInt 64 m) := by
  rw [findingOf?, hside]
  simp only [Option.bind_eq_bind, Option.bind_some, ho, word?_of_holds hm]
  cases (if onRight then cmp else cmp.flip).decide? o.value o.unsigned (BitVec.ofInt 64 m) <;> rfl

/-- An outcome is decided for an inferred set exactly if comparing the integers of all its words
has it. -/
theorem decide?_operand_iff (ho : x.operand? = some o)
    (hm : (IntegerShape.mk 64 o.unsigned).Holds m) :
    cmp.decide? o.value o.unsigned (BitVec.ofInt 64 m) = some outcome ↔
      ∀ y, o.value.Contains y →
        cmp.compare ((IntegerShape.mk 64 o.unsigned).decode y) m = outcome := by
  rw [Comparison.decide?_eq_some_iff (Expr.valid_operand ho)]
  simp only [Comparison.holds_eq_compare, decode_ofInt hm]

/-- An outcome is found for a comparison with a constant, on either side, exactly if comparing
the integers of all words of the inferred set has it. -/
theorem map_findingOf?_eq_some_iff (hx : x.integer? = none) (hc : c.integer? = some m)
    (ho : x.operand? = some o) (hm : (IntegerShape.mk 64 o.unsigned).Holds m) (cmp : Comparison)
    (outcome : Bool) :
    ((findingOf? cmp x c).map (·.outcome) = some outcome ↔ ∀ y, o.value.Contains y →
      cmp.compare ((IntegerShape.mk 64 o.unsigned).decode y) m = outcome) ∧
    ((findingOf? cmp c x).map (·.outcome) = some outcome ↔ ∀ y, o.value.Contains y →
      cmp.compare m ((IntegerShape.mk 64 o.unsigned).decode y) = outcome) := by
  have hright : constantSide? x c = some (true, m) := by
    rw [constantSide?, hc, hx]
    rfl
  have hleft : constantSide? c x = some (false, m) := by
    rw [constantSide?, hc, hx]
    rfl
  constructor
  · rw [map_outcome_findingOf? hright ho hm]
    exact decide?_operand_iff ho hm
  · rw [map_outcome_findingOf? hleft ho hm]
    simp only [← Comparison.compare_flip cmp]
    exact decide?_operand_iff ho hm

end Findings

/-! ## Masks, ors and remainders -/

section Sets

variable {k x : BitVec 64} {set : Value 64}

/-- There are results of masking with a constant. -/
theorem exists_maskSet? (k : BitVec 64) : ∃ set, maskSet? k = some set := by
  refine Policy.exists_make? (x := 0) _ _ (contains_knownBits.mpr ?_)
  rw [KnownBits.satisfies_iff]
  simp

/-- There are results of an or with a constant. -/
theorem exists_orSet? (k : BitVec 64) : ∃ set, orSet? k = some set := by
  refine Policy.exists_make? (x := k) _ _ (contains_knownBits.mpr ?_)
  rw [KnownBits.satisfies_iff]
  simp

/-- There are remainders of unsigned division by a constant other than zero. -/
theorem exists_uremSet? (hk : k ≠ 0) : ∃ set, uremSet? k = some set := by
  rw [uremSet?, if_neg hk]
  exact Policy.exists_make? (x := 0) _ _ (Policy.contains_unsignedBounds.mpr (by simp))

/-- Remainders of signed division are bounded by zero or the divisor on either side. -/
theorem sremSet?_eq_range? (dividend : Option Operand) (hzero : k ≠ 0)
    (hmin : k ≠ BitVec.intMin 64) :
    ∃ lo hi, sremSet? dividend k = integerPolicy.range? lo hi ∧
      (1 - (k.toInt.natAbs : Int) ≤ lo.toInt ∧ lo.toInt ≤ 0) ∧
      (0 ≤ hi.toInt ∧ hi.toInt ≤ (k.toInt.natAbs : Int) - 1) := by
  have htop := toInt_remainderBound hmin
  have hneg := toInt_neg_remainderBound hmin
  have hpos : k.toInt ≠ 0 := fun h => hzero (BitVec.eq_of_toInt_eq (h.trans BitVec.toInt_zero.symm))
  have hz : (0 : BitVec 64).toInt = 0 := BitVec.toInt_zero
  rw [sremSet?, if_neg (not_or.mpr ⟨hzero, hmin⟩)]
  generalize (if k.msb then -k else k) - 1 = top at htop hneg ⊢
  refine ⟨_, _, rfl, ?_⟩
  cases dividend with
  | none =>
      simp only
      omega
  | some o =>
      simp only
      split <;> split <;> omega

/-- There are remainders of signed division by a constant other than zero and the least
integer. -/
theorem exists_sremSet? (dividend : Option Operand) (hzero : k ≠ 0) (hmin : k ≠ BitVec.intMin 64) :
    ∃ set, sremSet? dividend k = some set := by
  obtain ⟨lo, hi, heq, hlo, hhi⟩ := sremSet?_eq_range? dividend hzero hmin
  rw [heq]
  refine Policy.exists_make? (x := 0) _ _ (Policy.contains_signedBounds.mpr ?_)
  rw [show (0 : BitVec 64).toInt = 0 from BitVec.toInt_zero]
  exact ⟨hlo.2, hhi.1⟩

/-- Words in the set of remainders of signed division are smaller than the divisor. -/
theorem natAbs_lt_of_contains_sremSet? {dividend : Option Operand}
    (h : sremSet? dividend k = some set) (hx : set.Contains x) :
    x.toInt.natAbs < k.toInt.natAbs := by
  by_cases hne : k = 0 ∨ k = BitVec.intMin 64
  · rw [sremSet?, if_pos hne] at h
    cases h
  · rw [not_or] at hne
    obtain ⟨lo, hi, heq, hlo, hhi⟩ := sremSet?_eq_range? dividend hne.1 hne.2
    rw [Policy.contains_of_range? (heq.symm.trans h)] at hx
    omega

end Sets

/-- A restricted set that is not left as it is has the members of both sets. -/
theorem contains_restrict_iff {o : Operand} {set : Value 64} {c x : BitVec 64}
    (hdomain : o.domain.Contains c) (hset : set.Contains c) :
    (o.restrict set).value.Contains x ↔ o.domain.Contains x ∧ set.Contains x := by
  refine ⟨fun hx => ?_, fun hx => contains_restrict hx.1 hx.2⟩
  unfold Operand.restrict at hx
  split at hx
  · rename_i v hv
    exact (Policy.contains_of_intersect? hv).mp hx
  · rename_i hnone
    exact absurd hset (Policy.not_contains_of_intersect? hnone hdomain)

namespace Expr

variable {b : BasicType} {s : IntegerShape} {n : Note} {x y : Expr} {op : Token}
variable {set : Value 64} {out : Operand} {k u v : Int}

/-- A variable of a basic type, possibly in parentheses. -/
inductive IsVariable (b : BasicType) : Expr → Prop where
  | atom {n : Note} {name : String} (hterms : n.terms = [b]) (hvaries : n.value? = none) :
      IsVariable b (.atom n name)
  | paren {x : Expr} (hx : IsVariable b x) : IsVariable b (.paren x)

/-- The operations with a constant for which sets are inferred: all masks and ors, and
remainders unless the divisor is zero or the least signed integer of 64 bits. -/
inductive Narrows (s : IntegerShape) (k : Int) : Token → Prop where
  | bitAnd : Narrows s k .bitAnd
  | bitOr : Narrows s k .bitOr
  | rem (hzero : k ≠ 0) (hleast : s.unsigned = false → k ≠ -2 ^ 63) : Narrows s k .rem

/-- A note with one basic type has its shape. -/
theorem shape?_of_terms (hb : b.integer? = some s) (hn : n.terms = [b]) : n.shape? = some s := by
  rw [Note.shape?, hn]
  exact hb

/-- All integers of its type are inferred for a variable. -/
theorem IsVariable.operand?_eq (h : x.IsVariable b) : x.operand? = Operand.ofTerms? [b] := by
  induction h with
  | atom hterms => rw [operand?, hterms]
  | paren _ ih => exact ih

/-- A variable can have every integer of its type. -/
theorem IsVariable.hasValue (h : x.IsVariable b) (hb : b.integer? = some s) (hv : s.Holds v) :
    x.HasValue Note.shape? v := by
  induction h with
  | atom hterms hvaries => exact .leaf rfl hvaries (shape?_of_terms hb hterms) hv
  | paren _ ih => exact .paren ih

/-- Each of the operations with a constant has a result. -/
theorem Narrows.exists_computes (h : Narrows s k op) (v : Int) : ∃ r, Computes s v k op r := by
  cases h with
  | bitAnd => exact ⟨_, .bitAnd⟩
  | bitOr => exact ⟨_, .bitOr⟩
  | rem hzero => exact ⟨_, .rem hzero⟩

/-- Each of the operations with a constant restricts its values. -/
theorem Narrows.exists_restricts (h : Narrows s k op) (x : Expr) (hy : y.integer? = some k)
    (hk : (IntegerShape.mk 64 s.unsigned).Holds k) : ∃ set, Restricts x y s.unsigned op set := by
  have hword := word?_of_holds hk
  have heither : eitherWord? x y s.unsigned = some (BitVec.ofInt 64 k) := by
    rw [eitherWord?, hy]
    exact hword
  cases h with
  | bitAnd =>
      obtain ⟨set, hset⟩ := exists_maskSet? (BitVec.ofInt 64 k)
      exact ⟨set, .bitAnd heither hset⟩
  | bitOr =>
      obtain ⟨set, hset⟩ := exists_orSet? (BitVec.ofInt 64 k)
      exact ⟨set, .bitOr heither hset⟩
  | rem hzero hleast =>
      have hdivisor : y.word? s.unsigned = some (BitVec.ofInt 64 k) := by
        rw [Expr.word?, hy]
        exact hword
      have hne (m : Int) (hm : (IntegerShape.mk 64 s.unsigned).Holds m) (hkm : k ≠ m) :
          BitVec.ofInt 64 k ≠ BitVec.ofInt 64 m :=
        fun heq => hkm (hk.eq_of_word_eq hm ⟨Nat.zero_lt_succ 63, Nat.le_refl 64⟩ heq)
      have hnezero := hne 0 (IntegerShape.holds_zero _) hzero
      have hset : ∃ set, (if s.unsigned then uremSet? (BitVec.ofInt 64 k)
          else sremSet? x.operand? (BitVec.ofInt 64 k)) = some set := by
        cases hunsigned : s.unsigned with
        | true => exact exists_uremSet? hnezero
        | false =>
            refine exists_sremSet? _ hnezero (hne (-2 ^ 63) ?_ (hleast hunsigned))
            rw [hunsigned]
            decide
      obtain ⟨set, hset⟩ := hset
      exact ⟨set, .rem hdivisor hset⟩

/-- An integer in the set of remainders is smaller than the divisor. -/
theorem natAbs_lt_of_contains {d : BitVec 64} {dividend : Option Operand}
    (hd : BitVec.ofInt 64 k = d)
    (hset : (if s.unsigned then uremSet? d else sremSet? dividend d) = some set)
    (hsized : s.IsSized)
    (hk : s.Holds k) (hu : s.Holds u) (h : set.Contains (BitVec.ofInt 64 u)) :
    u.natAbs < k.natAbs := by
  subst hd
  split at hset
  · rename_i hunsigned
    have hk := hk.lt_of_unsigned hsized hunsigned
    have hu := hu.lt_of_unsigned hsized hunsigned
    have hlt := (contains_uremSet?_iff hset).mp h
    have hkword := toNat_ofInt_of_lt hk.1 hk.2
    have huword := toNat_ofInt_of_lt hu.1 hu.2
    omega
  · rename_i hsigned
    have hk := hk.lt_of_signed hsized hsigned
    have hu := hu.lt_of_signed hsized hsigned
    have hlt := natAbs_lt_of_contains_sremSet? hset h
    rwa [toInt_ofInt_of_lt hk.1 hk.2, toInt_ofInt_of_lt hu.1 hu.2] at hlt

/-- An integer of the type that is in the set of an operation is kept by the operation. -/
theorem Restricts.computes_self (h : Restricts x y s.unsigned op set) (hsized : s.IsSized)
    (hy : y.integer? = some k) (hk : s.Holds k) (hu : s.Holds u)
    (hset : set.Contains (BitVec.ofInt 64 u)) : Computes s u k op u := by
  have hword {d : BitVec 64} (hd : (Constant.int k).word? s.unsigned = some d) :
      BitVec.ofInt 64 k = d := (word_of_word? hd).1
  cases h with
  | bitAnd hd hmask =>
      rw [eitherWord?, hy] at hd
      rw [contains_maskSet? hmask, ← hword hd, ← IntegerShape.ofInt_bitAnd hsized hu hk] at hset
      have hkept : s.bitAnd u k = u :=
        IntegerShape.Holds.eq_of_word_eq (IntegerShape.holds_decode _ _) hu hsized hset
      have hcomputes : Computes s u k .bitAnd (s.bitAnd u k) := .bitAnd
      rwa [hkept] at hcomputes
  | bitOr hd hor =>
      rw [eitherWord?, hy] at hd
      rw [contains_orSet? hor, ← hword hd, ← IntegerShape.ofInt_bitOr hsized hu hk] at hset
      have hkept : s.bitOr u k = u :=
        IntegerShape.Holds.eq_of_word_eq (IntegerShape.holds_decode _ _) hu hsized hset
      have hcomputes : Computes s u k .bitOr (s.bitOr u k) := .bitOr
      rwa [hkept] at hcomputes
  | rem hd hrem =>
      rw [Expr.word?, hy] at hd
      have hlt := natAbs_lt_of_contains (hword hd) hrem hsized hk hu hset
      have hcomputes : Computes s u k .rem (u.tmod k) := .rem (by omega)
      rwa [tmod_eq_self_of_natAbs_lt hlt] at hcomputes

/-- What is inferred for an operation that restricts its values. -/
theorem Restricts.operand?_eq (h : Restricts x y out.unsigned op set)
    (hout : Operand.ofTerms? n.terms = some out) :
    (Expr.binary n op x y).operand? = some (out.restrict set) := by
  rw [operand?, hout]
  simp only [Option.bind_eq_bind, Option.bind_some]
  cases h with
  | bitAnd hk hset | bitOr hk hset | rem hk hset =>
      simp only [hk, Option.bind_some, hset]
      rfl

/-- The set of an operation with a constant, restricted to the integers of the type, has the
results for all integers of the type and no other words. -/
theorem Restricts.contains_iff (h : Restricts x y s.unsigned op set) (hnarrows : Narrows s k op)
    (hx : x.IsVariable b) (hb : b.integer? = some s) (hn : n.terms = [b])
    (hout : Operand.ofTerms? n.terms = some out) (hy : y.integer? = some k) (hk : s.Holds k)
    {word : BitVec 64} : (out.restrict set).value.Contains word ↔
      ∃ v r, s.Holds v ∧ Computes s v k op r ∧ BitVec.ofInt 64 r = word := by
  have hsized := isSized_of_integer? hb
  have hshape := shape?_of_terms hb hn
  have hresult {v r : Int} (hv : s.Holds v) (hr : Computes s v k op r) :
      out.domain.Contains (BitVec.ofInt 64 r) ∧ set.Contains (BitVec.ofInt 64 r) := by
    refine ⟨chooses_shape?.contains hshape hout (hr.holds hv), ?_⟩
    refine h.contains hsized (hx.hasValue hb hv) (.constant hy) hv hk hr
      fun _ _ o _ ho => ?_
    rw [hx.operand?_eq, ← hn] at ho
    exact (contains_of_ofTerms? chooses_shape? hshape hv ho).2
  obtain ⟨r, hr⟩ := hnarrows.exists_computes 0
  obtain ⟨hdomain, hset⟩ := hresult (IntegerShape.holds_zero s) hr
  rw [contains_restrict_iff hdomain hset]
  constructor
  · rintro ⟨hword, hset⟩
    obtain ⟨u, hu, rfl⟩ := exists_holds_of_shape? hshape hout hword
    exact ⟨u, u, hu, h.computes_self hsized hy hk hu hset, rfl⟩
  · rintro ⟨v, r, hv, hr, rfl⟩
    exact hresult hv hr

/-- The set that is inferred for an operation on a variable with a constant has the results for
all integers of the type as members, and no other words. -/
theorem Narrows.exists_operand (hop : Narrows s k op) (hb : b.integer? = some s)
    (hx : x.IsVariable b) (hn : n.terms = [b]) (hy : y.integer? = some k) (hk : s.Holds k) :
    ∃ o, (Expr.binary n op x y).operand? = some o ∧ o.unsigned = s.unsigned ∧
      ∀ word, o.value.Contains word ↔
        ∃ v r, s.Holds v ∧ Computes s v k op r ∧ BitVec.ofInt 64 r = word := by
  have hterms : ∀ t ∈ n.terms, t.integer?.map (·.unsigned) = some s.unsigned := by
    intro t ht
    rw [hn, List.mem_singleton] at ht
    rw [ht, hb, Option.map_some]
  obtain ⟨out, hout⟩ := exists_ofTerms? (by simp [hn]) hterms
  have hunsigned : out.unsigned = s.unsigned :=
    chooses_shape?.unsigned_eq (shape?_of_terms hb hn) hout
  obtain ⟨set, hset⟩ := hop.exists_restricts x hy (hk.extend (isSized_of_integer? hb))
  refine ⟨out.restrict set, Restricts.operand?_eq (hunsigned ▸ hset) hout, ?_, fun word => ?_⟩
  · exact (unsigned_restrict out set).trans hunsigned
  · exact hset.contains_iff hop hx hb hn hout hy hk

/-- If the members of a set are the words of all results, something holds of the integers of all
members exactly if it holds of all results. -/
theorem forall_members_iff (hsized : s.IsSized)
    (h : ∀ word, set.Contains word ↔
      ∃ v r, s.Holds v ∧ Computes s v k op r ∧ BitVec.ofInt 64 r = word) (P : Int → Prop) :
    (∀ word, set.Contains word → P ((IntegerShape.mk 64 s.unsigned).decode word)) ↔
      ∀ v r, s.Holds v → Computes s v k op r → P r := by
  have hdecode {v r : Int} (hv : s.Holds v) (hr : Computes s v k op r) :=
    decode_ofInt ((hr.holds hv).extend hsized)
  constructor
  · intro hall v r hv hr
    rw [← hdecode hv hr]
    exact hall _ ((h _).mpr ⟨v, r, hv, hr, rfl⟩)
  · intro hall word hword
    obtain ⟨v, r, hv, hr, rfl⟩ := (h word).mp hword
    rw [hdecode hv hr]
    exact hall v r hv hr

/-- For a variable of a basic integer type that is masked with a constant of the type, combined
with it by an or, or divided by it for the remainder, the members of the set that is inferred are
the words of the results for all integers of the type.  So an outcome of a comparison with a
constant is found if and only if it is the same for all of them. -/
theorem operation_exact (hb : b.integer? = some s) (hx : x.IsVariable b) (hn : n.terms = [b])
    (hvaries : n.value? = none) (hy : y.integer? = some k) (hk : s.Holds k)
    (hop : Narrows s k op) :
    ∃ o, (Expr.binary n op x y).operand? = some o ∧ o.unsigned = s.unsigned ∧
      (∀ word, o.value.Contains word ↔
        ∃ v r, s.Holds v ∧ Computes s v k op r ∧ BitVec.ofInt 64 r = word) ∧
      ∀ (cmp : Comparison) (c : Expr) (m : Int) (outcome : Bool), c.integer? = some m →
        (IntegerShape.mk 64 s.unsigned).Holds m →
        ((findingOf? cmp (.binary n op x y) c).map (·.outcome) = some outcome ↔
          ∀ v r, s.Holds v → Computes s v k op r → cmp.compare r m = outcome) ∧
        ((findingOf? cmp c (.binary n op x y)).map (·.outcome) = some outcome ↔
          ∀ v r, s.Holds v → Computes s v k op r → cmp.compare m r = outcome) := by
  obtain ⟨o, ho, hsign, hmembers⟩ := hop.exists_operand hb hx hn hy hk
  refine ⟨o, ho, hsign, hmembers, fun cmp c m outcome hc hm => ?_⟩
  have hinteger : (Expr.binary n op x y).integer? = none := by
    rw [integer?, show (Expr.binary n op x y).note = n from rfl, hvaries]
    rfl
  obtain ⟨hright, hleft⟩ := map_findingOf?_eq_some_iff hinteger hc ho (hsign ▸ hm) cmp outcome
  rw [hsign] at hright hleft
  have hall := forall_members_iff (isSized_of_integer? hb) hmembers
  exact ⟨hright.trans (hall fun r => cmp.compare r m = outcome),
    hleft.trans (hall fun r => cmp.compare m r = outcome)⟩

/-! ### Remainders by minus seven -/

namespace Divided

/-- A variable of eight bits. -/
def dividend : Expr :=
  .paren (.atom (Sample.typed .int8 none) "v")

/-- An integer of eight bits. -/
def constant (k : Int) : Expr :=
  .atom (Sample.typed .int8 (some k)) (toString k)

/-- The remainder of the variable by minus seven. -/
def remainder : Expr :=
  .binary (Sample.typed .int8 none) .rem dividend (constant (-7))

/-- The remainders are the integers less than seven and greater than minus seven.  That they are
less than seven is found, with the constant on either side; that they are less than six is not
found, since it is wrong for one of them. -/
theorem remainder_bounds :
    (∃ o, remainder.operand? = some o ∧ o.value.Contains (-6) ∧ o.value.Contains 6 ∧
      ¬ o.value.Contains (-7)) ∧
    (∀ v, (IntegerShape.mk 8 false).Holds v → Comparison.lt.compare (v.tmod (-7)) 7 = true) ∧
    (∀ v, (IntegerShape.mk 8 false).Holds v → Comparison.gt.compare 7 (v.tmod (-7)) = true) ∧
    (findingOf? .lt remainder (constant 6)).map (·.outcome) ≠ some true := by
  have hseven : (-7 : Int) ≠ 0 := by decide
  have hdividend : dividend.IsVariable .int8 := .paren (.atom rfl rfl)
  have hop : Narrows ⟨8, false⟩ (-7) .rem := .rem hseven fun _ => by decide
  obtain ⟨o, ho, -, hmembers, hfound⟩ := operation_exact (n := Sample.typed .int8 none)
    (y := constant (-7)) rfl hdividend rfl rfl rfl (by decide) hop
  refine ⟨⟨o, ho, ?_, ?_, ?_⟩, ?_, ?_, ?_⟩
  · exact (hmembers _).mpr ⟨-6, -6, by decide, .rem hseven, by decide⟩
  · exact (hmembers _).mpr ⟨6, 6, by decide, .rem hseven, by decide⟩
  · intro h
    obtain ⟨v, r, hv, hr, hword⟩ := (hmembers _).mp h
    cases hr
    have hlt : (v.tmod (-7)).natAbs < 7 := by
      rw [Int.natAbs_tmod]
      exact Nat.mod_lt _ (by decide)
    have hint := toInt_ofInt_of_lt (v := v.tmod (-7)) (by omega) (by omega)
    rw [hword, show (-7 : BitVec 64).toInt = -7 by decide] at hint
    omega
  · intro v hv
    exact (hfound .lt (constant 7) 7 true rfl (by decide)).1.mp (by decide +kernel) v _ hv
      (.rem hseven)
  · intro v hv
    exact (hfound .gt (constant 7) 7 true rfl (by decide)).2.mp (by decide +kernel) v _ hv
      (.rem hseven)
  · intro h
    have hsix := (hfound .lt (constant 6) 6 true rfl (by decide)).1.mp h 6 _ (by decide)
      (.rem hseven)
    exact absurd hsix (by decide)

end Divided

end Expr

end WordRanges
