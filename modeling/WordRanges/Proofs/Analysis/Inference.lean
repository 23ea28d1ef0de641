import WordRanges.Analysis.Operand
import WordRanges.Proofs.Analysis.Deciding
import WordRanges.Proofs.Analysis.Evaluation

/-!
# Inferred sets

The set of values that is inferred for an expression contains the word of every integer that
evaluating the expression can give.  A set that is kept for a conversion has to be mapped into
itself by the conversion; among basic types every such set is.

Main results:

- Theorem {lit}`Chooses.contains`: the integers of a type are in the set that is inferred for it.
- Theorem {lit}`contains_sremSet?`: remainders are in the set that is inferred for them.
- Theorem {lit}`Expr.IsConstant.contains_operand`: the value of a constant expression is in the
  set that is inferred for it.
- Theorem {lit}`Expr.HasValue.contains_operand`: the values of an expression are in the set that
  is inferred for it, if conversions map the sets that are kept into themselves.
-/

namespace WordRanges

open Source Source.BasicType

/-! ## Constants and types -/

/-- The word of an integer constant. -/
theorem word_of_word? {n : Int} {unsigned : Bool} {k : BitVec 64}
    (h : (Constant.int n).word? unsigned = some k) :
    BitVec.ofInt 64 n = k ∧ (IntegerShape.mk 64 unsigned).Holds n := by
  obtain ⟨m, hm, hholds, hword⟩ := Constant.word?_eq_some_iff.mp h
  cases hm
  exact ⟨hword, hholds⟩

/-- An integer constant of 64 bits has a word. -/
theorem word?_of_holds {n : Int} {unsigned : Bool} (h : (IntegerShape.mk 64 unsigned).Holds n) :
    (Constant.int n).word? unsigned = some (BitVec.ofInt 64 n) :=
  Constant.word?_eq_some_iff.mpr ⟨n, rfl, h, rfl⟩

/-- An integer of 64 bits is what its word stands for. -/
theorem decode_ofInt {n : Int} {unsigned : Bool} (h : (IntegerShape.mk 64 unsigned).Holds n) :
    (IntegerShape.mk 64 unsigned).decode (BitVec.ofInt 64 n) = n :=
  IntegerShape.wrap_of_holds ⟨Nat.zero_lt_succ 63, Nat.le_refl 64⟩ h

/-- All types of some terms are unsigned, or none of them is, if the terms have an order. -/
theorem isUnsigned_of_unsigned? {terms : List BasicType} {unsigned : Bool} {b : BasicType}
    (h : Operand.unsigned? terms = some unsigned) (hb : b ∈ terms) : b.isUnsigned = unsigned := by
  unfold Operand.unsigned? at h
  split at h
  · cases h
  · split at h
    · rename_i hall
      cases h
      exact List.all_eq_true.mp hall b hb
    · split at h
      · rename_i hall
        cases h
        have hsigned := List.all_eq_true.mp hall b hb
        rwa [Bool.not_eq_true_eq_eq_false] at hsigned
      · cases h

/-- Combining the values of types keeps all members. -/
theorem contains_of_foldlM {bs : List BasicType} {v d : Value 64} {x : BitVec 64}
    (h : bs.foldlM (fun v b => b.values?.map (integerPolicy.hull v)) v = some d)
    (hx : v.Contains x ∨ ∃ b ∈ bs, ∃ all, b.values? = some all ∧ all.Contains x) :
    d.Contains x := by
  induction bs generalizing v with
  | nil =>
      cases h
      simpa using hx
  | cons b bs ih =>
      rw [List.foldlM_cons] at h
      obtain ⟨next, hnext, h⟩ := Option.bind_eq_some_iff.mp h
      obtain ⟨all, hall, rfl⟩ := Option.map_eq_some_iff.mp hnext
      refine ih h ?_
      rcases hx with hx | ⟨b', hb', all', hall', hx⟩
      · exact .inl (Policy.contains_hull_left hx)
      · rcases List.mem_cons.mp hb' with rfl | hb'
        · cases hall.symm.trans hall'
          exact .inl (Policy.contains_hull_right hx)
        · exact .inr ⟨b', hb', all', hall', hx⟩

/-- The smallest set for some types contains the values of each of them. -/
theorem contains_of_domain? {terms : List BasicType} {b : BasicType} {all d : Value 64}
    {x : BitVec 64} (h : Operand.domain? terms = some d) (hb : b ∈ terms)
    (hall : b.values? = some all) (hx : all.Contains x) : d.Contains x := by
  cases terms with
  | nil => cases h
  | cons first rest =>
      obtain ⟨v, hv, h⟩ := Option.bind_eq_some_iff.mp h
      refine contains_of_foldlM h ?_
      rcases List.mem_cons.mp hb with rfl | hb
      · cases hv.symm.trans hall
        exact .inl hx
      · exact .inr ⟨b, hb, all, hall, hx⟩

/-- What is inferred for some types: their order and the smallest set of their values. -/
theorem ofTerms?_eq_some_iff {terms : List BasicType} {out : Operand} :
    Operand.ofTerms? terms = some out ↔ Operand.unsigned? terms = some out.unsigned ∧
      Operand.domain? terms = some out.domain ∧ out.value = out.domain := by
  unfold Operand.ofTerms?
  constructor
  · intro h
    obtain ⟨unsigned, hunsigned, h⟩ := Option.bind_eq_some_iff.mp h
    obtain ⟨domain, hdomain, h⟩ := Option.bind_eq_some_iff.mp h
    cases h
    exact ⟨hunsigned, hdomain, rfl⟩
  · rintro ⟨hunsigned, hdomain, hvalue⟩
    rw [hunsigned, hdomain]
    cases out
    cases hvalue
    rfl

/-- The shape that is read off a note is that of one of its types. -/
def Chooses (shape? : Note → Option IntegerShape) : Prop :=
  ∀ ⦃n s⦄, shape? n = some s → ∃ b ∈ n.terms, b.integer? = some s

section Shapes

variable {shape? : Note → Option IntegerShape} {n : Note} {s : IntegerShape} {out : Operand}

/-- Shapes of integer types have up to 64 bits. -/
theorem Chooses.isSized (hc : Chooses shape?) (hs : shape? n = some s) : s.IsSized := by
  obtain ⟨b, -, hb⟩ := hc hs
  exact isSized_of_integer? hb

/-- The order that is inferred for a type is that of its shape. -/
theorem Chooses.unsigned_eq (hc : Chooses shape?) (hs : shape? n = some s)
    (hout : Operand.ofTerms? n.terms = some out) : out.unsigned = s.unsigned := by
  obtain ⟨b, hmem, hb⟩ := hc hs
  rw [← isUnsigned_of_unsigned? (ofTerms?_eq_some_iff.mp hout).1 hmem, BasicType.isUnsigned, hb]
  rfl

/-- The set that is inferred for a type contains the words of the integers of its shape. -/
theorem Chooses.contains (hc : Chooses shape?) (hs : shape? n = some s)
    (hout : Operand.ofTerms? n.terms = some out) {v : Int} (hv : s.Holds v) :
    out.domain.Contains (BitVec.ofInt 64 v) := by
  obtain ⟨b, hmem, hb⟩ := hc hs
  obtain ⟨all, hall⟩ := exists_values? hb
  exact contains_of_domain? (ofTerms?_eq_some_iff.mp hout).2.1 hmem hall
    ((contains_values? hb hall).mpr ⟨v, hv, rfl⟩)

/-- The shape of a basic integer type is that of the only type. -/
theorem chooses_shape? : Chooses Note.shape? := by
  intro n s hs
  unfold Note.shape? at hs
  split at hs
  · rename_i b hterms
    exact ⟨b, hterms ▸ List.mem_singleton_self b, hs⟩
  · cases hs

/-- The set that is inferred for one basic type has the words of its integers only. -/
theorem exists_holds_of_shape? (hs : n.shape? = some s) (hout : Operand.ofTerms? n.terms = some out)
    {x : BitVec 64} (hx : out.domain.Contains x) : ∃ u, s.Holds u ∧ BitVec.ofInt 64 u = x := by
  unfold Note.shape? at hs
  split at hs
  · rename_i b hterms
    rw [hterms] at hout
    obtain ⟨-, hdomain, -⟩ := ofTerms?_eq_some_iff.mp hout
    obtain ⟨all, hall, hd⟩ := Option.bind_eq_some_iff.mp hdomain
    cases hd
    exact (contains_values? hs hall).mp hx
  · cases hs

end Shapes

/-! ## Sets of operations -/

section Sets

variable {set : Value 64} {k x : BitVec 64} {a n : Int}

/-- The words that meet a constraint of known bits only. -/
theorem contains_knownBits {bits : KnownBits 64} :
    ({ Constraint.full 64 with bits := bits } : Constraint 64).Contains x ↔ bits.Satisfies x := by
  have hfull := Constraint.contains_full x
  exact ⟨fun hx => hx.2.2, fun hx => ⟨hfull.1, hfull.2.1, hx⟩⟩

/-- The results of masking with a constant have no bits outside of it. -/
theorem contains_maskSet? (h : maskSet? k = some set) : set.Contains x ↔ x &&& k = x := by
  rw [Policy.contains_of_make? h, contains_knownBits, KnownBits.satisfies_iff,
    BitVec.eq_of_getLsbD_eq_iff]
  refine forall_congr' fun i => ?_
  rw [BitVec.getLsbD_and, BitVec.getLsbD_not]
  cases hx : x.getLsbD i with
  | false => simp
  | true => simp [BitVec.lt_of_getLsbD hx]

/-- The results of an or with a constant have all its bits. -/
theorem contains_orSet? (h : orSet? k = some set) : set.Contains x ↔ x ||| k = x := by
  rw [Policy.contains_of_make? h, contains_knownBits, KnownBits.satisfies_iff,
    BitVec.eq_of_getLsbD_eq_iff]
  refine forall_congr' fun i => ?_
  rw [BitVec.getLsbD_or]
  cases hk : k.getLsbD i with
  | false => simp
  | true => simp [BitVec.lt_of_getLsbD hk]

/-- The set of remainders of unsigned division has the words less than the divisor. -/
theorem contains_uremSet?_iff (h : uremSet? k = some set) : set.Contains x ↔ x.toNat < k.toNat := by
  unfold uremSet? at h
  split at h
  · cases h
  · rename_i hne
    have hpos : k.toNat ≠ 0 := fun h => hne (BitVec.eq_of_toNat_eq h)
    have htop : (k - 1).toNat = k.toNat - 1 := by bv_omega
    rw [Policy.contains_of_urange? h, htop]
    exact ⟨fun hx => by omega, fun hx => ⟨Nat.zero_le _, by omega⟩⟩

/-- Remainders of unsigned division are in the set that is inferred for them. -/
theorem contains_uremSet? (h : uremSet? k = some set) (hk : BitVec.ofInt 64 n = k)
    (hn : 0 ≤ n ∧ n < 2 ^ 64) (ha : 0 ≤ a) : set.Contains (BitVec.ofInt 64 (a.tmod n)) := by
  have hword : (k.toNat : Int) = n := hk ▸ toNat_ofInt_of_lt hn.1 hn.2
  have hzero : n ≠ 0 := by
    intro hzero
    have hword : k = 0 := by
      rw [← hk, hzero]
      rfl
    rw [uremSet?, if_pos hword] at h
    cases h
  have hnonneg := Int.tmod_nonneg n ha
  have hlt := Int.tmod_lt_of_pos a (b := n) (by omega)
  have hrem := toNat_ofInt_of_lt hnonneg (by omega)
  rw [contains_uremSet?_iff h]
  omega

/-- The greatest absolute value of a remainder. -/
theorem toInt_remainderBound (hne : k ≠ BitVec.intMin 64) :
    ((if k.msb then -k else k) - 1).toInt = (k.toInt.natAbs : Int) - 1 := by
  have hbounds := toInt_mem_bounds k
  have hsize : (if k.msb then -k else k).toInt = (k.toInt.natAbs : Int) := by
    rw [BitVec.msb_eq_toInt]
    split
    · rename_i hneg
      rw [decide_eq_true_eq] at hneg
      rw [BitVec.toInt_neg_of_ne_intMin hne]
      omega
    · rename_i hnonneg
      rw [decide_eq_true_eq] at hnonneg
      omega
  rw [toInt_sub_one, hsize]
  intro hmin
  rw [hmin, toInt_intMin] at hsize
  omega

/-- The least remainder. -/
theorem toInt_neg_remainderBound (hne : k ≠ BitVec.intMin 64) :
    (-((if k.msb then -k else k) - 1)).toInt = 1 - (k.toInt.natAbs : Int) := by
  have htop := toInt_remainderBound hne
  rw [BitVec.toInt_neg_of_ne_intMin, htop]
  · omega
  · intro hmin
    rw [hmin, toInt_intMin] at htop
    omega

/-- Remainders of signed division are in the set that is inferred for them: they are smaller
than the divisor and have the sign of the dividend. -/
theorem contains_sremSet? {dividend : Option Operand} (h : sremSet? dividend k = some set)
    (hk : BitVec.ofInt 64 n = k) (hn : -2 ^ 63 ≤ n ∧ n < 2 ^ 63) (ha : -2 ^ 63 ≤ a ∧ a < 2 ^ 63)
    (hdividend : ∀ o, dividend = some o → o.value.Contains (BitVec.ofInt 64 a)) :
    set.Contains (BitVec.ofInt 64 (a.tmod n)) := by
  unfold sremSet? at h
  split at h
  · cases h
  · rename_i hne
    rw [not_or] at hne
    have hword : k.toInt = n := hk ▸ toInt_ofInt_of_lt hn.1 hn.2
    have hzero : n ≠ 0 := fun h => hne.1 (BitVec.eq_of_toInt_eq (hword.trans h))
    have hbound : (a.tmod n).natAbs < n.natAbs := by
      rw [Int.natAbs_tmod]
      exact Nat.mod_lt _ (by omega)
    have htop := toInt_remainderBound hne.2
    have hneg := toInt_neg_remainderBound hne.2
    rw [hword] at htop hneg
    generalize (if k.msb then -k else k) - 1 = top at h htop hneg
    have hrem : (BitVec.ofInt 64 (a.tmod n)).toInt = a.tmod n :=
      toInt_ofInt_of_lt (by omega) (by omega)
    have hnonneg := fun h : 0 ≤ a => Int.tmod_nonneg n h
    have hnonpos := fun h : a ≤ 0 => tmod_nonpos n h
    rw [Policy.contains_of_range? h, hrem]
    cases dividend with
    | none =>
        simp only
        omega
    | some o =>
        have hmember := Bounds.sContains_iff.mp (hdividend o rfl).1
        rw [toInt_ofInt_of_lt ha.1 ha.2] at hmember
        have hlo : o.value.lo.toInt ≤ a := hmember.1
        have hhi : a ≤ o.value.hi.toInt := hmember.2
        simp only [BitVec.msb_eq_toInt, decide_eq_true_eq, BitVec.sle_iff_toInt_le]
        constructor
        · split
          · omega
          · exact hnonneg (by omega)
        · split
          · rename_i hle
            exact hnonpos (Int.le_trans hhi hle)
          · omega

end Sets

/-! ## Inferred sets -/

/-- Restricting to a set keeps the members of both. -/
theorem contains_restrict {o : Operand} {set : Value 64} {x : BitVec 64}
    (hdomain : o.domain.Contains x)
    (hset : set.Contains x) : (o.restrict set).value.Contains x := by
  unfold Operand.restrict
  split
  · rename_i v hv
    exact (Policy.contains_of_intersect? hv).mpr ⟨hdomain, hset⟩
  · rename_i hnone
    exact absurd hset (Policy.not_contains_of_intersect? hnone hdomain)

/-- Restricting to a set keeps the order. -/
theorem unsigned_restrict (o : Operand) (set : Value 64) :
    (o.restrict set).unsigned = o.unsigned := by
  unfold Operand.restrict
  split <;> rfl

/-- Restricting to a set keeps the values of the type. -/
theorem domain_restrict (o : Operand) (set : Value 64) : (o.restrict set).domain = o.domain := by
  unfold Operand.restrict
  split <;> rfl

namespace Expr

variable {shape? : Note → Option IntegerShape} {x y : Expr} {v : Int} {s : IntegerShape}
variable {o : Operand}

/-- Nothing is inferred for an expression that is no integer. -/
theorem operand?_eq_none : ∀ {x : Expr}, x.note.terms = [] → x.operand? = none
  | .paren x, h => operand?_eq_none (x := x) h
  | .atom n _, h => by rw [operand?, show n.terms = [] from h]; rfl
  | .call n _ _, h => by rw [operand?, show n.terms = [] from h]; rfl
  | .unary n _ _, h => by rw [operand?, show n.terms = [] from h]; rfl
  | .conversion n _ _, h => by rw [operand?, show n.terms = [] from h]; rfl
  | .binary n _ _ _, h => by rw [operand?, show n.terms = [] from h]; rfl

/-- The set to which the values of a binary operation are restricted. -/
inductive Restricts (x y : Expr) (unsigned : Bool) : Token → Value 64 → Prop where
  | bitAnd {k : BitVec 64} {set : Value 64} (hk : eitherWord? x y unsigned = some k)
      (hset : maskSet? k = some set) : Restricts x y unsigned .bitAnd set
  | bitOr {k : BitVec 64} {set : Value 64} (hk : eitherWord? x y unsigned = some k)
      (hset : orSet? k = some set) : Restricts x y unsigned .bitOr set
  | rem {k : BitVec 64} {set : Value 64} (hk : y.word? unsigned = some k)
      (hset : (if unsigned then uremSet? k else sremSet? x.operand? k) = some set) :
      Restricts x y unsigned .rem set

/-- What is inferred for a binary operation: the values of its type, restricted for masks, ors
and remainders. -/
theorem operand?_binary_cases {n : Note} {op : Token}
    (h : (Expr.binary n op x y).operand? = some o) :
    ∃ out, Operand.ofTerms? n.terms = some out ∧
      (o = out ∨ ∃ set, Restricts x y out.unsigned op set ∧ o = out.restrict set) := by
  rw [operand?] at h
  obtain ⟨out, hout, h⟩ := Option.bind_eq_some_iff.mp h
  refine ⟨out, hout, ?_⟩
  simp only at h
  split at h
  · rename_i set hset
    cases h
    refine .inr ⟨set, ?_, rfl⟩
    split at hset
    · obtain ⟨k, hk, hset⟩ := Option.bind_eq_some_iff.mp hset
      exact .bitAnd hk hset
    · obtain ⟨k, hk, hset⟩ := Option.bind_eq_some_iff.mp hset
      exact .bitOr hk hset
    · split at hset
      · cases hset
      · rename_i k hk
        exact .rem hk hset
    · cases hset
  · cases h
    exact .inl rfl

/-- What is inferred for a conversion: the values of its operand if they are values of its
type, and all values of its type otherwise. -/
theorem operand?_conversion_cases {n : Note} {target : String}
    (h : (Expr.conversion n target x).operand? = some o) :
    ∃ out, Operand.ofTerms? n.terms = some out ∧
      (o = out ∨ ∃ arg, x.operand? = some arg ∧ arg.value.IsSubset out.domain ∧
        o = { out with value := arg.value }) := by
  rw [operand?] at h
  obtain ⟨out, hout, h⟩ := Option.bind_eq_some_iff.mp h
  refine ⟨out, hout, ?_⟩
  split at h
  · rename_i arg harg
    split at h
    · rename_i hsubset
      cases h
      exact .inr ⟨arg, harg, hsubset, rfl⟩
    · cases h
      exact .inl rfl
  · cases h
    exact .inl rfl

/-- For an expression that is not looked into, all values of its type are inferred. -/
theorem ofTerms?_of_isLeaf (h : x.isLeaf = true) (ho : x.operand? = some o) :
    Operand.ofTerms? x.note.terms = some o := by
  cases x with
  | atom | call | unary => exact ho
  | paren x => cases h
  | conversion n target x =>
      have hnone : x.operand? = none := operand?_eq_none (List.isEmpty_iff.mp h)
      obtain ⟨out, hout, rfl | ⟨arg, harg, -⟩⟩ := operand?_conversion_cases ho
      · exact hout
      · rw [hnone] at harg
        cases harg
  | binary n op x y =>
      obtain ⟨out, hout, rfl | ⟨set, hset, -⟩⟩ := operand?_binary_cases ho
      · exact hout
      · cases hset <;> cases h

/-- The constant operand of an operation in which either one may be it. -/
theorem exists_of_eitherWord? {unsigned : Bool} {k : BitVec 64}
    (h : eitherWord? x y unsigned = some k) :
    ∃ n, (x.integer? = some n ∨ y.integer? = some n) ∧
      (Constant.int n).word? unsigned = some k := by
  unfold eitherWord? at h
  split at h
  · rename_i n hn
    exact ⟨n, .inr hn, h⟩
  · obtain ⟨n, hn, hk⟩ := Option.bind_eq_some_iff.mp h
    exact ⟨n, .inl hn, hk⟩

/-- One of the operands has the word of the constant operand. -/
theorem word_of_eitherWord? {unsigned : Bool} {k : BitVec 64} {a b : Int}
    (h : eitherWord? x y unsigned = some k) (hx : x.HasValue shape? a) (hy : y.HasValue shape? b) :
    BitVec.ofInt 64 a = k ∨ BitVec.ofInt 64 b = k := by
  obtain ⟨n, hn, hk⟩ := exists_of_eitherWord? h
  have hword := (word_of_word? hk).1
  rcases hn with hn | hn
  · exact .inl (hx.eq_of_integer? hn ▸ hword)
  · exact .inr (hy.eq_of_integer? hn ▸ hword)

/-- All values of its type are inferred for an expression that is not restricted. -/
theorem contains_of_ofTerms? {n : Note} (hc : Chooses shape?) (hs : shape? n = some s)
    (hv : s.Holds v) (ho : Operand.ofTerms? n.terms = some o) :
    o.unsigned = s.unsigned ∧ o.value.Contains (BitVec.ofInt 64 v) := by
  rw [(ofTerms?_eq_some_iff.mp ho).2.2]
  exact ⟨hc.unsigned_eq hs ho, hc.contains hs ho hv⟩

/-- The values of a binary operation are inferred if they are in the set to which they are
restricted. -/
theorem contains_of_restricts {n : Note} {op : Token} (hc : Chooses shape?) (hs : shape? n = some s)
    (hv : s.Holds v)
    (hset : ∀ set, Restricts x y s.unsigned op set → set.Contains (BitVec.ofInt 64 v))
    (ho : (Expr.binary n op x y).operand? = some o) :
    o.unsigned = s.unsigned ∧ o.value.Contains (BitVec.ofInt 64 v) := by
  obtain ⟨out, hout, rfl | ⟨set, hrestricts, rfl⟩⟩ := operand?_binary_cases ho
  · exact contains_of_ofTerms? hc hs hv hout
  · have hunsigned := hc.unsigned_eq hs hout
    refine ⟨(unsigned_restrict out set).trans hunsigned,
      contains_restrict (hc.contains hs hout hv) ?_⟩
    exact hset set (hunsigned ▸ hrestricts)

section Restricted

variable {a b : Int} {set : Value 64}

/-- Masks are in the set to which they are restricted. -/
theorem Restricts.contains_bitAnd (h : Restricts x y s.unsigned .bitAnd set) (hsized : s.IsSized)
    (hx : x.HasValue shape? a) (hy : y.HasValue shape? b) (ha : s.Holds a) (hb : s.Holds b) :
    set.Contains (BitVec.ofInt 64 (s.bitAnd a b)) := by
  cases h with
  | bitAnd hk hset =>
      rw [contains_maskSet? hset, IntegerShape.ofInt_bitAnd hsized ha hb]
      rcases word_of_eitherWord? hk hx hy with rfl | rfl
      · rw [BitVec.and_comm, ← BitVec.and_assoc, BitVec.and_self]
      · rw [BitVec.and_assoc, BitVec.and_self]

/-- Ors are in the set to which they are restricted. -/
theorem Restricts.contains_bitOr (h : Restricts x y s.unsigned .bitOr set) (hsized : s.IsSized)
    (hx : x.HasValue shape? a) (hy : y.HasValue shape? b) (ha : s.Holds a) (hb : s.Holds b) :
    set.Contains (BitVec.ofInt 64 (s.bitOr a b)) := by
  cases h with
  | bitOr hk hset =>
      rw [contains_orSet? hset, IntegerShape.ofInt_bitOr hsized ha hb]
      rcases word_of_eitherWord? hk hx hy with rfl | rfl
      · rw [BitVec.or_comm, ← BitVec.or_assoc, BitVec.or_self]
      · rw [BitVec.or_assoc, BitVec.or_self]

/-- Remainders are in the set to which they are restricted, if the dividend is in the set that
is inferred for it. -/
theorem Restricts.contains_rem (h : Restricts x y s.unsigned .rem set) (hsized : s.IsSized)
    (hy : y.HasValue shape? b) (ha : s.Holds a)
    (hdividend : ∀ k o, y.integer? = some k → x.operand? = some o →
      o.value.Contains (BitVec.ofInt 64 a)) :
    set.Contains (BitVec.ofInt 64 (a.tmod b)) := by
  cases h with
  | rem hk hset =>
      obtain ⟨k, hinteger, hk⟩ := Option.bind_eq_some_iff.mp hk
      cases hy.eq_of_integer? hinteger
      obtain ⟨hword, hb⟩ := word_of_word? hk
      split at hset
      · rename_i hunsigned
        rw [hunsigned] at hb
        exact contains_uremSet? hset hword hb (ha.lt_of_unsigned hsized hunsigned).1
      · rename_i hsigned
        rw [Bool.not_eq_true] at hsigned
        rw [hsigned] at hb
        exact contains_sremSet? hset hword hb (ha.lt_of_signed hsized (by simp [hsigned]))
          fun o => hdividend _ o hinteger

/-- What is computed is in the set to which it is restricted, if the dividend of a remainder is
in the set that is inferred for it. -/
theorem Restricts.contains {op : Token} (h : Restricts x y s.unsigned op set) (hsized : s.IsSized)
    (hx : x.HasValue shape? a) (hy : y.HasValue shape? b) (ha : s.Holds a) (hb : s.Holds b)
    (hcomputes : Computes s a b op v)
    (hdividend : op = .rem → ∀ k o, y.integer? = some k → x.operand? = some o →
      o.value.Contains (BitVec.ofInt 64 a)) : set.Contains (BitVec.ofInt 64 v) := by
  cases hcomputes with
  | bitAnd => exact h.contains_bitAnd hsized hx hy ha hb
  | bitOr => exact h.contains_bitOr hsized hx hy ha hb
  | rem => exact h.contains_rem hsized hy ha (hdividend rfl)

/-- The values of a mask, an or or a remainder are in the set that is inferred for it, if the
dividend of a remainder is in the set that is inferred for it. -/
theorem contains_operation {n : Note} {op : Token} (hc : Chooses shape?) (hs : shape? n = some s)
    (ht : IsGeneric shape? (.binary n op x y)) (hx : x.HasValue shape? a) (hy : y.HasValue shape? b)
    (hcomputes : Computes s a b op v)
    (hdividend : op = .rem → x.IsGeneric shape? → shape? x.note = some s → ∀ dividend,
      x.operand? = some dividend → dividend.value.Contains (BitVec.ofInt 64 a))
    (ho : (Expr.binary n op x y).operand? = some o) :
    o.unsigned = s.unsigned ∧ o.value.Contains (BitVec.ofInt 64 v) := by
  obtain ⟨hxop, hyop, hone⟩ := ht.operands hcomputes.op_cases hs
  have ha := hx.holds_of_isGenericOperand hxop
  have hb := hy.holds_of_isGenericOperand hyop
  refine contains_of_restricts hc hs (hcomputes.holds ha) (fun set hset => ?_) ho
  refine hset.contains (hc.isSized hs) hx hy ha hb hcomputes fun hrem k dividend hk harg => ?_
  cases hxop with
  | varies hxt hxs => exact hdividend hrem hxt hxs dividend harg
  | constant hxk _ =>
      -- The divisor is constant, so the dividend is not.
      rw [hxk, hk] at hone
      rcases hone with hone | hone <;> cases hone

end Restricted

/-! ## Conversions -/

/-- The values of a conversion are inferred if its result is in the set of its operand wherever
that set is kept. -/
theorem contains_conversion {n : Note} {target : String} (hc : Chooses shape?)
    (hs : shape? n = some s)
    (hkept : ∀ out arg, Operand.ofTerms? n.terms = some out → x.operand? = some arg →
      arg.value.IsSubset out.domain → arg.value.Contains (BitVec.ofInt 64 (s.wrap v)))
    (ho : (Expr.conversion n target x).operand? = some o) :
    o.unsigned = s.unsigned ∧ o.value.Contains (BitVec.ofInt 64 (s.wrap v)) := by
  obtain ⟨out, hout, rfl | ⟨arg, harg, hsubset, rfl⟩⟩ := operand?_conversion_cases ho
  · exact contains_of_ofTerms? hc hs (IntegerShape.holds_decode _ _) hout
  · have hunsigned : out.unsigned = s.unsigned := hc.unsigned_eq hs hout
    exact ⟨hunsigned, hkept out arg hout harg hsubset⟩

/-- The value of a constant expression is in the set that is inferred for it. -/
theorem IsConstant.contains_operand {k : Int} (hc : Chooses shape?) (h : x.IsConstant shape? k)
    (ho : x.operand? = some o) : o.value.Contains (BitVec.ofInt 64 k) := by
  induction h generalizing o with
  | leaf hleaf hk hshape hv =>
      exact (contains_of_ofTerms? hc hshape hv (ofTerms?_of_isLeaf hleaf ho)).2
  | paren _ ih => exact ih ho
  | conversion hk hshape hv _ ih =>
      rw [← IntegerShape.wrap_of_holds (hc.isSized hshape) hv]
      refine (contains_conversion hc hshape (fun out arg _ harg _ => ?_) ho).2
      rw [IntegerShape.wrap_of_holds (hc.isSized hshape) hv]
      exact ih harg
  | operation hk hshape hx hy ha hb hcomputes ihx _ =>
      refine (contains_of_restricts hc hshape (hcomputes.holds ha) (fun set hset => ?_) ho).2
      exact hset.contains (hc.isSized hshape) hx.hasValue hy.hasValue ha hb hcomputes
        fun _ _ _ _ hdividend => ihx hdividend

/-- Every set that is kept for a conversion is mapped into itself by the conversion.  Only the
sets of converted expressions and of dividends matter. -/
def Fits (shape? : Note → Option IntegerShape) : Expr → Prop
  | .paren x => x.Fits shape?
  | .conversion n _ x =>
    ∀ s out arg, shape? n = some s → Operand.ofTerms? n.terms = some out → x.integer? = none →
      x.operand? = some arg → arg.value.IsSubset out.domain → x.Fits shape? ∧ s.Preserves arg.value
  | .binary _ op x _ => op = .rem → x.Fits shape?
  | _ => True

/-- If all types are basic types, conversions map the sets that are kept into themselves. -/
theorem fits_shape? : ∀ x : Expr, x.Fits Note.shape?
  | .atom _ _ => trivial
  | .call _ _ _ => trivial
  | .unary _ _ _ => trivial
  | .paren x => fits_shape? x
  | .binary _ _ x _ => fun _ => fits_shape? x
  | .conversion _ _ x => by
      intro s out arg hs hout _ _ hsubset
      refine ⟨fits_shape? x,
        IntegerShape.preserves_of_holds (chooses_shape?.isSized hs) fun y hy => ?_⟩
      exact exists_holds_of_shape? hs hout (hsubset.contains hy)

/-- The values of an expression are in the set that is inferred for it, if conversions map the
sets that are kept into themselves. -/
theorem HasValue.contains_operand (hc : Chooses shape?) (h : x.HasValue shape? v)
    (ht : x.IsGeneric shape?) (hfits : x.Fits shape?) (hs : shape? x.note = some s)
    (ho : x.operand? = some o) :
    o.unsigned = s.unsigned ∧ o.value.Contains (BitVec.ofInt 64 v) := by
  induction h generalizing s o with
  | constant hv =>
      rw [ht.integer?_eq_none] at hv
      cases hv
  | leaf hleaf _ hshape hv =>
      cases hshape.symm.trans hs
      exact contains_of_ofTerms? hc hs hv (ofTerms?_of_isLeaf hleaf ho)
  | paren _ ih =>
      cases ht with
      | leaf hleaf => cases hleaf
      | paren ht => exact ih ht hfits hs ho
  | conversion _ hshape hx ih =>
      cases hshape.symm.trans hs
      have hsized := hc.isSized hs
      refine contains_conversion hc hs (fun out arg hout harg hsubset => ?_) ho
      cases ht with
      | leaf hleaf =>
          rw [operand?_eq_none (List.isEmpty_iff.mp hleaf)] at harg
          cases harg
      | conversion _ _ ht =>
          obtain ⟨s', hs'⟩ := ht.exists_shape
          obtain ⟨hfits, hpreserves⟩ := hfits _ _ _ hs hout ht.integer?_eq_none harg hsubset
          exact hpreserves.contains hsized (ih ht hfits hs' harg).2
      | constant _ hshape hk hv =>
          -- A constant that the type holds is not changed.
          cases hshape.symm.trans hs
          cases hx.eq_of_integer? hk.integer?_eq
          rw [IntegerShape.wrap_of_holds hsized hv]
          exact hk.contains_operand hc harg
  | bitAnd _ hshape hx hy _ _ =>
      cases hshape.symm.trans hs
      exact contains_operation hc hs ht hx hy .bitAnd (fun hrem => by cases hrem) ho
  | bitOr _ hshape hx hy _ _ =>
      cases hshape.symm.trans hs
      exact contains_operation hc hs ht hx hy .bitOr (fun hrem => by cases hrem) ho
  | rem _ hx hy hb ihx _ =>
      refine contains_operation hc hs ht hx hy (.rem hb) (fun _ hxt hxs dividend harg => ?_) ho
      exact (ihx hxt (hfits rfl) hxs harg).2

end Expr

end WordRanges
