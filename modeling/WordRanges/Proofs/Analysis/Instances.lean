import WordRanges.Proofs.Analysis.Findings

/-!
# Type parameters and their instances

An expression whose type is a type parameter has an integer type only in an instance, where each
type parameter stands for one of its terms.  The set that is inferred for the expression is meant
for all instances at once.  It contains the values of an instance if every set that is kept for a
conversion is mapped into itself by the conversion of that instance.  The set of a conversion is
kept if it lies in the smallest set of all terms, though, and not in that of each term, so a
conversion to a narrower term can leave it.

Main results:

- Theorem {lit}`chooses_instanceShape?`: in an instance, types have the shape of one of their terms.
- Theorem {lit}`Expr.forall_contains_iff_preserves`: when the set of a conversion has all its
  values.
- Theorem {lit}`operand_covers_instances`: the values of all instances are inferred, and comparisons
  have the outcome that is decided.
- Theorem {lit}`Narrowed.wrong_finding`: a finding that is wrong in an instance.
-/

namespace WordRanges

open Source Source.BasicType

/-! ## Shapes in an instance -/

/-- The shape of a type in an instance, which gives each type parameter one of its terms. -/
def Note.instanceShape? (term : TypeParam → BasicType) (n : Note) : Option IntegerShape :=
  match n.param? with
  | none => n.shape?
  | some t => if term t ∈ n.terms then (term t).integer? else none

/-- In an instance, types have the shape of one of their terms. -/
theorem chooses_instanceShape? (term : TypeParam → BasicType) :
    Chooses (Note.instanceShape? term) := by
  intro n s hs
  unfold Note.instanceShape? at hs
  split at hs
  · exact chooses_shape? hs
  · split at hs
    · rename_i t _ hmem
      exact ⟨term t, hmem, hs⟩
    · cases hs

/-! ## Inference has a result -/

/-- Terms of the same sign have that order. -/
theorem unsigned?_eq_some {terms : List BasicType} {unsigned : Bool} (hne : terms ≠ [])
    (h : ∀ b ∈ terms, b.integer?.map (·.unsigned) = some unsigned) :
    Operand.unsigned? terms = some unsigned := by
  have hsign (b : BasicType) (hb : b ∈ terms) : b.isUnsigned = unsigned := by
    rw [BasicType.isUnsigned, h b hb, Option.getD_some]
  unfold Operand.unsigned?
  rw [if_neg (by simpa using hne)]
  cases unsigned with
  | true => rw [if_pos (List.all_eq_true.mpr hsign)]
  | false =>
      obtain ⟨b, hb⟩ := List.exists_mem_of_ne_nil terms hne
      rw [if_neg, if_pos]
      · exact List.all_eq_true.mpr fun b hb => by rw [hsign b hb, Bool.not_false]
      · intro hall
        rw [List.all_eq_true] at hall
        exact Bool.false_ne_true ((hsign b hb).symm.trans (hall b hb))

/-- Integer types have a smallest set that contains their values. -/
theorem exists_domain? {terms : List BasicType} (hne : terms ≠ [])
    (h : ∀ b ∈ terms, ∃ s, b.integer? = some s) : ∃ d, Operand.domain? terms = some d := by
  have hfold (bs : List BasicType) (hbs : ∀ b ∈ bs, ∃ s, b.integer? = some s) (v : Value 64) :
      ∃ d, bs.foldlM (fun v b => b.values?.map (integerPolicy.hull v)) v = some d := by
    induction bs generalizing v with
    | nil => exact ⟨v, rfl⟩
    | cons b bs ih =>
        obtain ⟨s, hs⟩ := hbs b List.mem_cons_self
        obtain ⟨all, hall⟩ := exists_values? hs
        obtain ⟨d, hd⟩ :=
          ih (fun b hb => hbs b (List.mem_cons_of_mem _ hb)) (integerPolicy.hull v all)
        refine ⟨d, ?_⟩
        rw [List.foldlM_cons, hall]
        exact hd
  cases terms with
  | nil => exact absurd rfl hne
  | cons b bs =>
      obtain ⟨s, hs⟩ := h b List.mem_cons_self
      obtain ⟨all, hall⟩ := exists_values? hs
      obtain ⟨d, hd⟩ := hfold bs (fun b hb => h b (List.mem_cons_of_mem _ hb)) all
      refine ⟨d, ?_⟩
      rw [Operand.domain?, hall]
      exact hd

/-- Something is inferred for integer types of the same sign. -/
theorem exists_ofTerms? {terms : List BasicType} {unsigned : Bool} (hne : terms ≠ [])
    (h : ∀ b ∈ terms, b.integer?.map (·.unsigned) = some unsigned) :
    ∃ out, Operand.ofTerms? terms = some out := by
  obtain ⟨d, hd⟩ := exists_domain? hne fun b hb =>
    (Option.map_eq_some_iff.mp (h b hb)).imp fun s hs => hs.1
  exact ⟨⟨d, d, unsigned⟩, ofTerms?_eq_some_iff.mpr ⟨unsigned?_eq_some hne h, hd, rfl⟩⟩

namespace Expr

variable {shape? : Note → Option IntegerShape} {x : Expr} {s : IntegerShape} {o : Operand}
variable {n : Note} {target : String} {v : Int}

/-- Something is inferred for an expression if something is inferred for its type; the order and
the values of the type are the same. -/
theorem exists_operand? : ∀ {x : Expr} {out : Operand}, Operand.ofTerms? x.note.terms = some out →
    ∃ o, x.operand? = some o ∧ o.unsigned = out.unsigned ∧ o.domain = out.domain
  | .paren x, _, h => exists_operand? (x := x) h
  | .atom _ _, out, h => ⟨out, h, rfl, rfl⟩
  | .call _ _ _, out, h => ⟨out, h, rfl, rfl⟩
  | .unary _ _ _, out, h => ⟨out, h, rfl, rfl⟩
  | .conversion n _ x, out, h => by
      rw [operand?, show Operand.ofTerms? n.terms = some out from h]
      simp only [Option.bind_eq_bind, Option.bind_some]
      split
      · split <;> exact ⟨_, rfl, rfl, rfl⟩
      · exact ⟨_, rfl, rfl, rfl⟩
  | .binary n _ _ _, out, h => by
      rw [operand?, show Operand.ofTerms? n.terms = some out from h]
      simp only [Option.bind_eq_bind, Option.bind_some]
      split
      · exact ⟨_, rfl, unsigned_restrict out _, domain_restrict out _⟩
      · exact ⟨_, rfl, rfl, rfl⟩

/-! ## Conversions that keep a set -/

/-- The set of the operand is kept for a conversion if it lies in the set of the type. -/
theorem operand?_conversion_of_isSubset {out arg : Operand}
    (hout : Operand.ofTerms? n.terms = some out) (harg : x.operand? = some arg)
    (hsubset : arg.value.IsSubset out.domain) :
    (Expr.conversion n target x).operand? = some { out with value := arg.value } := by
  rw [operand?, hout]
  simp only [Option.bind_eq_bind, Option.bind_some]
  rw [harg]
  exact if_pos hsubset

/-- A conversion of an expression that is an integer has converted values. -/
theorem HasValue.exists_wrap (h : (Expr.conversion n target x).HasValue shape? v)
    (hvaries : n.value? = none) (hs : shape? n = some s) (hx : x.note.terms ≠ []) :
    ∃ a, x.HasValue shape? a ∧ v = s.wrap a := by
  cases h with
  | constant hk => exact absurd hvaries (value?_ne_none_of_integer? hk)
  | leaf hleaf => exact absurd (List.isEmpty_iff.mp hleaf) hx
  | conversion _ hshape ha =>
      cases hshape.symm.trans hs
      exact ⟨_, ha, rfl⟩

/-- Suppose that exactly the values of an operand are inferred for it, and that they are kept for
a conversion.  Then all values of the conversion are inferred if and only if the conversion maps
the set into itself. -/
theorem forall_contains_iff_preserves {out arg : Operand} (hc : Chooses shape?)
    (hvaries : n.value? = none) (hs : shape? n = some s)
    (hout : Operand.ofTerms? n.terms = some out) (harg : x.operand? = some arg)
    (hsubset : arg.value.IsSubset out.domain)
    (hexact : ∀ y, arg.value.Contains y ↔ ∃ a, x.HasValue shape? a ∧ BitVec.ofInt 64 a = y)
    (ho : (Expr.conversion n target x).operand? = some o) :
    (∀ v, (Expr.conversion n target x).HasValue shape? v → o.value.Contains (BitVec.ofInt 64 v)) ↔
      s.Preserves arg.value := by
  have hsized := hc.isSized hs
  have hvalue : o.value = arg.value := by
    rw [operand?_conversion_of_isSubset hout harg hsubset] at ho
    cases ho
    rfl
  rw [hvalue]
  constructor
  · intro hall y hy
    obtain ⟨a, ha, rfl⟩ := (hexact y).mp hy
    rw [IntegerShape.wrap_congr hsized BitVec.ofInt_toInt]
    exact hall _ (.conversion hvaries hs ha)
  · intro hpreserves v hv
    have hterms : x.note.terms ≠ [] := by
      intro hnone
      rw [operand?_eq_none hnone] at harg
      cases harg
    obtain ⟨a, ha, rfl⟩ := hv.exists_wrap hvaries hs hterms
    exact hpreserves.contains hsized ((hexact _).mpr ⟨a, ha, rfl⟩)

end Expr

/-! ## All instances -/

/-- Let the terms of the type of an expression be integer types of the same sign.  Then a set is
inferred for the expression.  In each instance whose conversions map the sets that are kept into
themselves, the set contains the word of every value, and a comparison with a constant has the
outcome that is decided.  Of a conversion that keeps the set of exactly the values of its operand,
the set contains every value only in such an instance. -/
theorem operand_covers_instances (term : TypeParam → BasicType) {e : Expr} {unsigned : Bool}
    (hterms : ∀ b ∈ e.note.terms, b.integer?.map (·.unsigned) = some unsigned)
    (ht : e.IsGeneric (Note.instanceShape? term)) :
    ∃ o, e.operand? = some o ∧ o.unsigned = unsigned ∧
      (e.Fits (Note.instanceShape? term) → ∀ v, e.HasValue (Note.instanceShape? term) v →
        o.value.Contains (BitVec.ofInt 64 v) ∧
        ∀ (op : Comparison) (k : Int) (word : BitVec 64) (outcome : Bool),
          (Constant.int k).word? unsigned = some word →
          op.decide? o.value unsigned word = some outcome → op.compare v k = outcome) ∧
      ∀ (n : Note) (target : String) (x : Expr) (s : IntegerShape) (arg : Operand),
        e = .conversion n target x → n.instanceShape? term = some s → x.operand? = some arg →
        arg.value.IsSubset o.domain →
        (∀ y, arg.value.Contains y ↔
          ∃ a, x.HasValue (Note.instanceShape? term) a ∧ BitVec.ofInt 64 a = y) →
        ((∀ v, e.HasValue (Note.instanceShape? term) v → o.value.Contains (BitVec.ofInt 64 v)) ↔
          s.Preserves arg.value) := by
  have hc := chooses_instanceShape? term
  obtain ⟨s, hs⟩ := ht.exists_shape
  obtain ⟨b, hb, hshape⟩ := hc hs
  obtain ⟨out, hout⟩ := exists_ofTerms? (List.ne_nil_of_mem hb) hterms
  obtain ⟨o, ho, hunsigned, hdomain⟩ := Expr.exists_operand? hout
  have hsign : s.unsigned = unsigned := by
    have hterm := hterms b hb
    rw [hshape] at hterm
    exact Option.some.inj hterm
  refine ⟨o, ho, ?_, ?_, ?_⟩
  · rw [hunsigned, hc.unsigned_eq hs hout, hsign]
  · intro hfits v hv
    have hmember := (hv.contains_operand hc ht hfits hs ho).2
    refine ⟨hmember, fun op k word outcome hword hdecide => ?_⟩
    rw [← hsign] at hword hdecide
    exact compare_eq_of_contains (hc.isSized hs) (hv.holds ht hs) hmember hword hdecide
  · rintro n target x s arg rfl hs harg hsubset hexact
    rw [hdomain] at hsubset
    exact Expr.forall_contains_iff_preserves hc ht.value?_eq_none hs hout harg hsubset hexact ho

/-! ## A conversion to a narrower term -/

namespace Narrowed

/-- A type parameter with two terms. -/
def param : TypeParam :=
  ⟨"T", "~int8 | ~int16", 0⟩

/-- The note on an expression of the type of the parameter. -/
def generic (value? : Option Int) : Note :=
  ⟨[.int8, .int16], some param, value?.map .int⟩

/-- The instance with the narrower term. -/
def narrow : TypeParam → BasicType
  | _ => .int8

/-- A variable of sixteen bits, masked with a constant. -/
def masked (k : Int) : Expr :=
  .binary (Sample.typed .int16 none) .bitAnd (.atom (Sample.typed .int16 none) "y")
    (.atom (Sample.typed .int16 (some k)) (toString k))

/-- The masked variable, converted to the type parameter. -/
def converted (k : Int) : Expr :=
  .conversion (generic none) "T" (masked k)

/-- The converted mask is typed in the narrow instance. -/
theorem isGeneric_converted {k : Int} (hk : (IntegerShape.mk 16 false).Holds k) :
    (converted k).IsGeneric (Note.instanceShape? narrow) :=
  .conversion rfl rfl (.operation (.inl rfl) rfl rfl (.varies (.leaf rfl rfl rfl) rfl)
    (.constant rfl hk) (.inl rfl))

/-- If the variable is an integer, the converted mask is what the narrow type keeps of it. -/
theorem hasValue_converted {a k v : Int} (ha : (IntegerShape.mk 16 false).Holds a)
    (hv : (IntegerShape.mk 8 false).wrap ((IntegerShape.mk 16 false).bitAnd a k) = v) :
    (converted k).HasValue (Note.instanceShape? narrow) v :=
  hv ▸ .conversion rfl rfl (.bitAnd rfl rfl (.leaf rfl rfl rfl ha) (.constant rfl))

/-- The integers that are inferred for a variable masked with 127 are those of the narrow type, so
converting does not change them. -/
theorem fits_converted : (converted 127).Fits (Note.instanceShape? narrow) := by
  intro s out arg hs _ _ harg _
  cases hs
  obtain ⟨all, hall⟩ := exists_values? (show BasicType.int8.integer? = some ⟨8, false⟩ from rfl)
  have hsmall : ∀ o ∈ (masked 127).operand?, ∀ all ∈ BasicType.int8.values?,
      o.value.IsSubset all := by decide +kernel
  refine ⟨nofun, IntegerShape.preserves_of_holds (by decide) fun y hy => ?_⟩
  exact (contains_values? rfl hall).mp ((hsmall arg harg all hall).contains hy)

/-- In the narrow instance, the converted mask is not below zero. -/
theorem converted_nonneg : ∃ o, (converted 127).operand? = some o ∧
    Comparison.lt.decide? o.value false 0 = some false ∧
    (converted 127).HasValue (Note.instanceShape? narrow) 127 ∧
    o.value.Contains (BitVec.ofInt 64 127) ∧ Comparison.lt.compare 127 0 = false := by
  have hdecided : (converted 127).operand?.bind
      (fun o => Comparison.lt.decide? o.value false 0) = some false := by decide +kernel
  obtain ⟨o, ho, hdecide⟩ := Option.bind_eq_some_iff.mp hdecided
  have hvalue : (converted 127).HasValue (Note.instanceShape? narrow) 127 :=
    hasValue_converted (a := -1) (by decide) (by decide)
  have hterms : ∀ b ∈ (converted 127).note.terms, b.integer?.map (·.unsigned) = some false := by
    decide
  obtain ⟨o', ho', -, hcovers, -⟩ :=
    operand_covers_instances narrow hterms (isGeneric_converted (by decide))
  cases ho.symm.trans ho'
  obtain ⟨hmember, hcompare⟩ := hcovers fits_converted 127 hvalue
  exact ⟨o, ho, hdecide, hvalue, hmember, hcompare .lt 0 0 false rfl hdecide⟩

/-- A variable masked with 255 that is converted to the narrow type can be below zero, but is found
not to be. -/
theorem wrong_finding : ∃ f,
    findingOf? .lt (converted 255) (.atom (generic (some 0)) "0") = some f ∧ f.outcome = false ∧
    (converted 255).IsGeneric (Note.instanceShape? narrow) ∧
    (converted 255).HasValue (Note.instanceShape? narrow) (-128) ∧
    ¬ f.operand.value.Contains (BitVec.ofInt 64 (-128)) ∧
    Comparison.lt.compare (-128) 0 = true := by
  have hfound : (findingOf? .lt (converted 255) (.atom (generic (some 0)) "0")).map
      (fun f => (f.outcome, decide (f.operand.value.Contains (BitVec.ofInt 64 (-128))))) =
        some (false, false) := by decide +kernel
  obtain ⟨f, hf, hresult⟩ := Option.map_eq_some_iff.mp hfound
  obtain ⟨houtcome, hescapes⟩ := Prod.mk.inj hresult
  have hvalue : (converted 255).HasValue (Note.instanceShape? narrow) (-128) :=
    hasValue_converted (a := 128) (by decide) (by decide)
  exact ⟨f, hf, houtcome, isGeneric_converted (by decide), hvalue, of_decide_eq_false hescapes, rfl⟩

end Narrowed
end WordRanges
