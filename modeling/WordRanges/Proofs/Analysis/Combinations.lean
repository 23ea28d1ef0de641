import WordRanges.Analysis.Operand
import WordRanges.Command.Run
import WordRanges.Proofs.Analysis.Integers
import WordRanges.Proofs.Domain.Combining
import WordRanges.Proofs.Flow.Monotone

/-!
# Uses of combined values

The command line combines the values of its operands, a merge node the states of its inputs,
and the analysis of expressions the values of all types that a type parameter stands for.
Hulls and intersections obey the laws of combining, so each of these depends only on which
values are combined, not on their order, their grouping or how often they occur.

Main results:

- Theorem {lit}`Operand.domain?_eq`: the set of all values of some types.
- Theorem {lit}`Policy.combining_laws`: the laws, absorption, and all uses of combining.
-/

namespace WordRanges

namespace Operand

open Source

variable {types types' : List BasicType}

/-- Types of which one has no values have no set of all values. -/
theorem domain?_eq_none (h : none ∈ types.map BasicType.values?) : domain? types = none := by
  have hfold (bs : List BasicType) (h : none ∈ bs.map BasicType.values?) (v : Value 64) :
      bs.foldlM (fun v b => b.values?.map (integerPolicy.hull v)) v = none := by
    induction bs generalizing v with
    | nil => cases h
    | cons b bs ih =>
        rw [List.foldlM_cons]
        rcases List.mem_cons.mp h with hb | h
        · rw [← hb]
          rfl
        · exact Option.bind_eq_none_iff.mpr fun u _ => ih h u
  cases types with
  | nil => cases h
  | cons b bs =>
      rw [domain?]
      rcases List.mem_cons.mp h with hb | h
      · rw [← hb]
        rfl
      · exact Option.bind_eq_none_iff.mpr fun u _ => hfold bs h u

/-- The set of all values of types that have values is the hull of these. -/
theorem domain?_eq_hullAll? {vs : List (Value 64)}
    (h : types.map BasicType.values? = vs.map some) :
    domain? types = integerPolicy.hullAll? vs := by
  have hfold (bs : List BasicType) (us : List (Value 64))
      (h : bs.map BasicType.values? = us.map some) (v : Value 64) :
      bs.foldlM (fun v b => b.values?.map (integerPolicy.hull v)) v =
        some (us.foldl integerPolicy.hull v) := by
    induction bs generalizing us v with
    | nil =>
        rw [List.map_nil, eq_comm, List.map_eq_nil_iff] at h
        rw [h]
        rfl
    | cons b bs ih =>
        obtain ⟨u, us, rfl, hu, hus⟩ := List.map_eq_cons_iff.mp h.symm
        rw [List.foldlM_cons, ← hu]
        exact ih us hus.symm (integerPolicy.hull v u)
  cases vs with
  | nil => rw [List.map_eq_nil_iff.mp h, domain?, Policy.hullAll?]
  | cons v vs =>
      obtain ⟨b, bs, rfl, hb, hbs⟩ := List.map_eq_cons_iff.mp h
      rw [domain?, hb]
      exact hfold bs vs hbs v

/-- The set of all values of some types depends only on the sets of values that they have. -/
theorem domain?_eq
    (hsame : ∀ s, s ∈ types.map BasicType.values? ↔ s ∈ types'.map BasicType.values?) :
    domain? types = domain? types' := by
  by_cases hnone : none ∈ types.map BasicType.values?
  · rw [domain?_eq_none hnone, domain?_eq_none ((hsame none).mp hnone)]
  · have hvalues (l : List BasicType) (hl : none ∉ l.map BasicType.values?) :
        l.map BasicType.values? = (l.filterMap BasicType.values?).map some := by
      induction l with
      | nil => rfl
      | cons b l ih =>
          rw [List.map_cons, List.mem_cons, not_or] at hl
          obtain ⟨v, hv⟩ := Option.ne_none_iff_exists'.mp (Ne.symm hl.1)
          rw [List.map_cons, List.filterMap_cons, hv, List.map_cons, ih hl.2]
    have heq := hvalues types hnone
    have heq' := hvalues types' (mt (hsame none).mpr hnone)
    rw [domain?_eq_hullAll? heq, domain?_eq_hullAll? heq']
    refine Policy.hullAll?_eq (fun x hx => ?_) fun x => ?_
    · obtain ⟨b, -, hb⟩ := List.mem_filterMap.mp hx
      exact BasicType.valid_of_values? hb
    · have h := hsame (some x)
      rw [heq, heq'] at h
      simpa using h

end Operand

namespace Policy

variable {w : Nat} {p : Policy} {a b c : Value w}

/-- Intersecting from the left combines the values. -/
theorem intersectAll?_eq_combineAll (p : Policy) (v : Value w) (vs : List (Value w)) :
    intersectAll? p v vs = combineAll p.intersect? v vs := by
  induction vs generalizing v with
  | nil => rfl
  | cons u us ih =>
      rw [intersectAll?, combineAll]
      exact Option.bind_congr fun v _ => ih v

/-- Hulls and intersections of values that were made, with any counters, are idempotent,
commutative and associative, and they absorb each other up to counters.  So what a command makes
of its operands, the combined state of a merge node and the set of all values of some types
depend only on which values are combined. -/
theorem combining_laws (ha : p.Makes a) (hb : p.Makes b) (hc : p.Makes c) :
    (p.hull? a b = some (p.hull a b) ∧ p.hull a a = a ∧ p.hull a b = p.hull b a ∧
      p.hull (p.hull a b) c = p.hull a (p.hull b c)) ∧
    (p.intersect? a a = some a ∧ p.intersect? a b = p.intersect? b a ∧
      (p.intersect? a b).bind (p.intersect? · c) = (p.intersect? b c).bind (p.intersect? a)) ∧
    ((∃ v, p.intersect? a (p.hull a b) = some v ∧ v.SameSet a) ∧
      ∀ v, p.intersect? a b = some v → (p.hull a v).SameSet a) ∧
    (∀ (u v : Value w) (us vs : List (Value w)), (∀ x ∈ u :: us, p.Makes x) →
      (∀ x, x ∈ u :: us ↔ x ∈ v :: vs) →
        Operation.meet.apply? p u us = Operation.meet.apply? p v vs ∧
          Operation.join.apply? p u us = Operation.join.apply? p v vs) ∧
    (∀ (checked : Bool) (maxNarrow : Int) (states states' : List (Option (Value w))),
      (∀ x, some x ∈ states → p.Makes x) → (∀ x, some x ∈ states ↔ some x ∈ states') →
        (Flow.mergeStates (p.framework w checked maxNarrow) none states).1 =
          (Flow.mergeStates (p.framework w checked maxNarrow) none states').1) ∧
    ∀ types types' : List Source.BasicType,
      (∀ s, s ∈ types.map Source.BasicType.values? ↔ s ∈ types'.map Source.BasicType.values?) →
        Operand.domain? types = Operand.domain? types' := by
  have hintersect := combines_intersect p w
  refine ⟨⟨hull?_eq_some ha.valid b, hull_self p a, hull_comm ha.valid hb.valid,
      hull_assoc ha.valid hb.valid hc.valid⟩,
    ⟨hintersect.idem ha.valid, hintersect.comm ha.valid hb.valid,
      hintersect.assoc ha.valid hb.valid hc.valid⟩,
    ⟨intersect?_hull ha.valid b, fun v => hull_intersect? ha.valid⟩, ?_, ?_,
    fun types types' => Operand.domain?_eq⟩
  · intro u v us vs hmakes hsame
    have hvalid : ∀ x ∈ u :: us, p.Valid x := fun x hx => (hmakes x hx).valid
    constructor
    · exact hullAll?_eq hvalid hsame
    · change intersectAll? p u us = intersectAll? p v vs
      rw [intersectAll?_eq_combineAll, intersectAll?_eq_combineAll]
      exact hintersect.combineAll_eq hvalid hsame
  · intro checked maxNarrow states states' hmakes hsame
    exact mergeStates_eq (fun x hx => (hmakes x hx).valid) hsame

/-! ### Three overlapping sets with unusual counters -/

namespace Overlapping

/-- The words from zero to nine, with a counter below zero. -/
def low : Value 8 :=
  ⟨⟨⟨0, 9⟩, ⟨0, 9⟩, ⟨0xf0, 0⟩⟩, -2⟩

/-- The words from minus five to twenty, with a counter beyond the budget. -/
def middle : Value 8 :=
  ⟨⟨⟨-5, 20⟩, ⟨0, -1⟩, ⟨0, 0⟩⟩, 7⟩

/-- The even words from four to forty. -/
def high : Value 8 :=
  ⟨⟨⟨4, 40⟩, ⟨4, 40⟩, ⟨0xc1, 0⟩⟩, 1⟩

theorem makes_low : Policy.default.Makes low :=
  Valid.makes ⟨by decide +kernel, by decide⟩

theorem makes_middle : Policy.default.Makes middle :=
  Valid.makes ⟨by decide +kernel, by decide⟩

theorem makes_high : Policy.default.Makes high :=
  Valid.makes ⟨by decide +kernel, by decide⟩

/-- The three sets have a common member; they can be grouped, ordered and repeated at will. -/
theorem grouped_at_will : Policy.default.Makes low ∧ Policy.default.Makes middle ∧
    Policy.default.Makes high ∧
    (Policy.default.hull (Policy.default.hull low middle) high =
      Policy.default.hull low (Policy.default.hull middle high)) ∧
    ((Policy.default.intersect? low middle).bind (Policy.default.intersect? · high) =
      (Policy.default.intersect? middle high).bind (Policy.default.intersect? low)) ∧
    Operation.join.apply? Policy.default low [middle, high] ≠ none ∧
    Operation.join.apply? Policy.default low [middle, high] =
      Operation.join.apply? Policy.default high [low, low, middle] ∧
    (Flow.mergeStates (Policy.default.framework 8 true 3) none [some low, none, some high]).1 =
      (Flow.mergeStates (Policy.default.framework 8 true 3) none
        [some high, some low, some high]).1 ∧
    Operand.domain? [.int8, .uint16, .int8] = Operand.domain? [.uint16, .int8] := by
  obtain ⟨⟨-, -, -, hhull⟩, ⟨-, -, hintersect⟩, -, hfold, hmerge, htypes⟩ :=
    combining_laws makes_low makes_middle makes_high
  refine ⟨makes_low, makes_middle, makes_high, hhull, hintersect, by decide +kernel, ?_, ?_, ?_⟩
  · refine (hfold low high [middle, high] [low, low, middle] ?_ ?_).2
    · simp [makes_low, makes_middle, makes_high]
    · intro x
      simp only [List.mem_cons, List.not_mem_nil, or_false]
      grind
  · refine hmerge true 3 _ _ ?_ ?_
    · simp [makes_low, makes_high]
    · intro x
      simp only [List.mem_cons, List.not_mem_nil, or_false]
      grind
  · refine htypes _ _ fun s => ?_
    simp only [List.map_cons, List.map_nil, List.mem_cons, List.not_mem_nil, or_false]
    grind

end Overlapping

end Policy
end WordRanges
