import WordRanges.Proofs.Domain.Spans

/-!
# Combining values

Hulls and intersections are commutative, associative and idempotent, widen counters included.
The counter of a hull is the larger one, unless every word is a member; the counter of an
intersection is the smaller one, unless the set is small.  In both exceptions the counter is
told by the set alone, and a set that is combined further stays an exception.  So combining the
values of a list one after the other depends only on which values occur in it.

Joining the parts of two values needs no further tightening: each joined bound is a member of one
of them, and a bit that is known in the hull is known in both.

Main results:

- Theorem {lit}`Combines.combineAll_eq`: combining a list depends on its elements only.
- Theorem {lit}`Constraint.IsTightest.hull`: joined parts describe the union of two sets tightly.
- Theorem {lit}`Policy.constraint_hull`: a hull has exactly the joined parts of its operands.
- Theorems {lit}`Policy.combines_hull` and {lit}`Policy.combines_intersect`: the laws of both
  operations.
- Theorems {lit}`Policy.intersect?_hull` and {lit}`Policy.hull_intersect?`: they absorb each other.
- Theorem {lit}`Policy.hullAll?_eq`: the hull of a list depends on its values only.
-/

namespace WordRanges

/-! ## Operations that combine -/

section Combining

variable {α : Type} {V : α → Prop} {op : α → α → Option α} {a b r : α} {as bs : List α}

/-- An operation on elements of a kind that need not have a result and that is idempotent,
commutative and associative; a missing result makes all further results missing. -/
structure Combines (V : α → Prop) (op : α → α → Option α) : Prop where
  closed : ∀ {a b c}, V a → V b → op a b = some c → V c
  idem : ∀ {a}, V a → op a a = some a
  comm : ∀ {a b}, V a → V b → op a b = op b a
  assoc : ∀ {a b c}, V a → V b → V c → (op a b).bind (op · c) = (op b c).bind (op a)

/-- The elements of a list combined one after the other; nothing from the first missing result
on. -/
def combineAll (op : α → α → Option α) : α → List α → Option α
  | a, [] => some a
  | a, b :: bs => (op a b).bind (combineAll op · bs)

/-- The result of combining two elements absorbs both of them. -/
theorem Combines.absorbs (h : Combines V op) (ha : V a) (hb : V b) (hr : op a b = some r) :
    op r a = some r ∧ op r b = some r := by
  constructor
  · have hassoc := h.assoc ha ha hb
    rw [h.idem ha, Option.bind_some, hr, Option.bind_some] at hassoc
    rw [h.comm (h.closed ha hb hr) ha]
    exact hassoc.symm
  · have hassoc := h.assoc ha hb hb
    rw [h.idem hb, Option.bind_some, hr, Option.bind_some] at hassoc
    exact hassoc

/-- The result of combining a list is of the kind of its elements. -/
theorem Combines.closed_combineAll (h : Combines V op) (hV : ∀ x ∈ a :: as, V x)
    (hr : combineAll op a as = some r) : V r := by
  induction as generalizing a with
  | nil =>
      cases hr
      exact hV _ List.mem_cons_self
  | cons b as ih =>
      obtain ⟨c, hc, hr⟩ := Option.bind_eq_some_iff.mp hr
      refine ih (List.forall_mem_cons.mpr ⟨?_, ?_⟩) hr
      · exact h.closed (hV a List.mem_cons_self) (hV b (List.mem_cons_of_mem _ List.mem_cons_self))
          hc
      · exact fun x hx => hV x (List.mem_cons_of_mem _ (List.mem_cons_of_mem _ hx))

/-- The result of combining a list absorbs all its elements. -/
theorem Combines.absorbs_combineAll (h : Combines V op) (hV : ∀ x ∈ a :: as, V x)
    (hr : combineAll op a as = some r) : ∀ x ∈ a :: as, op r x = some r := by
  induction as generalizing a with
  | nil =>
      cases hr
      intro x hx
      rw [List.mem_singleton.mp hx]
      exact h.idem (hV _ List.mem_cons_self)
  | cons b as ih =>
      obtain ⟨c, hc, hr⟩ := Option.bind_eq_some_iff.mp hr
      obtain ⟨ha, hb, has⟩ := List.forall_mem_cons.mp hV |>.imp id List.forall_mem_cons.mp
      have hcV : V c := h.closed ha hb hc
      have hcas : ∀ x ∈ c :: as, V x := List.forall_mem_cons.mpr ⟨hcV, has⟩
      have hrV : V r := h.closed_combineAll hcas hr
      obtain ⟨hrc, hras⟩ := List.forall_mem_cons.mp (ih hcas hr)
      -- What the first result absorbs is absorbed by every later one.
      have hthrough {x : α} (hx : V x) (hcx : op c x = some c) : op r x = some r := by
        have hassoc := h.assoc hrV hcV hx
        rw [hrc, hcx, Option.bind_some, Option.bind_some, hrc] at hassoc
        exact hassoc
      obtain ⟨hca, hcb⟩ := h.absorbs ha hb hc
      exact List.forall_mem_cons.mpr
        ⟨hthrough ha hca, List.forall_mem_cons.mpr ⟨hthrough hb hcb, hras⟩⟩

/-- A list whose elements are all absorbed by some element can be combined, and that element
absorbs the result. -/
theorem Combines.exists_combineAll (h : Combines V op) (hV : ∀ x ∈ a :: as, V x) (hr : V r)
    (habsorbs : ∀ x ∈ a :: as, op r x = some r) :
    ∃ s, combineAll op a as = some s ∧ op r s = some r := by
  induction as generalizing a with
  | nil => exact ⟨a, rfl, habsorbs a List.mem_cons_self⟩
  | cons b as ih =>
      obtain ⟨ha, hb, has⟩ := List.forall_mem_cons.mp hV |>.imp id List.forall_mem_cons.mp
      obtain ⟨hra, hrb, hras⟩ :=
        List.forall_mem_cons.mp habsorbs |>.imp id List.forall_mem_cons.mp
      have hassoc := h.assoc hr ha hb
      rw [hra, Option.bind_some, hrb] at hassoc
      obtain ⟨c, hc, hrc⟩ := Option.bind_eq_some_iff.mp hassoc.symm
      obtain ⟨s, hs, hrs⟩ := ih (List.forall_mem_cons.mpr ⟨h.closed ha hb hc, has⟩)
        (List.forall_mem_cons.mpr ⟨hrc, hras⟩)
      refine ⟨s, ?_, hrs⟩
      rw [combineAll, hc, Option.bind_some]
      exact hs

/-- If one list can be combined, so can every list with the same elements, with the same
result. -/
theorem Combines.combineAll_eq_some (h : Combines V op) (hV : ∀ x ∈ a :: as, V x)
    (hsame : ∀ x, x ∈ a :: as ↔ x ∈ b :: bs) (hr : combineAll op a as = some r) :
    combineAll op b bs = some r := by
  have hV' : ∀ x ∈ b :: bs, V x := fun x hx => hV x ((hsame x).mpr hx)
  have hrV := h.closed_combineAll hV hr
  have habsorbs := h.absorbs_combineAll hV hr
  obtain ⟨s, hs, hrs⟩ :=
    h.exists_combineAll hV' hrV fun x hx => habsorbs x ((hsame x).mpr hx)
  -- Each of the two results absorbs the other.
  have hsV := h.closed_combineAll hV' hs
  have habsorbs' := h.absorbs_combineAll hV' hs
  obtain ⟨r', hr', hsr⟩ := h.exists_combineAll hV hsV fun x hx => habsorbs' x ((hsame x).mp hx)
  rw [hr, Option.some.injEq] at hr'
  rw [← hr', h.comm hsV hrV, hrs, Option.some.injEq] at hsr
  rw [hs, hsr]

/-- Combining the elements of a list depends only on which elements it has. -/
theorem Combines.combineAll_eq (h : Combines V op) (hV : ∀ x ∈ a :: as, V x)
    (hsame : ∀ x, x ∈ a :: as ↔ x ∈ b :: bs) : combineAll op a as = combineAll op b bs := by
  have hV' : ∀ x ∈ b :: bs, V x := fun x hx => hV x ((hsame x).mpr hx)
  cases hr : combineAll op a as with
  | some r => exact (h.combineAll_eq_some hV hsame hr).symm
  | none =>
      cases hs : combineAll op b bs with
      | none => rfl
      | some s =>
          have hsame' := fun x => (hsame x).symm
          exact hr.symm.trans (h.combineAll_eq_some hV' hsame' hs)

end Combining

/-! ## Joined parts -/

section Joining

variable {w : Nat}

namespace Word

variable {M : BitVec w → Prop} {x y : BitVec w}

/-- The smaller of two words in signed order is one of them. -/
theorem smin_mem (hx : M x) (hy : M y) : M (smin x y) := by
  unfold smin
  split
  · exact hx
  · exact hy

/-- The larger of two words in signed order is one of them. -/
theorem smax_mem (hx : M x) (hy : M y) : M (smax x y) := by
  unfold smax
  split
  · exact hy
  · exact hx

/-- The smaller of two words in unsigned order is one of them. -/
theorem umin_mem (hx : M x) (hy : M y) : M (umin x y) := by
  unfold umin
  split
  · exact hx
  · exact hy

/-- The larger of two words in unsigned order is one of them. -/
theorem umax_mem (hx : M x) (hy : M y) : M (umax x y) := by
  unfold umax
  split
  · exact hy
  · exact hx

end Word

namespace Constraint

variable {c d : Constraint w} {M N : BitVec w → Prop}

/-- What is tightest for a set is tightest for all words that meet it. -/
theorem IsTightest.self (h : c.IsTightest M) : c.IsTightest c.Contains where
  signed_lo := ⟨h.contains h.signed_lo.1, fun _ hx => hx.1.1⟩
  signed_hi := ⟨h.contains h.signed_hi.1, fun _ hx => hx.1.2⟩
  unsigned_lo := ⟨h.contains h.unsigned_lo.1, fun _ hx => hx.2.1.1⟩
  unsigned_hi := ⟨h.contains h.unsigned_hi.1, fun _ hx => hx.2.1.2⟩
  zeros i hi := by
    constructor
    · intro hz x hx
      exact (KnownBits.satisfies_iff.mp hx.2.2 i).1 hz
    · intro hall
      exact (h.zeros i hi).mpr fun x hx => hall x (h.contains hx)
  ones i hi := by
    constructor
    · intro ho x hx
      exact (KnownBits.satisfies_iff.mp hx.2.2 i).2 ho
    · intro hall
      exact (h.ones i hi).mpr fun x hx => hall x (h.contains hx)

/-- The joined parts of the tightest constraints of two sets are tightest for their union. -/
theorem IsTightest.hull (hc : c.IsTightest M) (hd : d.IsTightest N) :
    (Policy.hullConstraint c d).IsTightest fun x => M x ∨ N x := by
  have hmeets {x : BitVec w} (hx : M x ∨ N x) : (Policy.hullConstraint c d).Contains x := by
    rcases hx with hx | hx
    · exact Policy.contains_hullConstraint_left (hc.contains hx)
    · exact Policy.contains_hullConstraint_right (hd.contains hx)
  refine ⟨⟨?_, fun x hx => (hmeets hx).1.1⟩, ⟨?_, fun x hx => (hmeets hx).1.2⟩,
    ⟨?_, fun x hx => (hmeets hx).2.1.1⟩, ⟨?_, fun x hx => (hmeets hx).2.1.2⟩, ?_, ?_⟩
  -- Each joined bound is a bound of one of the constraints, hence in one of the sets.
  · exact Word.smin_mem (M := fun x => M x ∨ N x) (.inl hc.signed_lo.1) (.inr hd.signed_lo.1)
  · exact Word.smax_mem (M := fun x => M x ∨ N x) (.inl hc.signed_hi.1) (.inr hd.signed_hi.1)
  · exact Word.umin_mem (M := fun x => M x ∨ N x) (.inl hc.unsigned_lo.1) (.inr hd.unsigned_lo.1)
  · exact Word.umax_mem (M := fun x => M x ∨ N x) (.inl hc.unsigned_hi.1) (.inr hd.unsigned_hi.1)
  · intro i hi
    have hboth : (c.bits.zeros &&& d.bits.zeros).getLsbD i = true ↔
        (∀ x, M x → x.getLsbD i = false) ∧ ∀ x, N x → x.getLsbD i = false := by
      rw [BitVec.getLsbD_and, Bool.and_eq_true, hc.zeros i hi, hd.zeros i hi]
    exact hboth.trans (by simp only [or_imp, forall_and])
  · intro i hi
    have hboth : (c.bits.ones &&& d.bits.ones).getLsbD i = true ↔
        (∀ x, M x → x.getLsbD i = true) ∧ ∀ x, N x → x.getLsbD i = true := by
      rw [BitVec.getLsbD_and, Bool.and_eq_true, hc.ones i hi, hd.ones i hi]
    exact hboth.trans (by simp only [or_imp, forall_and])

/-- Canonicalizing does not change what is tightest for some set. -/
theorem IsTightest.canonical?_eq (h : c.IsTightest M) : c.canonical? = some c :=
  canonical?_eq_some h.self

end Constraint

end Joining

namespace Policy

variable {w : Nat} {p q r : Policy} {a b c v : Value w}

/-! ## Values and their counters -/

/-- A value of a policy is what its own constraint and counter make. -/
theorem Valid.make?_eq_some (h : p.Valid a) : p.make? a.constraint a.widen = some a :=
  make?_eq_some_iff.mpr ⟨h.canonical, h.normal.symm⟩

/-- A value that belongs to a policy can be made. -/
theorem Valid.makes (h : p.Valid a) : p.Makes a := by
  refine ⟨[.make a.constraint a.widen], [a], ?_, List.mem_singleton_self a⟩
  simp only [run, perform, h.make?_eq_some, Answer.ofOption, List.nil_append]

/-- Values of a policy are equal if they have the same members and counters. -/
theorem Valid.eq_of_isSubset (ha : p.Valid a) (hb : p.Valid b) (hab : a.IsSubset b)
    (hba : b.IsSubset a) (hwiden : a.widen = b.widen) : a = b := by
  have hsame : a.constraint = b.constraint :=
    (ha.sameSet_iff hb).mpr fun _ => ⟨hab.contains, hba.contains⟩
  exact Value.ext hsame hwiden

/-- The counter of a small set does not depend on what it is made with. -/
theorem normalWiden_of_small {d : Constraint w} (h : d.span.toNat ≤ p.smallSpan.toNat) (n : Int) :
    p.normalWiden d n = 0 :=
  if_pos h

/-- The counter of all words does not depend on what it is made with. -/
theorem normalWiden_full (p : Policy) (w : Nat) (m n : Int) :
    p.normalWiden (.full w) m = p.normalWiden (.full w) n := by
  unfold normalWiden
  split
  · rfl
  · rw [if_pos rfl, if_pos rfl]

/-- The counter of a set that is neither small nor all words is the one it is made with. -/
theorem normalWiden_eq {d : Constraint w} (hlarge : ¬ d.span.toNat ≤ p.smallSpan.toNat)
    (hfull : d ≠ .full w) (n : Int) : p.normalWiden d n = n := by
  rw [normalWiden, if_neg hlarge, if_neg hfull]

/-- A value that is included in a small one has counter zero. -/
theorem Valid.widen_eq_zero (ha : p.Valid a) (hv : p.Valid v) (hsubset : a.IsSubset v)
    (hsmall : v.constraint.span.toNat ≤ p.smallSpan.toNat) : a.widen = 0 := by
  have hspan := ha.isTightest.span_le hv.isTightest fun _ => hsubset.contains
  rw [← ha.normal, normalWiden_of_small (Nat.le_trans hspan hsmall)]

/-- A value that includes all words is all words. -/
theorem Valid.constraint_eq_full (ha : p.Valid a) (hv : v.IsSubset a)
    (hfull : v.constraint = .full w) : a.constraint = .full w := by
  have hall : a.isDomain = true := ha.isDomain_iff.mpr fun x => hv.contains (by
    rw [Value.Contains, hfull]
    exact Constraint.contains_full x)
  simpa [Value.isDomain] using hall

/-! ## Hulls -/

/-- The joined parts of a constraint and itself. -/
theorem hullConstraint_self (d : Constraint w) : hullConstraint d d = d := by
  simp [hullConstraint, KnownBits.common, Word.smin, Word.smax, Word.umin, Word.umax]

/-- The hull of a value and itself is the value. -/
theorem hull_self (p : Policy) (a : Value w) : p.hull a a = a := by
  rw [hull, hull?, if_pos rfl, Option.getD_some]

/-- The joined parts of two values are tightest for the members of both. -/
theorem Valid.isTightest_hull (ha : q.Valid a) (hb : r.Valid b) :
    (hullConstraint a.constraint b.constraint).IsTightest fun x => a.Contains x ∨ b.Contains x :=
  ha.isTightest.hull hb.isTightest

/-- Two values have a hull under every policy, and it has exactly their joined parts. -/
theorem constraint_hull (p : Policy) (ha : q.Valid a) (hb : r.Valid b) :
    p.hull? a b = some (p.hull a b) ∧
      (p.hull a b).constraint = hullConstraint a.constraint b.constraint := by
  by_cases hab : a = b
  · rw [← hab, hull_self, hullConstraint_self]
    exact ⟨if_pos rfl, rfl⟩
  · have hcanonical := (ha.isTightest_hull hb).canonical?_eq
    have hmake : p.hull? a b = some ⟨hullConstraint a.constraint b.constraint,
        p.normalWiden (hullConstraint a.constraint b.constraint) (max a.widen b.widen)⟩ := by
      rw [hull?, if_neg hab]
      exact make?_eq_some_iff.mpr ⟨hcanonical, rfl⟩
    rw [hull, hmake]
    exact ⟨rfl, rfl⟩

/-- The hull of two values is what their joined parts make, also if they are equal. -/
theorem hull?_eq_make? (ha : p.Valid a) :
    p.hull? a b = p.make? (hullConstraint a.constraint b.constraint) (max a.widen b.widen) := by
  unfold hull?
  split
  · rename_i hab
    rw [← hab, hullConstraint_self, Int.max_self, ha.make?_eq_some]
  · rfl

/-- A hull belongs to the policy. -/
theorem valid_hull (ha : p.Valid a) (b : Value w) : p.Valid (p.hull a b) :=
  valid_of_hull? ha (hull?_eq_some ha b)

/-- Values are included in their hull. -/
theorem isSubset_hull (ha : p.Valid a) (hb : p.Valid b) :
    a.IsSubset (p.hull a b) ∧ b.IsSubset (p.hull a b) :=
  ⟨ha.isSubset fun _ => contains_hull_left, hb.isSubset fun _ => contains_hull_right⟩

/-- A hull is included in what includes both values. -/
theorem hull_isSubset {o : Value w} (ha : p.Valid a) (hb : p.Valid b) (hao : a.IsSubset o)
    (hbo : b.IsSubset o) : (p.hull a b).IsSubset o := by
  have htightest := ha.isTightest_hull hb
  rw [← (constraint_hull p ha hb).2] at htightest
  refine Value.isSubset_of_isTightest htightest ?_
  rintro x (hx | hx)
  · exact hao.contains hx
  · exact hbo.contains hx

/-- The counter of a hull is the normal one for the larger counter. -/
theorem widen_hull (ha : p.Valid a) (b : Value w) :
    (p.hull a b).widen = p.normalWiden (p.hull a b).constraint (max a.widen b.widen) :=
  (make?_eq_some_iff.mp ((hull?_eq_make? ha).symm.trans (hull?_eq_some ha b))).2

/-- The counter of a hull is the larger counter, unless every word is a member. -/
theorem widen_hull_cases (ha : p.Valid a) (hb : p.Valid b) :
    (p.hull a b).widen = max a.widen b.widen ∨ (p.hull a b).constraint = .full w := by
  obtain ⟨hahull, hbhull⟩ := isSubset_hull ha hb
  have hhull := valid_hull ha b
  by_cases hfull : (p.hull a b).constraint = .full w
  · exact .inr hfull
  · left
    by_cases hsmall : (p.hull a b).constraint.span.toNat ≤ p.smallSpan.toNat
    · -- Both values are small as well.
      rw [hhull.widen_eq_zero hhull (.refl _) hsmall, ha.widen_eq_zero hhull hahull hsmall,
        hb.widen_eq_zero hhull hbhull hsmall, Int.max_self]
    · rw [widen_hull ha b, normalWiden_eq hsmall hfull]

/-- The order of two values does not matter for their hull. -/
theorem hull_comm (ha : p.Valid a) (hb : p.Valid b) : p.hull a b = p.hull b a := by
  have h : p.hull? a b = p.hull? b a := by
    rw [hull?_eq_make? ha, hull?_eq_make? hb, hullConstraint_comm, Int.max_comm]
  rw [hull?_eq_some ha, hull?_eq_some hb] at h
  exact Option.some.inj h

/-- Hulls of three values do not depend on which two are combined first. -/
theorem hull_assoc (ha : p.Valid a) (hb : p.Valid b) (hc : p.Valid c) :
    p.hull (p.hull a b) c = p.hull a (p.hull b c) := by
  have hab := valid_hull ha b
  have hbc := valid_hull hb c
  have hleft := valid_hull hab c
  have hright := valid_hull ha (p.hull b c)
  obtain ⟨ha₁, hb₁⟩ := isSubset_hull ha hb
  obtain ⟨hab₁, hc₁⟩ := isSubset_hull hab hc
  obtain ⟨hb₂, hc₂⟩ := isSubset_hull hb hc
  obtain ⟨ha₂, hbc₂⟩ := isSubset_hull ha hbc
  have hle : (p.hull (p.hull a b) c).IsSubset (p.hull a (p.hull b c)) :=
    hull_isSubset hab hc (hull_isSubset ha hb ha₂ (hb₂.trans hbc₂)) (hc₂.trans hbc₂)
  have hge : (p.hull a (p.hull b c)).IsSubset (p.hull (p.hull a b) c) :=
    hull_isSubset ha hbc (ha₁.trans hab₁) (hull_isSubset hb hc (hb₁.trans hab₁) hc₁)
  refine hleft.eq_of_isSubset hright hle hge ?_
  have hsame : (p.hull (p.hull a b) c).constraint = (p.hull a (p.hull b c)).constraint :=
    (hleft.sameSet_iff hright).mpr fun _ => ⟨hle.contains, hge.contains⟩
  rw [widen_hull hab c, widen_hull ha (p.hull b c), hsame]
  by_cases hfull : (p.hull a (p.hull b c)).constraint = .full w
  · rw [hfull]
    exact normalWiden_full p w _ _
  · -- Neither of the first hulls is all words, so both have the larger counter.
    rcases widen_hull_cases ha hb with hw₁ | hfull₁
    · rcases widen_hull_cases hb hc with hw₂ | hfull₂
      · rw [hw₁, hw₂, Int.max_assoc]
      · exact absurd (hright.constraint_eq_full hbc₂ hfull₂) hfull
    · exact absurd (hright.constraint_eq_full (hab₁.trans hle) hfull₁) hfull

/-- Hulls combine values of a policy. -/
theorem combines_hull (p : Policy) (w : Nat) :
    Combines p.Valid fun a b : Value w => some (p.hull a b) where
  closed ha _ hc := Option.some.inj hc ▸ valid_hull ha _
  idem _ := congrArg some (hull_self p _)
  comm ha hb := congrArg some (hull_comm ha hb)
  assoc ha hb hc := congrArg some (hull_assoc ha hb hc)

/-! ## Intersections -/

/-- What a constraint makes depends on its members only. -/
theorem make?_congr {d e : Constraint w} (h : ∀ x, d.Contains x ↔ e.Contains x) (n : Int) :
    p.make? d n = p.make? e n := by
  rw [make?, make?, Constraint.canonical?_congr h]

/-- The intersection of two values is what their combined parts make, also if they are equal. -/
theorem intersect?_eq_make? (ha : p.Valid a) :
    p.intersect? a b =
      p.make? (intersectConstraint a.constraint b.constraint) (min a.widen b.widen) := by
  unfold intersect?
  split
  · rename_i hab
    have hself : ∀ x, (intersectConstraint a.constraint a.constraint).Contains x ↔
        a.constraint.Contains x := fun x => by rw [contains_intersectConstraint, and_self]
    rw [← hab, make?_congr hself, Int.min_self, ha.make?_eq_some]
  · rfl

/-- An intersection is included in both values. -/
theorem isSubset_of_intersect? (ha : p.Valid a) (h : p.intersect? a b = some v) :
    v.IsSubset a ∧ v.IsSubset b := by
  have hv := valid_of_intersect? ha h
  exact ⟨hv.isSubset fun x hx => ((contains_of_intersect? h).mp hx).1,
    hv.isSubset fun x hx => ((contains_of_intersect? h).mp hx).2⟩

/-- The counter of an intersection is the smaller counter, unless the set is small. -/
theorem widen_intersect?_cases (ha : p.Valid a) (hb : p.Valid b) (h : p.intersect? a b = some v) :
    v.widen = min a.widen b.widen ∨ v.constraint.span.toNat ≤ p.smallSpan.toNat := by
  obtain ⟨hva, hvb⟩ := isSubset_of_intersect? ha h
  have hwiden : v.widen = p.normalWiden v.constraint (min a.widen b.widen) :=
    (make?_eq_some_iff.mp ((intersect?_eq_make? ha).symm.trans h)).2
  by_cases hsmall : v.constraint.span.toNat ≤ p.smallSpan.toNat
  · exact .inr hsmall
  · left
    by_cases hfull : v.constraint = .full w
    · -- Both values are all words and have the counter of all words.
      have hawiden := ha.normal
      have hbwiden := hb.normal
      rw [ha.constraint_eq_full hva hfull, normalWiden_full p w _ (min a.widen b.widen)] at hawiden
      rw [hb.constraint_eq_full hvb hfull, normalWiden_full p w _ (min a.widen b.widen)] at hbwiden
      rw [hfull] at hwiden
      omega
    · rw [hwiden, normalWiden_eq hsmall hfull]

/-- The order of two values does not matter for their intersection. -/
theorem intersect?_comm (ha : p.Valid a) (hb : p.Valid b) :
    p.intersect? a b = p.intersect? b a := by
  rw [intersect?_eq_make? ha, intersect?_eq_make? hb, Int.min_comm]
  refine make?_congr (fun x => ?_) _
  rw [contains_intersectConstraint, contains_intersectConstraint, and_comm]

/-- The intersection of three values, two of which are intersected first. -/
theorem intersect?_bind_intersect? (ha : p.Valid a) (hb : p.Valid b) (c : Value w) :
    (p.intersect? a b).bind (p.intersect? · c) =
      p.make? (intersectConstraint (intersectConstraint a.constraint b.constraint) c.constraint)
        (min (min a.widen b.widen) c.widen) := by
  cases h : p.intersect? a b with
  | none =>
      rw [intersect?_eq_make? ha] at h
      refine (make?_eq_none_iff.mpr fun x hx => ?_).symm
      exact make?_eq_none_iff.mp h x (contains_intersectConstraint.mp hx).1
  | some v =>
      have hv := valid_of_intersect? ha h
      have hmembers : ∀ x, (intersectConstraint v.constraint c.constraint).Contains x ↔
          (intersectConstraint (intersectConstraint a.constraint b.constraint)
            c.constraint).Contains x := fun x => by
        rw [contains_intersectConstraint, contains_intersectConstraint,
          contains_intersectConstraint]
        exact and_congr_left fun _ => contains_of_intersect? h
      rw [Option.bind_some, intersect?_eq_make? hv, make?_congr hmembers]
      rcases widen_intersect?_cases ha hb h with hwiden | hsmall
      · rw [hwiden]
      · -- The intersection of all three is small as well, so its counter is zero in any case.
        rw [make?, make?]
        refine Option.map_congr fun d hd => ?_
        have hmembers' := fun x => Constraint.contains_of_canonical? (x := x) hd
        have hd' := (Constraint.isTightest_of_canonical? hd).congr fun x => (hmembers' x).symm
        have hspan := hd'.span_le hv.isTightest fun x hx =>
          (contains_intersectConstraint.mp ((hmembers x).mpr ((hmembers' x).mp hx))).1
        have hsmall' := Nat.le_trans hspan hsmall
        rw [normalWiden_of_small hsmall', normalWiden_of_small hsmall']

/-- Intersections of three values do not depend on which two are combined first, also if they
are empty. -/
theorem intersect?_assoc (ha : p.Valid a) (hb : p.Valid b) (hc : p.Valid c) :
    (p.intersect? a b).bind (p.intersect? · c) = (p.intersect? b c).bind (p.intersect? a) := by
  have hflip : (p.intersect? b c).bind (p.intersect? a) =
      (p.intersect? b c).bind (p.intersect? · a) :=
    Option.bind_congr fun v hv => intersect?_comm ha (valid_of_intersect? hb hv)
  rw [hflip, intersect?_bind_intersect? ha hb, intersect?_bind_intersect? hb hc, Int.min_assoc,
    Int.min_comm a.widen]
  refine make?_congr (fun x => ?_) _
  simp only [contains_intersectConstraint]
  rw [and_assoc, and_comm]

/-- Intersections combine values of a policy. -/
theorem combines_intersect (p : Policy) (w : Nat) : Combines p.Valid (p.intersect? (w := w)) where
  closed ha _ hc := valid_of_intersect? ha hc
  idem _ := if_pos rfl
  comm := intersect?_comm
  assoc := intersect?_assoc

/-! ## Absorption -/

/-- A value and its hull with another one have the members of the value in common. -/
theorem intersect?_hull (ha : p.Valid a) (b : Value w) :
    ∃ v, p.intersect? a (p.hull a b) = some v ∧ v.SameSet a := by
  have hlo := ha.contains_lo
  cases h : p.intersect? a (p.hull a b) with
  | none => exact absurd (contains_hull_left hlo) (not_contains_of_intersect? h hlo)
  | some v =>
      refine ⟨v, rfl, ((valid_of_intersect? ha h).sameSet_iff ha).mpr fun x => ?_⟩
      rw [contains_of_intersect? h]
      exact ⟨And.left, fun hx => ⟨hx, contains_hull_left hx⟩⟩

/-- The hull of a value with what it has in common with another one has its members. -/
theorem hull_intersect? (ha : p.Valid a) (h : p.intersect? a b = some v) :
    (p.hull a v).SameSet a := by
  have hle := hull_isSubset ha (valid_of_intersect? ha h) (.refl a) (isSubset_of_intersect? ha h).1
  exact ((valid_hull ha v).sameSet_iff ha).mpr fun _ => ⟨hle.contains, contains_hull_left⟩

/-! ## Hulls of lists -/

/-- Taking hulls from the left combines the values. -/
theorem combineAll_hull (p : Policy) (v : Value w) (vs : List (Value w)) :
    combineAll (fun a b => some (p.hull a b)) v vs = some (vs.foldl p.hull v) := by
  induction vs generalizing v with
  | nil => rfl
  | cons u us ih =>
      rw [combineAll, Option.bind_some, List.foldl_cons]
      exact ih (p.hull v u)

/-- The hull of the values of a list; nothing if there are none. -/
def hullAll? (p : Policy) : List (Value w) → Option (Value w)
  | [] => none
  | v :: vs => some (vs.foldl p.hull v)

/-- The hull of a list depends only on the values in it. -/
theorem hullAll?_eq {us vs : List (Value w)} (hvalid : ∀ x ∈ us, p.Valid x)
    (hsame : ∀ x, x ∈ us ↔ x ∈ vs) : p.hullAll? us = p.hullAll? vs := by
  cases us with
  | nil =>
      cases vs with
      | nil => rfl
      | cons v vs => cases (hsame v).mpr List.mem_cons_self
  | cons u us =>
      cases vs with
      | nil => cases (hsame u).mp List.mem_cons_self
      | cons v vs =>
          rw [hullAll?, hullAll?, ← combineAll_hull, ← combineAll_hull]
          exact (combines_hull p w).combineAll_eq hvalid hsame

/-- The values of a list are parts of its hull. -/
theorem isSubset_hullAll? {vs : List (Value w)} (hvalid : ∀ x ∈ vs, p.Valid x) (ha : a ∈ vs) :
    ∃ v, p.hullAll? vs = some v ∧ a.IsSubset v := by
  cases vs with
  | nil => cases ha
  | cons b bs =>
      refine ⟨bs.foldl p.hull b, rfl, ?_⟩
      induction bs generalizing a b with
      | nil => exact List.mem_singleton.mp ha ▸ Value.IsSubset.refl a
      | cons c cs ih =>
          simp only [List.forall_mem_cons] at hvalid
          have hall : ∀ x ∈ p.hull b c :: cs, p.Valid x :=
            List.forall_mem_cons.mpr ⟨valid_hull hvalid.1 c, hvalid.2.2⟩
          have hfirst := ih (p.hull b c) hall List.mem_cons_self
          obtain ⟨hb, hc⟩ := isSubset_hull hvalid.1 hvalid.2.1
          rcases List.mem_cons.mp ha with rfl | ha
          · exact hb.trans hfirst
          · rcases List.mem_cons.mp ha with rfl | ha
            · exact hc.trans hfirst
            · exact ih (p.hull b c) hall (List.mem_cons_of_mem _ ha)

/-- The hull of a list is a part of every value that all its values are parts of. -/
theorem hullAll?_isSubset {o : Value w} {vs : List (Value w)} (hvalid : ∀ x ∈ vs, p.Valid x)
    (ho : ∀ x ∈ vs, x.IsSubset o) (h : p.hullAll? vs = some v) : v.IsSubset o := by
  cases vs with
  | nil => cases h
  | cons a as =>
      rw [hullAll?, Option.some.injEq] at h
      subst h
      induction as generalizing a with
      | nil => exact ho a List.mem_cons_self
      | cons b bs ih =>
          simp only [List.forall_mem_cons] at hvalid ho
          have hab := hull_isSubset hvalid.1 hvalid.2.1 ho.1 ho.2.1
          exact ih (p.hull a b) (List.forall_mem_cons.mpr ⟨valid_hull hvalid.1 b, hvalid.2.2⟩)
            (List.forall_mem_cons.mpr ⟨hab, ho.2.2⟩)

end Policy
end WordRanges
