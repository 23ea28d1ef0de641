import WordRanges.Proofs.Domain.Runs

/-!
# Comparing values

Values are compared part by part: bounds with bounds and bits with bits.  The parts of a
value that operations of a policy made are as tight as its members allow, so that such
comparisons tell exactly how the members of two values are related, whichever policies made
them.

Main results:

- Theorem {lit}`Policy.Valid.isSubset_iff`: inclusion of values is inclusion of their members.
- Theorem {lit}`Policy.Valid.sameSet_iff`: values with the same members have the same parts.
- Theorem {lit}`Policy.comparisons_decide_members`: all comparisons of values that were made.
-/

namespace WordRanges

variable {w : Nat} {x : BitVec w}

namespace Constraint

/-- The full constraint is the tightest one for a set that has every word. -/
theorem isTightest_full {M : BitVec w → Prop} (hM : ∀ x, M x) : (full w).IsTightest M := by
  have hsigned := Bounds.sContains_fullSigned (w := w)
  have hunsigned := Bounds.contains_fullUnsigned (w := w)
  refine ⟨⟨hM _, fun x _ => (hsigned x).1⟩, ⟨hM _, fun x _ => (hsigned x).2⟩,
    ⟨hM _, fun x _ => (hunsigned x).1⟩, ⟨hM _, fun x _ => (hunsigned x).2⟩, ?_, ?_⟩
  · intro i hi
    have htop := fun h : ∀ x, M x → x.getLsbD i = false => h (BitVec.allOnes w) (hM _)
    simpa [full, KnownBits.unknown, hi] using htop
  · intro i hi
    have hzero := fun h : ∀ x, M x → x.getLsbD i = true => h 0 (hM _)
    simpa [full, KnownBits.unknown] using hzero

end Constraint

namespace Policy

variable {p q : Policy} {a b v : Value w}

/-! ## Comparisons of values of a policy -/

/-- Inclusion of values is inclusion of their members. -/
theorem Valid.isSubset_iff (ha : p.Valid a) :
    a.IsSubset b ↔ ∀ x, a.Contains x → b.Contains x :=
  ⟨fun h _ hx => h.contains hx, ha.isSubset⟩

/-- Values have the same parts exactly if they have the same members. -/
theorem Valid.sameSet_iff (ha : p.Valid a) (hb : q.Valid b) :
    a.SameSet b ↔ ∀ x, a.Contains x ↔ b.Contains x := by
  constructor
  · intro h x
    have heq : a.constraint = b.constraint := h
    rw [Value.Contains, Value.Contains, heq]
  · intro h
    exact ha.isTightest.unique (hb.isTightest.congr fun x => (h x).symm)

/-- The bounds of a value are equal exactly if it has just one member. -/
theorem Valid.constant?_eq_some_iff (ha : p.Valid a) :
    a.constant? = some x ↔ a.Contains x ∧ ∀ y, a.Contains y → y = x := by
  have ht := ha.isTightest
  unfold Value.constant?
  constructor
  · intro h
    split at h
    · rename_i hbounds
      cases h
      refine ⟨ha.contains_lo, fun y hy => ?_⟩
      have hlo : a.lo.sle y = true := ht.signed_lo.2 y hy
      have hhi : y.sle a.hi = true := ht.signed_hi.2 y hy
      rw [← hbounds] at hhi
      exact Word.sle_antisymm hhi hlo
    · cases h
  · rintro ⟨-, honly⟩
    have hlo : a.lo = x := honly _ ht.signed_lo.1
    have hhi : a.hi = x := honly _ ht.signed_hi.1
    rw [if_pos (hlo.trans hhi.symm), hlo]

/-- A value is a constant exactly if all its members are equal. -/
theorem Valid.constant?_ne_none_iff (ha : p.Valid a) :
    a.constant? ≠ none ↔ ∃ c, ∀ x, a.Contains x → x = c := by
  rw [Option.ne_none_iff_exists']
  constructor
  · rintro ⟨c, hc⟩
    exact ⟨c, (ha.constant?_eq_some_iff.mp hc).2⟩
  · rintro ⟨c, honly⟩
    exact ⟨c, ha.constant?_eq_some_iff.mpr ⟨honly _ ha.contains_lo ▸ ha.contains_lo, honly⟩⟩

/-- A value has the parts of the full constraint exactly if every word is a member. -/
theorem Valid.isDomain_iff (ha : p.Valid a) : a.isDomain = true ↔ ∀ x, a.Contains x := by
  rw [Value.isDomain, decide_eq_true_eq]
  constructor
  · intro h x
    rw [Value.Contains, h]
    exact Constraint.contains_full x
  · intro h
    exact ha.isTightest.unique (Constraint.isTightest_full h)

/-! ## Values that were made -/

/-- A value that some run of operations of a policy makes. -/
def Makes (p : Policy) (v : Value w) : Prop :=
  ∃ ops vs, p.run [] ops = some vs ∧ v ∈ vs

/-- A value that was made belongs to the policy. -/
theorem Makes.valid (h : p.Makes v) : p.Valid v := by
  obtain ⟨ops, vs, hrun, hv⟩ := h
  obtain ⟨vs', hrun', hkept⟩ := run_kept (isCounterBound_counterBound p ops) ops
    (fun _ => counter_le_counterBound p) (fun _ hmade => absurd hmade List.not_mem_nil)
  cases hrun.symm.trans hrun'
  exact (hkept v hv).valid

/-- Comparing values that were made decides how their members are related: inclusion and
equality of the sets, whether a value has just one member and which, and whether every word
is a member. -/
theorem comparisons_decide_members (ha : p.Makes a) (hb : q.Makes b) :
    (a.IsSubset b ↔ ∀ x, a.Contains x → b.Contains x) ∧
      (a.SameSet b ↔ ∀ x, a.Contains x ↔ b.Contains x) ∧
      (∀ x, a.constant? = some x ↔ a.Contains x ∧ ∀ y, a.Contains y → y = x) ∧
      (a.isDomain = true ↔ ∀ x, a.Contains x) :=
  ⟨ha.valid.isSubset_iff, ha.valid.sameSet_iff hb.valid, fun _ => ha.valid.constant?_eq_some_iff,
    ha.valid.isDomain_iff⟩

/-! ## Two words and the words between them -/

namespace Apart

/-- The value of minus three and five, which lie on both sides of zero. -/
def ends : Value 8 :=
  ⟨⟨⟨-3, 5⟩, ⟨5, -3⟩, ⟨2, 5⟩⟩, 0⟩

/-- The value of the words from minus three to five. -/
def between : Value 8 :=
  ⟨⟨⟨-3, 5⟩, ⟨0, -1⟩, ⟨0, 0⟩⟩, 0⟩

/-- The two words are made as the hull of both. -/
theorem makes_ends : Policy.default.Makes ends :=
  ⟨[.const (-3), .const 5, .hull 0 1], [Policy.default.const (-3), Policy.default.const 5, ends],
    by decide +kernel, by simp⟩

/-- The words between are made as a range, under a policy that never counts. -/
theorem makes_between : (Policy.mk 0 0 0).Makes between :=
  ⟨[.range (-3) 5], [between], by decide +kernel, by simp⟩

/-- The two words are among those between, which have further members, as comparing shows. -/
theorem ends_within_between : Policy.default.Makes ends ∧ (Policy.mk 0 0 0).Makes between ∧
    (∀ x, ends.Contains x → between.Contains x) ∧ ¬ (∀ x, ends.Contains x ↔ between.Contains x) ∧
    ¬ (∃ x, ends.Contains x ∧ ∀ y, ends.Contains y → y = x) ∧ ¬ ∀ x, ends.Contains x := by
  obtain ⟨hsubset, hsame, hconstant, hdomain⟩ := comparisons_decide_members makes_ends makes_between
  refine ⟨makes_ends, makes_between, hsubset.mp (by decide), mt hsame.mpr (by decide), ?_,
    mt hdomain.mpr (by decide)⟩
  rintro ⟨x, hx⟩
  have hnone : ends.constant? = none := by decide
  cases hnone.symm.trans ((hconstant x).mpr hx)

end Apart

end Policy
end WordRanges
