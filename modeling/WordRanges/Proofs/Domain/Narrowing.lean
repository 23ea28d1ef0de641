import Mathlib.Data.Nat.Size
import WordRanges.Proofs.Domain.Converging

/-!
# Narrowing stays between values and converges

A narrowed value has the members of the new value, whatever the old one is.  If the old value
covers the new one, narrowing returns one of the two.  It accepts the new one if that is a
constant, if the old one is all words, if other bits are known, or if the span falls to half of the
old one and the slack of the policy; otherwise the old one stays.

A descending iteration narrows its value to values that it covers.  How often its members can
change is told by a rank with three parts, none of which ever goes up and one of which goes down at
each change: the number of unknown bits, the number of times that the span can still fall, and
whether the value is all words.  Above twice the slack an accepted span is halved, as far as it is
above; below, it still gets smaller by one if the same bits are known.

Main results:

- Theorem {lit}`Policy.narrow_between`: narrowing stays between the new and the old value, and when
  it has the members of the new one.
- Theorem {lit}`Policy.halvings_lt`: how often a span can fall.
- Theorem {lit}`Policy.descentRank_lt`: an accepted value lowers the rank.
- Theorem {lit}`Policy.descent_changes_le`: how often a descending iteration changes its members.
-/

namespace WordRanges
namespace Policy

variable {w : Nat} {p q r : Policy} {nv old v : Value w}

/-! ## Accepted values -/

/-- Narrowing accepts a new value in place of an old one that covers it: a constant, any value in
place of all words, one of which other bits are known, or one whose span is within the limit. -/
def Accepts (p : Policy) (nv old : Value w) : Prop :=
  nv.constant? ≠ none ∨ old.isDomain = true ∨ nv.bits ≠ old.bits ∨
    nv.constraint.span.toNat ≤ (p.narrowLimit old.constraint.span).toNat

/-- A value that is accepted and differs from the old one replaces it. -/
theorem Accepts.narrow_eq (h : p.Accepts nv old) (hdiffers : ¬ nv.SameSet old) :
    p.narrow nv (some old) = nv := by
  simp only [narrow, if_neg hdiffers]
  split
  · rfl
  · rename_i hvaries
    split
    · rfl
    · rename_i hdomain
      split
      · rfl
      · split
        · rfl
        · rename_i hbits
          rw [Option.not_isSome_iff_eq_none] at hvaries
          rcases h with hconstant | hall | hother | hspan
          · exact absurd hvaries hconstant
          · exact absurd hall hdomain
          · exact absurd hother hbits
          · exact if_neg (Nat.not_lt.mpr hspan)

/-- An old value stays that covers a value which is not accepted. -/
theorem narrow_of_not_accepts (hsubset : nv.IsSubset old) (h : ¬ p.Accepts nv old) :
    p.narrow nv (some old) = old := by
  simp only [Accepts, not_or, not_not] at h
  obtain ⟨hvaries, hdomain, hbits, hspan⟩ := h
  simp only [narrow, hvaries, hsubset, hbits, hdomain, Nat.not_le.mp hspan, Option.isSome_none,
    ne_eq, not_true_eq_false, if_true, if_false, Bool.false_eq_true, ite_self]

/-- Narrowing returns the new value or the old one. -/
theorem narrow_eq_or (p : Policy) (nv old : Value w) :
    p.narrow nv (some old) = nv ∨ p.narrow nv (some old) = old := by
  rcases narrow_cases p nv (some old) with heq | ⟨hold, -⟩
  · exact .inl heq
  · exact .inr (Option.some.inj hold).symm

/-- Narrowing to a value that the old one covers stays within the old one. -/
theorem narrow_isSubset (hsubset : nv.IsSubset old) : (p.narrow nv (some old)).IsSubset old := by
  rcases narrow_eq_or p nv old with heq | heq
  · rw [heq]
    exact hsubset
  · rw [heq]
    exact .refl old

/-- A narrowed value has the members of the new value exactly if this is accepted or lacks no
member of the old one. -/
theorem contains_narrow_iff (hold : r.Valid old) (hsubset : nv.IsSubset old) :
    (∀ x, (p.narrow nv (some old)).Contains x ↔ nv.Contains x) ↔
      p.Accepts nv old ∨ old.IsSubset nv := by
  by_cases hsame : old.IsSubset nv
  · have hback : (p.narrow nv (some old)).IsSubset nv := (narrow_isSubset hsubset).trans hsame
    exact ⟨fun _ => .inr hsame, fun _ x => ⟨hback.contains, contains_narrow⟩⟩
  · by_cases haccepts : p.Accepts nv old
    · have hdiffers : ¬ nv.SameSet old := fun h => hsame (Value.SameSet.isSubset h.symm)
      rw [haccepts.narrow_eq hdiffers]
      exact ⟨fun _ => .inl haccepts, fun _ x => Iff.rfl⟩
    · rw [narrow_of_not_accepts hsubset haccepts]
      constructor
      · intro hmembers
        exact .inr (hold.isSubset fun x => (hmembers x).mp)
      · rintro (h | h)
        · exact absurd h haccepts
        · exact absurd h hsame

/-- Narrowing between values that were made.  The result has all members of the new value, also if
the old one is not related to it.  If the old value covers the new one, it covers the result, and
the result is one of the two, counter included.  It has just the members of the new value exactly
if this has only one member, the old one has every word, other bits are known, the span is within
the limit, or no member is lost. -/
theorem narrow_between (p : Policy) (hnv : q.Makes nv) (hold : r.Makes old) :
    (∀ x, nv.Contains x → (p.narrow nv (some old)).Contains x) ∧
    (nv.IsSubset old →
      (p.narrow nv (some old)).IsSubset old ∧
      (p.narrow nv (some old) = nv ∨ p.narrow nv (some old) = old) ∧
      ((∀ x, (p.narrow nv (some old)).Contains x ↔ nv.Contains x) ↔
        (∃ c, ∀ x, nv.Contains x → x = c) ∨ (∀ x, old.Contains x) ∨ nv.bits ≠ old.bits ∨
          nv.constraint.span.toNat ≤ (p.narrowLimit old.constraint.span).toNat ∨
          ∀ x, old.Contains x → nv.Contains x)) := by
  refine ⟨fun x => contains_narrow, fun hsubset => ⟨narrow_isSubset hsubset, ?_, ?_⟩⟩
  · exact narrow_eq_or p nv old
  · rw [contains_narrow_iff hold.valid hsubset, Accepts, hnv.valid.constant?_ne_none_iff,
      hold.valid.isDomain_iff, hold.valid.isSubset_iff]
    simp only [or_assoc]

/-! ### A span that falls on both sides of zero -/

namespace Closing

/-- The words from minus one hundred to one hundred. -/
def wide : Value 8 :=
  ⟨⟨⟨-100, 100⟩, ⟨0, -1⟩, ⟨0x00, 0x00⟩⟩, 2⟩

/-- The words from minus sixty to forty-six. -/
def half : Value 8 :=
  ⟨⟨⟨-60, 46⟩, ⟨0, -1⟩, ⟨0x00, 0x00⟩⟩, 0⟩

/-- The words from minus sixty to forty-seven. -/
def larger : Value 8 :=
  ⟨⟨⟨-60, 47⟩, ⟨0, -1⟩, ⟨0x00, 0x00⟩⟩, 0⟩

theorem makes_wide : Policy.default.Makes wide :=
  Valid.makes ⟨by decide +kernel, by decide⟩

theorem makes_half : Policy.default.Makes half :=
  Valid.makes ⟨by decide +kernel, by decide⟩

theorem makes_larger : Policy.default.Makes larger :=
  Valid.makes ⟨by decide +kernel, by decide⟩

/-- Half of the old span and the slack of six are accepted, one more is not. -/
theorem half_accepted : Policy.default.Makes half ∧ Policy.default.Makes larger ∧
    Policy.default.Makes wide ∧ half.IsSubset wide ∧ larger.IsSubset wide ∧
    (∀ x, (Policy.default.narrow half (some wide)).Contains x ↔ half.Contains x) ∧
    ¬ ∀ x, (Policy.default.narrow larger (some wide)).Contains x ↔ larger.Contains x := by
  have hhalf : half.IsSubset wide := by decide
  have hlarger : larger.IsSubset wide := by decide
  obtain ⟨-, -, haccepted⟩ := (narrow_between Policy.default makes_half makes_wide).2 hhalf
  obtain ⟨-, -, hrejected⟩ := (narrow_between Policy.default makes_larger makes_wide).2 hlarger
  refine ⟨makes_half, makes_larger, makes_wide, hhalf, hlarger,
    haccepted.mpr (.inr (.inr (.inr (.inl (by decide))))), ?_⟩
  rw [hrejected]
  rintro (⟨c, honly⟩ | hall | hbits | hspan | hsame)
  · exact absurd ((honly 0 (by decide)).trans (honly 1 (by decide)).symm) (by decide)
  · exact absurd (hall 120) (by decide)
  · exact hbits rfl
  · exact absurd hspan (by decide)
  · exact absurd (hsame 100 (by decide)) (by decide)

end Closing

/-! ## How often a span can fall -/

/-- How often a span can fall to half of itself and the slack: as often as the part above twice
the slack has binary digits, and then by one at a time. -/
def halvings (slack span : Nat) : Nat :=
  min span (2 * slack) + (span - 2 * slack).size

/-- Halving a number takes one binary digit off it. -/
theorem size_lt_of_le_half {m n : Nat} (hpos : 0 < n) (hhalf : m ≤ n / 2) : m.size < n.size := by
  obtain ⟨k, hk⟩ := Nat.exists_eq_succ_of_ne_zero (Nat.size_pos.mpr hpos).ne'
  have hlt := Nat.lt_size_self n
  rw [hk, Nat.pow_succ] at hlt
  have hsize : m.size ≤ k := Nat.size_le.mpr (by omega)
  omega

/-- A smaller span can fall no more often. -/
theorem halvings_le (slack : Nat) {m n : Nat} (hle : m ≤ n) :
    halvings slack m ≤ halvings slack n := by
  have hsize : (m - 2 * slack).size ≤ (n - 2 * slack).size := Nat.size_le_size (by omega)
  unfold halvings
  omega

/-- A span that falls to half of itself and the slack can fall less often from there on. -/
theorem halvings_lt {slack m n : Nat} (hlt : m < n) (hhalf : m ≤ n / 2 + slack) :
    halvings slack m < halvings slack n := by
  unfold halvings
  by_cases habove : 2 * slack < n
  · -- What is above twice the slack is halved.
    have hsize : (m - 2 * slack).size < (n - 2 * slack).size :=
      size_lt_of_le_half (by omega) (by omega)
    omega
  · have hsize : (m - 2 * slack).size ≤ (n - 2 * slack).size := Nat.size_le_size (by omega)
    omega

/-- How often the span of a word can fall. -/
theorem halvings_toNat_le (slack : Nat) (span : BitVec w) :
    halvings slack span.toNat ≤ w + 2 * slack := by
  have hlt := span.isLt
  have hsize : (span.toNat - 2 * slack).size ≤ w := Nat.size_le.mpr (by omega)
  unfold halvings
  omega

/-- The limit on spans is at most half of the old span and the slack, also if their sum wraps
around. -/
theorem toNat_narrowLimit_le (p : Policy) (span : BitVec w) :
    (p.narrowLimit span).toNat ≤ span.toNat / 2 + p.narrowSlack.toNat := by
  have hhalf : (UInt64.ofNat (span.toNat / 2)).toNat ≤ span.toNat / 2 := by
    rw [UInt64.toNat_ofNat']
    exact Nat.mod_le _ _
  rw [narrowLimit, UInt64.toNat_add]
  exact Nat.le_trans (Nat.mod_le _ _) (Nat.add_le_add_right hhalf _)

/-! ## The rank of a descending iteration -/

/-- How often a descending iteration can still change its members. -/
def descentRank (p : Policy) (v : Value w) : Nat :=
  (w - v.bits.count) + halvings p.narrowSlack.toNat v.constraint.span.toNat + v.isDomain.toNat

/-- The rank depends on the members only. -/
theorem descentRank_congr (h : v.SameSet old) : p.descentRank v = p.descentRank old := by
  have hparts : v.constraint = old.constraint := h
  simp only [descentRank, Value.bits, Value.isDomain, hparts]

/-- The rank is bounded by the width and the slack. -/
theorem descentRank_le (p : Policy) (v : Value w) :
    p.descentRank v ≤ 2 * w + 2 * p.narrowSlack.toNat + 1 := by
  have hspan := halvings_toNat_le p.narrowSlack.toNat v.constraint.span
  have hdomain := Bool.toNat_le v.isDomain
  unfold descentRank
  omega

/-- An accepted value that lacks a member of the old one lowers the rank: a bit gets known, the
span falls, or the value is no longer all words. -/
theorem descentRank_lt (hnv : q.Valid nv) (hold : r.Valid old) (hsubset : nv.IsSubset old)
    (hfewer : ¬ old.IsSubset nv) (haccepts : p.Accepts nv old) :
    p.descentRank nv < p.descentRank old := by
  have hcount := count_bits_le hsubset
  have hknown := nv.bits.count_le
  have hspan := hnv.isTightest.span_le hold.isTightest fun _ => hsubset.contains
  have hfalls := halvings_le p.narrowSlack.toNat hspan
  have hdomain : nv.isDomain = false := by
    rw [Bool.eq_false_iff]
    intro hall
    exact hfewer (hold.isSubset fun x _ => hnv.isDomain_iff.mp hall x)
  unfold descentRank
  rw [hdomain, Bool.toNat_false]
  -- Other known bits are more of them; with the same ones the bounds are closer.
  by_cases hbits : nv.bits = old.bits
  · have hne : nv.constraint ≠ old.constraint := fun h =>
      hfewer (Value.SameSet.isSubset h.symm)
    have hspan' := hnv.isTightest.span_lt hold.isTightest (fun _ => hsubset.contains) hbits hne
    rcases haccepts with hconstant | hall | hother | hlimit
    · -- The known bits of a constant tell its member, so the old value would have no other one.
      exact absurd (hnv.isSubset_of_bits_eq hconstant hold hbits.symm) hfewer
    · rw [hall, Bool.toNat_true]
      omega
    · exact absurd hbits hother
    · have hfalls' := halvings_lt hspan' (hlimit.trans (toNat_narrowLimit_le p _))
      omega
  · have hcount' := hnv.count_bits_lt hsubset hbits
    omega

/-- A change of the members lowers the rank. -/
theorem descentRank_narrow_lt (hnv : q.Valid nv) (hold : r.Valid old) (hsubset : nv.IsSubset old)
    (hchanges : ¬ (p.narrow nv (some old)).SameSet old) :
    p.descentRank (p.narrow nv (some old)) < p.descentRank old := by
  have haccepts : p.Accepts nv old := by
    by_contra hnot
    exact hchanges (congrArg Value.constraint (narrow_of_not_accepts hsubset hnot))
  rcases narrow_eq_or p nv old with heq | heq
  · rw [heq] at hchanges ⊢
    have hfewer : ¬ old.IsSubset nv := fun h =>
      hchanges ((hnv.sameSet_iff hold).mpr fun _ => ⟨hsubset.contains, h.contains⟩)
    exact descentRank_lt hnv hold hsubset hfewer haccepts
  · exact absurd (congrArg Value.constraint heq) hchanges

/-! ## Descending iterations -/

/-- The values of a descending iteration: each is the one before, narrowed to a new value. -/
def descent (p : Policy) (v : Value w) (nvs : Nat → Value w) : Nat → Value w
  | 0 => v
  | i + 1 => p.narrow (nvs i) (some (descent p v nvs i))

section Descent

variable {nvs : Nat → Value w}

/-- The values of a descending iteration were made if the new values were. -/
theorem exists_valid_descent (hv : ∃ q : Policy, q.Makes v)
    (hnvs : ∀ i, ∃ q : Policy, q.Makes (nvs i)) (i : Nat) :
    ∃ q : Policy, q.Valid (p.descent v nvs i) := by
  induction i with
  | zero =>
      obtain ⟨q, hq⟩ := hv
      exact ⟨q, hq.valid⟩
  | succ i ih =>
      rw [descent]
      rcases narrow_eq_or p (nvs i) (p.descent v nvs i) with heq | heq
      · rw [heq]
        obtain ⟨q, hq⟩ := hnvs i
        exact ⟨q, hq.valid⟩
      · rw [heq]
        exact ih

/-- New values that only lose members stay within a descending iteration that covers the first
of them. -/
theorem isSubset_descent (hfirst : (nvs 0).IsSubset v) (hnvs : ∀ i, q.Valid (nvs i))
    (hshrinks : ∀ i, (nvs (i + 1)).IsSubset (nvs i)) (i : Nat) :
    (nvs i).IsSubset (p.descent v nvs i) := by
  cases i with
  | zero => exact hfirst
  | succ i =>
      have hcovers : (nvs i).IsSubset (p.descent v nvs (i + 1)) :=
        (hnvs i).isSubset fun _ => contains_narrow
      exact (hshrinks i).trans hcovers

/-- A descending iteration of values that were made, narrowed each time to a value that it covers,
changes its members at most as often as the width and the slack tell, without any other bound on
the number of steps. -/
theorem descent_changes_le (p : Policy) (hv : ∃ q : Policy, q.Makes v)
    (hnvs : ∀ i, ∃ q : Policy, q.Makes (nvs i))
    (hsubset : ∀ i, (nvs i).IsSubset (p.descent v nvs i)) :
    ∃ changed : Finset Nat, changed.card ≤ 2 * w + 2 * p.narrowSlack.toNat + 1 ∧
      ∀ i, i ∉ changed →
        ∀ x, (p.descent v nvs (i + 1)).Contains x ↔ (p.descent v nvs i).Contains x := by
  have hvalid := exists_valid_descent (p := p) hv hnvs
  have hchange (i : Nat) (hchanges : ¬ (p.descent v nvs (i + 1)).SameSet (p.descent v nvs i)) :
      p.descentRank (p.descent v nvs (i + 1)) < p.descentRank (p.descent v nvs i) := by
    obtain ⟨q, hq⟩ := hnvs i
    obtain ⟨r, hr⟩ := hvalid i
    exact descentRank_narrow_lt hq.valid hr (hsubset i) hchanges
  have hstep (i : Nat) :
      p.descentRank (p.descent v nvs (i + 1)) ≤ p.descentRank (p.descent v nvs i) := by
    by_cases hsame : (p.descent v nvs (i + 1)).SameSet (p.descent v nvs i)
    · exact Nat.le_of_eq (descentRank_congr hsame)
    · exact Nat.le_of_lt (hchange i hsame)
  obtain ⟨changed, hcard, hstays⟩ :=
    exists_changes_of_rank (fun i => p.descentRank (p.descent v nvs i)) hstep hchange
  refine ⟨changed, Nat.le_trans hcard (descentRank_le p _), ?_⟩
  intro i hi
  obtain ⟨q, hq⟩ := hvalid (i + 1)
  obtain ⟨r, hr⟩ := hvalid i
  exact (hq.sameSet_iff hr).mp (not_not.mp (hstays i hi))

end Descent

/-! ### From all words to a single one -/

namespace Falling

/-- A policy with a slack of two. -/
def tight : Policy :=
  ⟨3, 3, 2⟩

/-- The word five. -/
def five : Value 8 :=
  ⟨⟨⟨5, 5⟩, ⟨5, 5⟩, ⟨0xfa, 0x05⟩⟩, 0⟩

/-- The new values, each of which includes the next; the last of them forever. -/
def values : Nat → Value 8
  | 0 => ⟨⟨⟨-128, 126⟩, ⟨0, -1⟩, ⟨0x00, 0x00⟩⟩, 0⟩
  | 1 => ⟨⟨⟨-60, 60⟩, ⟨0, -1⟩, ⟨0x00, 0x00⟩⟩, 0⟩
  | 2 => ⟨⟨⟨0, 60⟩, ⟨0, 60⟩, ⟨0xc0, 0x00⟩⟩, 0⟩
  | 3 => ⟨⟨⟨0, 33⟩, ⟨0, 33⟩, ⟨0xc0, 0x00⟩⟩, 0⟩
  | 4 => ⟨⟨⟨0, 32⟩, ⟨0, 32⟩, ⟨0xc0, 0x00⟩⟩, 0⟩
  | _ => five

theorem valid_values : ∀ i, tight.Valid (values i)
  | 0 | 1 | 2 | 3 | 4 => ⟨by decide +kernel, by decide⟩
  | _ + 5 => (⟨by decide +kernel, by decide⟩ : tight.Valid five)

theorem values_shrink : ∀ i, (values (i + 1)).IsSubset (values i)
  | 0 | 1 | 2 | 3 | 4 => by decide
  | _ + 5 => .refl five

/-- The value changes five times.  It stops being all words, its span is halved, bits get known,
its span is halved once more after a step that was not worth it, and it becomes a constant. -/
theorem changes_five_times :
    (∀ i, tight.Makes (values i)) ∧
    (∀ i, (values i).IsSubset (tight.descent (tight.domain 8) values i)) ∧
    (∀ i ∈ [0, 1, 2, 4, 5], ¬ (tight.descent (tight.domain 8) values (i + 1)).SameSet
      (tight.descent (tight.domain 8) values i)) ∧
    ∃ changed : Finset Nat, changed.card ≤ 21 ∧ ∀ i, i ∉ changed →
      ∀ x, (tight.descent (tight.domain 8) values (i + 1)).Contains x ↔
        (tight.descent (tight.domain 8) values i).Contains x := by
  have hdomain : tight.Makes (tight.domain 8) :=
    (valid_of_make? (domain?_eq_some tight 8)).makes
  have hfirst : (values 0).IsSubset (tight.domain 8) :=
    (valid_values 0).isSubset fun x _ => contains_domain tight x
  have hsubset := isSubset_descent (p := tight) hfirst valid_values values_shrink
  exact ⟨fun i => (valid_values i).makes, hsubset, by decide +kernel,
    descent_changes_le tight ⟨_, hdomain⟩ (fun i => ⟨_, (valid_values i).makes⟩) hsubset⟩

end Falling

end Policy
end WordRanges
