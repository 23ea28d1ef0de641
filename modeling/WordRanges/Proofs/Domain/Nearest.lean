import WordRanges.Domain.Tighten
import WordRanges.Proofs.Domain.WordBits

/-!
# The nearest agreeing words

Rounding a bound to the known bits finds the nearest word that agrees with them.  The
argument follows the topmost difference between the bound and any agreeing word beyond
it: that difference is never below the first disagreement of the bound itself.

Main results:

- Theorem {lit}`KnownBits.ceil_spec`: rounding up finds the least agreeing word that is not
  below the bound, or wraps around to the known ones if there is none.
- Theorem {lit}`KnownBits.floor_spec`: the same for rounding down.
- Theorem {lit}`KnownBits.rounding_finds_nearest`: both directions, by whether there is an
  agreeing word on that side of the bound.
-/

namespace WordRanges
namespace KnownBits

variable {w : Nat} {k : KnownBits w} {lo x : BitVec w}

/-! ## Agreement bit by bit -/

/-- A word agrees with the known bits if it agrees with each of them. -/
theorem satisfies_iff :
    k.Satisfies x ↔
      ∀ i, (k.zeros.getLsbD i = true → x.getLsbD i = false) ∧
        (k.ones.getLsbD i = true → x.getLsbD i = true) := by
  constructor
  · rintro ⟨hzeros, hones⟩ i
    have hz : (x &&& k.zeros).getLsbD i = false := by simp [hzeros]
    have ho : (~~~x &&& k.ones).getLsbD i = false := by simp [hones]
    constructor
    · intro hk
      simpa only [BitVec.getLsbD_and, hk, Bool.and_true] using hz
    · intro hk
      have hi : i < w := BitVec.lt_of_getLsbD hk
      simpa only [BitVec.getLsbD_and, BitVec.getLsbD_not, hk, hi, decide_true, Bool.true_and,
        Bool.and_true, Bool.not_eq_false_eq_eq_true] using ho
  · intro h
    constructor
    · apply BitVec.eq_of_getLsbD_eq
      intro i hi
      have := (h i).1
      cases hk : k.zeros.getLsbD i <;> simp_all
    · apply BitVec.eq_of_getLsbD_eq
      intro i hi
      have := (h i).2
      cases hk : k.ones.getLsbD i <;> simp_all

/-- The masks are disjoint if no position is in both. -/
theorem disjoint_iff :
    k.Disjoint ↔ ∀ i, k.zeros.getLsbD i = true → k.ones.getLsbD i = false := by
  constructor
  · intro h i hk
    simpa [hk] using congrArg (BitVec.getLsbD · i) h
  · intro h
    apply BitVec.eq_of_getLsbD_eq
    intro i hi
    have := h i
    cases hk : k.zeros.getLsbD i <;> simp_all

/-- Every word agrees if no bit is known. -/
@[simp]
theorem satisfies_unknown (x : BitVec w) : (unknown w).Satisfies x := by
  simp [Satisfies, unknown]

/-- Only disjoint masks have agreeing words. -/
theorem Satisfies.disjoint (h : k.Satisfies x) : k.Disjoint := by
  rw [disjoint_iff]
  intro i hz
  have hi := satisfies_iff.mp h i
  cases ho : k.ones.getLsbD i with
  | false => rfl
  | true => exact absurd (hi.2 ho) (by simp [hi.1 hz])

/-- The known ones alone agree with disjoint masks. -/
theorem Disjoint.satisfies_ones (h : k.Disjoint) : k.Satisfies k.ones := by
  rw [satisfies_iff]
  intro i
  exact ⟨disjoint_iff.mp h i, id⟩

/-- Complement exchanges the roles of the two masks. -/
theorem satisfies_swap : k.swap.Satisfies x ↔ k.Satisfies (~~~x) := by
  simp only [Satisfies, swap, BitVec.not_not, and_comm]

/-- Exchanging the masks keeps them disjoint. -/
theorem disjoint_swap : k.swap.Disjoint ↔ k.Disjoint := by
  simp only [Disjoint, swap, BitVec.and_comm]

/-- All bits that are not known to be zero together agree with disjoint masks. -/
theorem Disjoint.satisfies_not_zeros (h : k.Disjoint) : k.Satisfies (~~~k.zeros) :=
  satisfies_swap.mp (disjoint_swap.mpr h).satisfies_ones

/-! ## Raising a bound at one position -/

/-- The bound {lit}`lo` has no disagreement with the known bits above position {lit}`t`. -/
def AgreesAbove (k : KnownBits w) (lo : BitVec w) (t : Nat) : Prop :=
  ∀ i, t < i → (k.zeros.getLsbD i = true → lo.getLsbD i = false) ∧
    (k.ones.getLsbD i = true → lo.getLsbD i = true)

/-- The bound raised at position {lit}`u`, and as small as the known bits allow below it. -/
def raise (k : KnownBits w) (lo : BitVec w) (u : Nat) : BitVec w :=
  ((lo &&& -BitVec.twoPow w u) + BitVec.twoPow w u) ||| k.ones

/-- A position at which the bound can be raised: both the bound and the known bits leave
room for a one, and nothing above it disagrees. -/
structure Raisable (k : KnownBits w) (lo : BitVec w) (u : Nat) : Prop where
  lt_width : u < w
  bound_zero : lo.getLsbD u = false
  not_known_zero : k.zeros.getLsbD u = false
  agreesAbove : k.AgreesAbove lo u

namespace Raisable

variable {u : Nat}

/-- Above the raised position the bound keeps its bits. -/
theorem getLsbD_of_gt (h : k.Raisable lo u) {i : Nat} (hi : u < i) :
    (k.raise lo u).getLsbD i = lo.getLsbD i := by
  rw [raise, BitVec.getLsbD_or, Word.getLsbD_raise h.lt_width h.bound_zero]
  have hagree := (h.agreesAbove i hi).2
  cases ho : k.ones.getLsbD i with
  | false => simp [hi, Nat.ne_of_lt hi]
  | true => simp [hagree ho]

/-- The raised position gets a one. -/
theorem getLsbD_self (h : k.Raisable lo u) : (k.raise lo u).getLsbD u = true := by
  rw [raise, BitVec.getLsbD_or, Word.getLsbD_raise h.lt_width h.bound_zero]
  simp

/-- Below the raised position only the known ones are left. -/
theorem getLsbD_of_lt (h : k.Raisable lo u) {i : Nat} (hi : i < u) :
    (k.raise lo u).getLsbD i = k.ones.getLsbD i := by
  rw [raise, BitVec.getLsbD_or, Word.getLsbD_raise h.lt_width h.bound_zero]
  simp [Nat.ne_of_gt hi, Nat.not_lt.mpr (Nat.le_of_lt hi)]

/-- The raised bound agrees with the known bits. -/
theorem satisfies_raise (h : k.Raisable lo u) (hk : k.Disjoint) :
    k.Satisfies (k.raise lo u) := by
  rw [satisfies_iff]
  intro i
  rcases Nat.lt_trichotomy i u with hlt | heq | hgt
  · rw [h.getLsbD_of_lt hlt]
    exact ⟨disjoint_iff.mp hk i, id⟩
  · subst heq
    rw [h.getLsbD_self, h.not_known_zero]
    simp
  · rw [h.getLsbD_of_gt hgt]
    exact h.agreesAbove i hgt

/-- The raised bound is above the bound. -/
theorem lt_raise (h : k.Raisable lo u) : lo < k.raise lo u :=
  Word.lt_of_getLsbD u h.bound_zero h.getLsbD_self fun _ hj => (h.getLsbD_of_gt hj).symm

/-- An agreeing word that leaves the bound at or above the raised position is not below the
raised bound. -/
theorem raise_le (h : k.Raisable lo u) (hx : k.Satisfies x) {j : Nat} (huj : u ≤ j)
    (hlo : lo.getLsbD j = false) (hxj : x.getLsbD j = true)
    (habove : ∀ i, j < i → lo.getLsbD i = x.getLsbD i) : k.raise lo u ≤ x := by
  rcases Nat.lt_or_eq_of_le huj with hlt | heq
  · apply BitVec.le_of_lt
    refine Word.lt_of_getLsbD j ?_ hxj ?_
    · rw [h.getLsbD_of_gt hlt, hlo]
    · intro i hi
      rw [h.getLsbD_of_gt (Nat.lt_trans hlt hi), habove i hi]
  · subst heq
    apply Word.le_of_getLsbD_imp
    intro i hi
    rcases Nat.lt_trichotomy i u with hiu | hiu | hiu
    · rw [h.getLsbD_of_lt hiu] at hi
      exact (satisfies_iff.mp hx i).2 hi
    · rw [hiu]
      exact hxj
    · rw [h.getLsbD_of_gt hiu] at hi
      rw [← habove i hiu]
      exact hi

end Raisable

/-! ## The first disagreement of a bound -/

/-- No position can have both to be cleared and to be set. -/
theorem not_clear_and_set (k : KnownBits w) (lo : BitVec w) (i : Nat) :
    ¬ ((lo &&& k.zeros).getLsbD i = true ∧ (~~~lo &&& k.ones).getLsbD i = true) := by
  rintro ⟨hclear, hset⟩
  simp only [BitVec.getLsbD_and, BitVec.getLsbD_not, Bool.and_eq_true, Bool.not_eq_true'] at *
  simp [hclear.1] at hset

/-- A bound agrees above a position if nothing there has to be cleared or set. -/
theorem agreesAbove_of_getLsbD {t : Nat}
    (hclear : ∀ i, t < i → (lo &&& k.zeros).getLsbD i = false)
    (hset : ∀ i, t < i → (~~~lo &&& k.ones).getLsbD i = false) : k.AgreesAbove lo t := by
  intro i hi
  constructor
  · intro hz
    simpa only [BitVec.getLsbD_and, hz, Bool.and_true] using hclear i hi
  · intro ho
    have hw : i < w := BitVec.lt_of_getLsbD ho
    simpa only [BitVec.getLsbD_and, BitVec.getLsbD_not, ho, hw, decide_true, Bool.true_and,
      Bool.and_true, Bool.not_eq_false_eq_eq_true] using hset i hi

/-- A bound with nothing to clear and nothing to set agrees with the known bits. -/
theorem satisfies_of_clear_eq_set (h : lo &&& k.zeros = ~~~lo &&& k.ones) :
    k.Satisfies lo := by
  have hnone : ∀ i, (lo &&& k.zeros).getLsbD i = false := by
    intro i
    cases hc : (lo &&& k.zeros).getLsbD i with
    | false => rfl
    | true => exact absurd ⟨hc, h ▸ hc⟩ (not_clear_and_set k lo i)
  have hzero : lo &&& k.zeros = 0#w := by
    apply BitVec.eq_of_getLsbD_eq
    intro i _
    simp [hnone i]
  exact ⟨hzero, h ▸ hzero⟩

/-- An agreeing word that is not below a disagreeing bound leaves it at or above the
disagreement. -/
theorem exists_departure {t : Nat} (hx : k.Satisfies x) (hle : lo ≤ x)
    (hviol : ¬ ((k.zeros.getLsbD t = true → lo.getLsbD t = false) ∧
      (k.ones.getLsbD t = true → lo.getLsbD t = true))) :
    ∃ j, t ≤ j ∧ lo.getLsbD j = false ∧ x.getLsbD j = true ∧
      ∀ i, j < i → lo.getLsbD i = x.getLsbD i := by
  have hagree := satisfies_iff.mp hx t
  have hne : lo ≠ x := by
    rintro rfl
    exact hviol hagree
  obtain ⟨j, -, hlo, hxj, habove⟩ := Word.exists_top_difference (BitVec.lt_of_le_ne hle hne)
  refine ⟨j, ?_, hlo, hxj, habove⟩
  rcases Nat.lt_or_ge j t with hlt | hge
  · rw [habove t hlt] at hviol
    exact absurd hagree hviol
  · exact hge

/-! ## Rounding up -/

/-- The word is the least agreeing one that is not below the bound. -/
structure IsCeil (k : KnownBits w) (lo x : BitVec w) : Prop where
  satisfies : k.Satisfies x
  bound_le : lo ≤ x
  le_of_satisfies : ∀ y, k.Satisfies y → lo ≤ y → x ≤ y

/-- A bound whose first disagreement is a zero that has to be one is raised there. -/
theorem isCeil_of_set (hk : k.Disjoint)
    (hlt : lo &&& k.zeros < ~~~lo &&& k.ones) :
    k.IsCeil lo (k.raise lo (Word.topBit (~~~lo &&& k.ones))) := by
  have hnonzero : ~~~lo &&& k.ones ≠ 0#w := by
    intro hzero
    rw [hzero, BitVec.lt_def] at hlt
    simp at hlt
  have hset := Word.getLsbD_topBit hnonzero
  have habove := fun i => Word.getLsbD_above_of_lt hlt (i := i)
  generalize Word.topBit (~~~lo &&& k.ones) = t at hset habove
  simp only [BitVec.getLsbD_and, BitVec.getLsbD_not, Bool.and_eq_true, decide_eq_true_eq,
    Bool.not_eq_true'] at hset
  obtain ⟨⟨ht, hlo⟩, hone⟩ := hset
  have hraise : k.Raisable lo t := by
    refine ⟨ht, hlo, ?_, agreesAbove_of_getLsbD (fun i hi => (habove i hi).1)
      (fun i hi => (habove i hi).2)⟩
    cases hz : k.zeros.getLsbD t with
    | false => rfl
    | true => simp [disjoint_iff.mp hk t hz] at hone
  refine ⟨hraise.satisfies_raise hk, BitVec.le_of_lt hraise.lt_raise, ?_⟩
  intro y hy hle
  have hviol : ¬ ((k.zeros.getLsbD t = true → lo.getLsbD t = false) ∧
      (k.ones.getLsbD t = true → lo.getLsbD t = true)) := by
    rintro ⟨-, h⟩
    simp [h hone] at hlo
  obtain ⟨j, htj, hloj, hyj, hsame⟩ := exists_departure hy hle hviol
  exact hraise.raise_le hy htj hloj hyj hsame

/-- The positions above {lit}`t` at which the bound has a zero that may become one. -/
def openAbove (k : KnownBits w) (lo : BitVec w) (t : Nat) : BitVec w :=
  ~~~(lo ||| k.zeros) &&& Word.maskFrom w (t + 1)

theorem getLsbD_openAbove {t i : Nat} :
    (k.openAbove lo t).getLsbD i = true ↔
      i < w ∧ t < i ∧ lo.getLsbD i = false ∧ k.zeros.getLsbD i = false := by
  simp only [openAbove, BitVec.getLsbD_and, BitVec.getLsbD_not, BitVec.getLsbD_or,
    Word.getLsbD_maskFrom, Bool.and_eq_true, decide_eq_true_eq, Bool.not_eq_true',
    Bool.or_eq_false_iff, Nat.add_one_le_iff]
  constructor
  · rintro ⟨⟨hi, hlo, hz⟩, -, ht⟩
    exact ⟨hi, ht, hlo, hz⟩
  · rintro ⟨hi, ht, hlo, hz⟩
    exact ⟨⟨hi, hlo, hz⟩, hi, ht⟩

/-- An agreeing word that is not below a bound whose first disagreement is a one that has to
be zero leaves the bound at an open position. -/
theorem exists_open_departure {t : Nat} (hlo : lo.getLsbD t = true)
    (hzero : k.zeros.getLsbD t = true) (hx : k.Satisfies x) (hle : lo ≤ x) :
    ∃ j, (k.openAbove lo t).getLsbD j = true ∧ lo.getLsbD j = false ∧ x.getLsbD j = true ∧
      ∀ i, j < i → lo.getLsbD i = x.getLsbD i := by
  have hviol : ¬ ((k.zeros.getLsbD t = true → lo.getLsbD t = false) ∧
      (k.ones.getLsbD t = true → lo.getLsbD t = true)) := by
    rintro ⟨h, -⟩
    simp [h hzero] at hlo
  obtain ⟨j, htj, hloj, hxj, hsame⟩ := exists_departure hx hle hviol
  refine ⟨j, ?_, hloj, hxj, hsame⟩
  rw [getLsbD_openAbove]
  have hne : t ≠ j := by
    rintro rfl
    simp [hlo] at hloj
  refine ⟨BitVec.lt_of_getLsbD hxj, Nat.lt_of_le_of_ne htj hne, hloj, ?_⟩
  cases hz : k.zeros.getLsbD j with
  | false => rfl
  | true => simp [(satisfies_iff.mp hx j).1 hz] at hxj

/-- A bound whose first disagreement is a one that has to be zero is raised at the lowest
open position.  Without such a position no agreeing word reaches the bound. -/
theorem isCeil_of_clear (hk : k.Disjoint) (hlt : ~~~lo &&& k.ones < lo &&& k.zeros) :
    (∃ u, Word.lowestOne (k.openAbove lo (Word.topBit (lo &&& k.zeros))) = BitVec.twoPow w u ∧
      k.IsCeil lo (k.raise lo u)) ∨
    (k.openAbove lo (Word.topBit (lo &&& k.zeros)) = 0#w ∧ ∀ y, k.Satisfies y → y < lo) := by
  have hnonzero : lo &&& k.zeros ≠ 0#w := by
    intro hzero
    rw [hzero, BitVec.lt_def] at hlt
    simp at hlt
  have hclear := Word.getLsbD_topBit hnonzero
  have habove := fun i => Word.getLsbD_above_of_lt hlt (i := i)
  generalize Word.topBit (lo &&& k.zeros) = t at hclear habove
  simp only [BitVec.getLsbD_and, Bool.and_eq_true] at hclear
  obtain ⟨hlo, hzero⟩ := hclear
  by_cases hopen : k.openAbove lo t = 0#w
  · right
    refine ⟨hopen, ?_⟩
    intro y hy
    rw [← BitVec.not_le]
    intro hle
    obtain ⟨j, hj, -⟩ := exists_open_departure hlo hzero hy hle
    simp [hopen] at hj
  · left
    obtain ⟨u, hu, hopenu, hlowest, hunit⟩ := Word.lowestOne_eq_twoPow hopen
    obtain ⟨-, htu, hlou, hzu⟩ := getLsbD_openAbove.mp hopenu
    have hraise : k.Raisable lo u := by
      refine ⟨hu, hlou, hzu, agreesAbove_of_getLsbD ?_ ?_⟩
      · intro i hi
        exact (habove i (Nat.lt_trans htu hi)).2
      · intro i hi
        exact (habove i (Nat.lt_trans htu hi)).1
    refine ⟨u, hunit, hraise.satisfies_raise hk, BitVec.le_of_lt hraise.lt_raise, ?_⟩
    intro y hy hle
    obtain ⟨j, hj, hloj, hyj, hsame⟩ := exists_open_departure hlo hzero hy hle
    have huj : u ≤ j := by
      rcases Nat.lt_or_ge j u with hju | hge
      · simp [hlowest j hju] at hj
      · exact hge
    exact hraise.raise_le hy huj hloj hyj hsame

/-- Rounding up finds the least agreeing word that is not below the bound.  If there is none,
the result is the word of the known ones. -/
theorem ceil_spec (hk : k.Disjoint) (lo : BitVec w) :
    k.IsCeil lo (k.ceil lo) ∨ (k.ceil lo = k.ones ∧ ∀ y, k.Satisfies y → y < lo) := by
  by_cases heq : lo &&& k.zeros = ~~~lo &&& k.ones
  · left
    rw [ceil, if_pos heq]
    exact ⟨satisfies_of_clear_eq_set heq, BitVec.le_refl lo, fun _ _ hle => hle⟩
  · by_cases hlt : lo &&& k.zeros < ~~~lo &&& k.ones
    · left
      have hceil : k.ceil lo = k.raise lo (Word.topBit (~~~lo &&& k.ones)) := by
        simp only [ceil, raise, if_neg heq, if_pos hlt]
      rw [hceil]
      exact isCeil_of_set hk hlt
    · have hgt : ~~~lo &&& k.ones < lo &&& k.zeros :=
        BitVec.lt_of_le_ne (BitVec.not_lt.mp hlt) (Ne.symm heq)
      have hceil : k.ceil lo =
          ((lo &&& -Word.lowestOne (k.openAbove lo (Word.topBit (lo &&& k.zeros)))) +
            Word.lowestOne (k.openAbove lo (Word.topBit (lo &&& k.zeros)))) ||| k.ones := by
        simp only [ceil, openAbove, if_neg heq, if_neg hlt]
      rcases isCeil_of_clear hk hgt with ⟨u, hunit, hisCeil⟩ | ⟨hopen, hnone⟩
      · left
        rw [hceil, hunit]
        exact hisCeil
      · right
        refine ⟨?_, hnone⟩
        rw [hceil, hopen]
        simp

/-- Rounding up that does not fall below the bound finds the nearest agreeing word. -/
theorem isCeil_of_not_lt (hk : k.Disjoint) (h : ¬ k.ceil lo < lo) : k.IsCeil lo (k.ceil lo) := by
  rcases ceil_spec hk lo with hceil | ⟨hones, hnone⟩
  · exact hceil
  · rw [hones] at h
    exact absurd (hnone _ hk.satisfies_ones) h

/-- If rounding up falls below the bound, then so do all agreeing words. -/
theorem lt_of_ceil_lt (hk : k.Disjoint) (h : k.ceil lo < lo) (hx : k.Satisfies x) : x < lo := by
  rcases ceil_spec hk lo with hceil | ⟨-, hnone⟩
  · exact absurd hceil.bound_le (BitVec.not_le.mpr h)
  · exact hnone x hx

/-! ## Rounding down -/

/-- The word is the greatest agreeing one that is not above the bound. -/
structure IsFloor (k : KnownBits w) (hi x : BitVec w) : Prop where
  satisfies : k.Satisfies x
  le_bound : x ≤ hi
  le_of_satisfies : ∀ y, k.Satisfies y → y ≤ hi → y ≤ x

/-- Complement turns rounding up into rounding down. -/
theorem IsCeil.isFloor {hi : BitVec w} (h : k.swap.IsCeil (~~~hi) x) : k.IsFloor hi (~~~x) := by
  refine ⟨satisfies_swap.mp h.satisfies, ?_, ?_⟩
  · exact Word.not_le_iff.mpr h.bound_le
  · intro y hy hle
    have hy' : k.swap.Satisfies (~~~y) := by
      rw [satisfies_swap, BitVec.not_not]
      exact hy
    exact Word.le_not_iff.mpr (h.le_of_satisfies _ hy' (Word.not_le_not.mpr hle))

/-- Rounding down finds the greatest agreeing word that is not above the bound.  If there is
none, the result is the word of all bits that are not known to be zero. -/
theorem floor_spec (hk : k.Disjoint) (hi : BitVec w) :
    k.IsFloor hi (k.floor hi) ∨ (k.floor hi = ~~~k.zeros ∧ ∀ y, k.Satisfies y → hi < y) := by
  rcases ceil_spec (disjoint_swap.mpr hk) (~~~hi) with hceil | ⟨hones, hnone⟩
  · left
    exact hceil.isFloor
  · right
    refine ⟨by rw [floor, hones, swap], ?_⟩
    intro y hy
    have hy' : k.swap.Satisfies (~~~y) := by
      rw [satisfies_swap, BitVec.not_not]
      exact hy
    exact Word.not_lt_not.mp (hnone _ hy')

/-- Rounding down that does not go above the bound finds the nearest agreeing word. -/
theorem isFloor_of_not_lt {hi : BitVec w} (hk : k.Disjoint) (h : ¬ hi < k.floor hi) :
    k.IsFloor hi (k.floor hi) :=
  (isCeil_of_not_lt (disjoint_swap.mpr hk) fun hlt => h (Word.lt_not_iff.mpr hlt)).isFloor

/-- If rounding down goes above the bound, then so do all agreeing words. -/
theorem lt_of_lt_floor {hi : BitVec w} (hk : k.Disjoint) (h : hi < k.floor hi)
    (hx : k.Satisfies x) : hi < x := by
  rcases floor_spec hk hi with hfloor | ⟨-, hnone⟩
  · exact absurd hfloor.le_bound (BitVec.not_le.mpr h)
  · exact hnone x hx

/-! ## Agreeing words on either side -/

/-- An agreeing word that is not below the bound makes rounding up find the nearest one. -/
theorem isCeil_of_exists (hk : k.Disjoint) (h : ∃ x, k.Satisfies x ∧ lo ≤ x) :
    k.IsCeil lo (k.ceil lo) := by
  rcases h with ⟨x, hx, hle⟩
  apply isCeil_of_not_lt hk
  intro hlt
  exact BitVec.not_le.mpr (lt_of_ceil_lt hk hlt hx) hle

/-- An agreeing word that is not above the bound makes rounding down find the nearest one. -/
theorem isFloor_of_exists {hi : BitVec w} (hk : k.Disjoint) (h : ∃ x, k.Satisfies x ∧ x ≤ hi) :
    k.IsFloor hi (k.floor hi) := by
  rcases h with ⟨x, hx, hle⟩
  apply isFloor_of_not_lt hk
  intro hlt
  exact BitVec.not_le.mpr (lt_of_lt_floor hk hlt hx) hle

/-- Rounding finds the nearest agreeing word in its direction.  If there is none, rounding up
gives the known ones, which lie below the bound, and rounding down gives all bits that are not
known to be zero, which lie above it. -/
theorem rounding_finds_nearest (hk : k.Disjoint) (lo hi : BitVec w) :
    ((∃ x, k.Satisfies x ∧ lo ≤ x) → k.IsCeil lo (k.ceil lo)) ∧
    ((¬ ∃ x, k.Satisfies x ∧ lo ≤ x) → k.ceil lo = k.ones ∧ k.ceil lo < lo) ∧
    ((∃ x, k.Satisfies x ∧ x ≤ hi) → k.IsFloor hi (k.floor hi)) ∧
    ((¬ ∃ x, k.Satisfies x ∧ x ≤ hi) → k.floor hi = ~~~k.zeros ∧ hi < k.floor hi) := by
  refine ⟨isCeil_of_exists hk, ?_, isFloor_of_exists hk, ?_⟩
  · intro hnone
    rcases ceil_spec hk lo with hceil | ⟨hones, hbelow⟩
    · exact absurd ⟨_, hceil.satisfies, hceil.bound_le⟩ hnone
    · rw [hones]
      exact ⟨rfl, hbelow _ hk.satisfies_ones⟩
  · intro hnone
    rcases floor_spec hk hi with hfloor | ⟨hrest, habove⟩
    · exact absurd ⟨_, hfloor.satisfies, hfloor.le_bound⟩ hnone
    · rw [hrest]
      exact ⟨rfl, habove _ hk.satisfies_not_zeros⟩

/-! ### Words in steps of four -/

namespace Stepped

/-- Words of sixteen bits below the sign boundary whose fifth bit is set and which are
multiples of four. -/
def bits : KnownBits 16 :=
  ⟨0x8003, 0x0010⟩

/-- Rounding skips the words whose fifth bit is not set, in both directions.  Above the greatest
and below the least agreeing word there is nothing to be found. -/
theorem rounded_over_gap : bits.Disjoint ∧
    (bits.IsCeil 0x0021 0x0030 ∧ bits.IsFloor 0x002f 0x001c) ∧
    (bits.ceil 0x7ffd = 0x0010 ∧ bits.ceil 0x7ffd < 0x7ffd) ∧
    (bits.floor 0x000f = 0x7ffc ∧ 0x000f < bits.floor 0x000f) := by
  have hk : bits.Disjoint := by decide
  obtain ⟨hceil, -, hfloor, -⟩ := rounding_finds_nearest hk 0x0021 0x002f
  obtain ⟨-, hones, -, hrest⟩ := rounding_finds_nearest hk 0x7ffd 0x000f
  refine ⟨hk, ⟨hceil ⟨0x0030, by decide, by decide⟩, hfloor ⟨0x001c, by decide, by decide⟩⟩,
    hones ?_, hrest ?_⟩
  · rintro ⟨x, hx, hle⟩
    exact absurd (lt_of_ceil_lt hk (by decide) hx) (BitVec.not_lt.mpr hle)
  · rintro ⟨x, hx, hle⟩
    exact absurd (lt_of_lt_floor hk (by decide) hx) (BitVec.not_lt.mpr hle)

end Stepped

end KnownBits
end WordRanges
