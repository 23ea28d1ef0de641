import Mathlib.Data.Nat.Bitwise
import Mathlib.Data.Nat.Find
import WordRanges.Domain.Word

/-!
# Words bit by bit

The unsigned order of words is the order at their topmost difference.  This module states
that fact in both directions and describes the words that tightening is made of bit by
bit: the topmost one, the lowest one, masks, and a word raised at one position.

Main results:

- Theorems {lit}`lt_of_getLsbD` and {lit}`exists_top_difference`: the order of two words is
  decided at their topmost difference.
- Theorem {lit}`lowestOne_eq_twoPow`: the lowest one of a word is a power of two.
- Theorem {lit}`getLsbD_raise`: the bits of a word that is raised at a position.
-/

namespace WordRanges
namespace Word

variable {w : Nat}

/-! ## Order and topmost differences -/

/-- A word is below another one if it is smaller at a position above which both agree. -/
theorem lt_of_getLsbD {x y : BitVec w} (i : Nat) (hx : x.getLsbD i = false)
    (hy : y.getLsbD i = true) (h : ∀ j, i < j → x.getLsbD j = y.getLsbD j) : x < y := by
  rw [BitVec.lt_def]
  exact Nat.lt_of_testBit i hx hy h

/-- Different words have a topmost difference. -/
theorem exists_top_ne {x y : BitVec w} (h : x ≠ y) :
    ∃ i, i < w ∧ x.getLsbD i ≠ y.getLsbD i ∧ ∀ j, i < j → x.getLsbD j = y.getLsbD j := by
  have hne : (x ^^^ y).toNat ≠ 0 := by
    intro hzero
    have hxor : x ^^^ y = 0#w := by
      apply BitVec.eq_of_toNat_eq
      simpa using hzero
    exact h (BitVec.xor_eq_zero_iff.mp hxor)
  obtain ⟨i, hi, habove⟩ := Nat.exists_most_significant_bit hne
  have hbit : (x ^^^ y).getLsbD i = true := hi
  refine ⟨i, ?_, ?_, ?_⟩
  · exact BitVec.lt_of_getLsbD hbit
  · simpa using hbit
  · intro j hj
    have hj' : (x ^^^ y).getLsbD j = false := habove j hj
    simpa using hj'

/-- The order of two words shows at their topmost difference. -/
theorem exists_top_difference {x y : BitVec w} (h : x < y) :
    ∃ i, i < w ∧ x.getLsbD i = false ∧ y.getLsbD i = true ∧
      ∀ j, i < j → x.getLsbD j = y.getLsbD j := by
  have hne : x ≠ y := by
    rintro rfl
    exact BitVec.lt_irrefl x h
  obtain ⟨i, hi, hdiff, habove⟩ := exists_top_ne hne
  refine ⟨i, hi, ?_⟩
  cases hx : x.getLsbD i with
  | false =>
      have hy : y.getLsbD i = true := by
        cases hy : y.getLsbD i with
        | false => exact absurd (hx.trans hy.symm) hdiff
        | true => rfl
      exact ⟨rfl, hy, habove⟩
  | true =>
      have hy : y.getLsbD i = false := by
        cases hy : y.getLsbD i with
        | false => rfl
        | true => exact absurd (hx.trans hy.symm) hdiff
      have hlt : y < x := lt_of_getLsbD i hy hx fun j hj => (habove j hj).symm
      exact absurd (BitVec.lt_trans h hlt) (BitVec.lt_irrefl x)

/-- A word is not above another one that has all of its ones. -/
theorem le_of_getLsbD_imp {x y : BitVec w}
    (h : ∀ i, x.getLsbD i = true → y.getLsbD i = true) : x ≤ y := by
  rw [← BitVec.not_lt]
  intro hlt
  obtain ⟨i, -, hy, hx, -⟩ := exists_top_difference hlt
  simp [h i hx] at hy

/-! ## Setting and clearing a bit -/

/-- Setting a bit leaves the others as they are. -/
theorem getLsbD_set_of_ne {x : BitVec w} {i j : Nat} (hij : i ≠ j) :
    (x ||| BitVec.twoPow w i).getLsbD j = x.getLsbD j := by
  rw [BitVec.getLsbD_or, BitVec.getLsbD_twoPow, decide_eq_false hij, Bool.and_false, Bool.or_false]

/-- A bit that is set is one. -/
theorem getLsbD_set_self {x : BitVec w} {i : Nat} (hi : i < w) :
    (x ||| BitVec.twoPow w i).getLsbD i = true := by
  rw [BitVec.getLsbD_or, BitVec.getLsbD_twoPow, decide_eq_true hi, decide_eq_true rfl,
    Bool.true_and, Bool.or_true]

/-- Clearing a bit leaves the others as they are. -/
theorem getLsbD_clear (x : BitVec w) (i j : Nat) :
    (x &&& ~~~BitVec.twoPow w i).getLsbD j = (x.getLsbD j && decide (i ≠ j)) := by
  rw [BitVec.getLsbD_and, BitVec.getLsbD_not, BitVec.getLsbD_twoPow]
  cases hxj : x.getLsbD j with
  | false => rfl
  | true =>
      have hj := BitVec.lt_of_getLsbD hxj
      by_cases hij : i = j
      · simp [hij, hj]
      · simp [hij, hj]

/-- Clearing a bit does not lead upwards. -/
theorem clear_le (x : BitVec w) (i : Nat) : x &&& ~~~BitVec.twoPow w i ≤ x := by
  apply le_of_getLsbD_imp
  intro j hj
  rw [getLsbD_clear, Bool.and_eq_true] at hj
  exact hj.1

/-- Below the topmost difference of two words, the lesser one may get a one. -/
theorem or_twoPow_mem {lo hi : BitVec w} {i d : Nat} (hlod : lo.getLsbD d = false)
    (hhid : hi.getLsbD d = true) (habove : ∀ n, d < n → lo.getLsbD n = hi.getLsbD n)
    (hlt : i < d) : lo ≤ lo ||| BitVec.twoPow w i ∧ lo ||| BitVec.twoPow w i ≤ hi := by
  refine ⟨le_of_getLsbD_imp fun n hn => by simp [hn], BitVec.le_of_lt ?_⟩
  refine lt_of_getLsbD d ?_ hhid ?_
  · rw [getLsbD_set_of_ne (Nat.ne_of_lt hlt), hlod]
  · intro n hn
    have hin : i ≠ n := by omega
    rw [getLsbD_set_of_ne hin, habove n hn]

/-- Below the topmost difference of two words, the greater one may get a zero. -/
theorem and_not_twoPow_mem {lo hi : BitVec w} {i d : Nat} (hlod : lo.getLsbD d = false)
    (hhid : hi.getLsbD d = true) (habove : ∀ n, d < n → lo.getLsbD n = hi.getLsbD n)
    (hlt : i < d) : lo ≤ hi &&& ~~~BitVec.twoPow w i ∧ hi &&& ~~~BitVec.twoPow w i ≤ hi := by
  refine ⟨BitVec.le_of_lt (lt_of_getLsbD d hlod ?_ ?_), clear_le hi i⟩
  · rw [getLsbD_clear, hhid, decide_eq_true (Nat.ne_of_lt hlt), Bool.and_true]
  · intro n hn
    have hin : i ≠ n := by omega
    rw [getLsbD_clear, decide_eq_true hin, Bool.and_true, habove n hn]

/-! ## Masks and complements -/

/-- A mask lies within another one exactly if all its bits do. -/
theorem and_not_eq_zero_iff {a b : BitVec w} :
    a &&& ~~~b = 0#w ↔ ∀ i, a.getLsbD i = true → b.getLsbD i = true := by
  constructor
  · intro h i hi
    have hbit : (a &&& ~~~b).getLsbD i = false := by simp [h]
    simpa [hi, BitVec.lt_of_getLsbD hi] using hbit
  · intro h
    apply BitVec.eq_of_getLsbD_eq
    intro i hi
    rw [BitVec.getLsbD_and, BitVec.getLsbD_not, BitVec.getLsbD_zero]
    cases ha : a.getLsbD i with
    | false => rfl
    | true => simp [h i ha]

/-- Complement reverses the unsigned order. -/
theorem not_le_not {x y : BitVec w} : ~~~x ≤ ~~~y ↔ y ≤ x := by
  rw [BitVec.le_def, BitVec.le_def, BitVec.toNat_not, BitVec.toNat_not]
  have hx := x.isLt
  have hy := y.isLt
  omega

/-- Complement reverses the strict unsigned order. -/
theorem not_lt_not {x y : BitVec w} : ~~~x < ~~~y ↔ y < x := by
  rw [← BitVec.not_le, ← BitVec.not_le, not_le_not]

/-- A complement is not above a word if that word's complement is not above it. -/
theorem not_le_iff {x y : BitVec w} : ~~~x ≤ y ↔ ~~~y ≤ x := by
  rw [← not_le_not, BitVec.not_not]

/-- A word is not above a complement if the complement's word is not above its own. -/
theorem le_not_iff {x y : BitVec w} : x ≤ ~~~y ↔ y ≤ ~~~x := by
  rw [← not_le_not, BitVec.not_not]

/-- A word is below a complement if the complement's word is below its own. -/
theorem lt_not_iff {x y : BitVec w} : x < ~~~y ↔ y < ~~~x := by
  rw [← not_lt_not, BitVec.not_not]

/-! ## Topmost and lowest ones -/

/-- A word other than zero has a one at its topmost position. -/
theorem getLsbD_topBit {x : BitVec w} (h : x ≠ 0#w) : x.getLsbD (topBit x) = true := by
  have hne : x.toNat ≠ 0 := by
    intro hzero
    exact h (BitVec.eq_of_toNat_eq (by simpa using hzero))
  exact Nat.testBit_log2 hne

/-- A word has no one above its topmost position. -/
theorem getLsbD_of_topBit_lt {x : BitVec w} {i : Nat} (h : topBit x < i) :
    x.getLsbD i = false := by
  by_cases hx : x = 0#w
  · simp [hx]
  · have hne : x.toNat ≠ 0 := by
      intro hzero
      exact hx (BitVec.eq_of_toNat_eq (by simpa using hzero))
    exact Nat.testBit_eq_false_of_lt ((Nat.log2_lt hne).mp h)

/-- If a word is below another one, then both are zero above the topmost one of the latter. -/
theorem getLsbD_above_of_lt {x y : BitVec w} (h : x < y) {i : Nat} (hi : topBit y < i) :
    x.getLsbD i = false ∧ y.getLsbD i = false := by
  have hy : y.getLsbD i = false := getLsbD_of_topBit_lt hi
  obtain ⟨j, -, -, hyj, habove⟩ := exists_top_difference h
  have hj : j < i := by
    rcases Nat.lt_or_ge j i with hlt | hge
    · exact hlt
    · have : y.getLsbD j = false := getLsbD_of_topBit_lt (Nat.lt_of_lt_of_le hi hge)
      simp [hyj] at this
  exact ⟨(habove i hj).trans hy, hy⟩

/-- The bits of a mask. -/
@[simp]
theorem getLsbD_maskFrom (i j : Nat) :
    (maskFrom w i).getLsbD j = (decide (j < w) && decide (i ≤ j)) := by
  by_cases hj : j < w
  · by_cases hij : i ≤ j
    · simp [maskFrom, hj, hij, Nat.not_lt.mpr hij]
    · simp [maskFrom, hj, hij, Nat.lt_of_not_le hij]
  · simp [maskFrom, hj]

/-- The zero word has no lowest one. -/
@[simp]
theorem lowestOne_zero : lowestOne (0#w) = 0#w := by
  simp [lowestOne]

/-- The lowest one of a word is a power of two. -/
theorem lowestOne_eq_twoPow {x : BitVec w} (h : x ≠ 0#w) :
    ∃ u, u < w ∧ x.getLsbD u = true ∧ (∀ j, j < u → x.getLsbD j = false) ∧
      lowestOne x = BitVec.twoPow w u := by
  have hone : ∃ u, x.getLsbD u = true := ⟨topBit x, getLsbD_topBit h⟩
  obtain ⟨u, hspec, hbelow⟩ :
      ∃ u, x.getLsbD u = true ∧ ∀ j, j < u → x.getLsbD j = false := by
    refine ⟨Nat.find hone, Nat.find_spec hone, ?_⟩
    intro j hj
    simpa using Nat.find_min hone hj
  have hu : u < w := BitVec.lt_of_getLsbD hspec
  refine ⟨u, hu, hspec, hbelow, ?_⟩
  -- Below the lowest one the word has zeros; above it negation flips every bit.
  apply BitVec.eq_of_getLsbD_eq
  intro i hi
  rw [lowestOne, BitVec.getLsbD_and, BitVec.getLsbD_neg, BitVec.getLsbD_twoPow]
  rcases Nat.lt_trichotomy i u with hlt | heq | hgt
  · simp [hbelow i hlt, Nat.ne_of_gt hlt]
  · subst heq
    have hnone : ¬ ∃ j < i, x.getLsbD j = true := by
      rintro ⟨j, hj, hxj⟩
      simp [hbelow j hj] at hxj
    rw [hspec, decide_eq_false hnone]
    simp [hi]
  · have hsome : ∃ j < i, x.getLsbD j = true := ⟨u, hgt, hspec⟩
    rw [decide_eq_true hsome]
    simp [hi, Nat.ne_of_lt hgt]

/-! ## Raising a word -/

/-- The bits of the negative of a power of two. -/
theorem getLsbD_neg_twoPow {u : Nat} (hu : u < w) (i : Nat) :
    (-BitVec.twoPow w u).getLsbD i = (decide (i < w) && decide (u ≤ i)) := by
  rw [BitVec.getLsbD_neg]
  by_cases hi : i < w
  · rcases Nat.lt_trichotomy i u with hlt | heq | hgt
    · have hnone : ¬ ∃ j < i, u = j := by
        rintro ⟨j, hj, rfl⟩
        omega
      simp [hi, hu, hnone, Nat.ne_of_lt hlt, Nat.not_le.mpr hlt]
    · subst heq
      simp [hi]
    · have hsome : ∃ j < i, u = j := ⟨u, hgt, rfl⟩
      simp [hi, hu, hsome, Nat.ne_of_gt hgt, Nat.le_of_lt hgt]
  · have hui : u ≠ i := by omega
    simp [hi, hui]

/-- A word raised at a position where it has a zero keeps its bits above, gets a one there
and zeros below. -/
theorem getLsbD_raise {x : BitVec w} {u : Nat} (hu : u < w) (hx : x.getLsbD u = false)
    (i : Nat) :
    ((x &&& -BitVec.twoPow w u) + BitVec.twoPow w u).getLsbD i =
      (decide (u = i) || (x.getLsbD i && decide (u < i))) := by
  have hdisjoint : (x &&& -BitVec.twoPow w u) &&& BitVec.twoPow w u = 0#w := by
    apply BitVec.eq_of_getLsbD_eq
    intro j hj
    by_cases huj : u = j
    · subst huj
      simp [hx]
    · simp [huj]
  rw [BitVec.add_eq_or_of_and_eq_zero _ _ hdisjoint, BitVec.getLsbD_or, BitVec.getLsbD_and,
    getLsbD_neg_twoPow hu, BitVec.getLsbD_twoPow]
  by_cases hi : i < w
  · rcases Nat.lt_trichotomy i u with hlt | heq | hgt
    · simp [hi, Nat.ne_of_gt hlt, Nat.not_le.mpr hlt, Nat.not_lt.mpr (Nat.le_of_lt hlt)]
    · subst heq
      simp [hu]
    · simp [hi, Nat.ne_of_lt hgt, Nat.le_of_lt hgt, hgt]
  · have hui : u ≠ i := by omega
    simp [hi, hui, BitVec.getLsbD_of_ge x i (Nat.le_of_not_lt hi)]

end Word
end WordRanges
