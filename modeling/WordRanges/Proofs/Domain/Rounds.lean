import WordRanges.Proofs.Domain.Defects

/-!
# Rounds of settling

Settling repeats its round until a step makes no progress.  Every round that goes on leaves fewer
bits unknown, so the rounds end; but they end much sooner than that.  A round that goes on has
moved both bounds to words that agree with the bits.  They agree with the bits that are added
next as well, since these are bits that both bounds share.  So the second round finds nothing to
do.

Main results:

- Theorem {lit}`settled_of_again`: a round that goes on leaves a settled pair.
- Theorem {lit}`settleRound_of_settled`: a round leaves a settled pair as it is.
- Theorem {lit}`BoundedBits.SettlesIn.rounds_le`: settling takes at most two rounds.
- Theorem {lit}`settle_exact`: settling ends after at most two rounds with the tightest bounds and
  bits, if there are any members.
-/

namespace WordRanges

variable {w : Nat} {s t : BoundedBits w} {n : Nat} {r : Option (BoundedBits w)}

/-! ## What a round leaves -/

/-- A round that goes on leaves a settled pair. -/
theorem settled_of_again (hk : s.bits.Disjoint) (h : settleRound s = .again t) : t.Settled := by
  unfold settleRound at h
  simp only at h
  split at h
  · cases h
  · rename_i hbounds
    simp only [Bool.or_eq_true, Bool.not_eq_true', not_or, Bool.not_eq_false] at hbounds
    obtain ⟨hlo, hhi⟩ := contains_bounds_tightenBounds hk hbounds.2
    split at h
    · cases h
    · cases h
      -- Both bounds agree with the old bits; the new ones are bits that they share.
      exact settled_tightenBits hlo.1.2 hlo.2 hhi.2

/-- A round leaves a settled pair as it is and ends. -/
theorem settleRound_of_settled (h : s.Settled) : settleRound s = .done (some s) := by
  have hprogress : (tightenBounds s.bounds s.bits).progress = false :=
    progress_tightenBounds h.contains_lo.2 h.contains_hi.2
  have hconsistent : (tightenBounds s.bounds s.bits).consistent = true := by
    by_contra hnot
    exact not_contains_of_tightenBounds h.contains_lo.2.disjoint (Bool.eq_false_iff.mpr hnot)
      h.contains_lo
  unfold settleRound
  simp [hprogress, hconsistent, tightenBounds_eq_of_not_progress hprogress]

/-! ## Counting rounds -/

/-- The rounds that start from a pair, how many they are and what they end with. -/
inductive Rounds : BoundedBits w → Nat → Option (BoundedBits w) → Prop where
  | last {s : BoundedBits w} {r : Option (BoundedBits w)} (h : settleRound s = .done r) :
      Rounds s 1 r
  | next {s t : BoundedBits w} {n : Nat} {r : Option (BoundedBits w)}
      (h : settleRound s = .again t) (rest : Rounds t n r) : Rounds s (n + 1) r

namespace Rounds

/-- Rounds end with the result of their repetition. -/
theorem settleRounds_eq (h : Rounds s n r) : settleRounds s = r := by
  induction h with
  | last hround => exact settleRounds_of_done hround
  | next hround _ ih => rw [settleRounds_of_again hround, ih]

/-- From a settled pair there is one round. -/
theorem eq_one (h : Rounds s n r) (hs : s.Settled) : n = 1 := by
  cases h with
  | last _ => rfl
  | next hround _ =>
      rw [settleRound_of_settled hs] at hround
      cases hround

/-- There are at most two rounds. -/
theorem le_two (h : Rounds s n r) (hk : s.bits.Disjoint) : n ≤ 2 := by
  cases h with
  | last _ => decide
  | next hround rest =>
      have hone := rest.eq_one (settled_of_again hk hround)
      omega

end Rounds

/-- Rounds end, whatever the pair that they start from. -/
theorem exists_rounds (s : BoundedBits w) : ∃ n, Rounds s n (settleRounds s) := by
  induction s using settleRounds.induct with
  | case1 s result hround =>
      rw [settleRounds_of_done hround]
      exact ⟨1, .last hround⟩
  | case2 s t hround _ ih =>
      rcases ih with ⟨n, hn⟩
      rw [settleRounds_of_again hround]
      exact ⟨n + 1, .next hround hn⟩

/-! ## Settling -/

namespace BoundedBits

/-- Settling a pair takes a number of rounds and ends with a result.  There are no rounds if the
bits contradict those that the bounds share. -/
inductive SettlesIn (s : BoundedBits w) : Nat → Option (BoundedBits w) → Prop where
  | atOnce (h : (tightenBits s.bits s.bounds).consistent = false) : SettlesIn s 0 none
  | afterRounds {n : Nat} {r : Option (BoundedBits w)}
      (h : (tightenBits s.bits s.bounds).consistent = true)
      (rounds : Rounds ⟨s.bounds, (tightenBits s.bits s.bounds).result⟩ n r) : SettlesIn s n r

/-- Settling ends with its result. -/
theorem SettlesIn.settle_eq (h : s.SettlesIn n r) : settle s = r := by
  cases h with
  | atOnce hcons => simp [settle, hcons]
  | afterRounds hcons rounds => simp [settle, hcons, rounds.settleRounds_eq]

/-- Settling takes at most two rounds. -/
theorem SettlesIn.rounds_le (h : s.SettlesIn n r) : n ≤ 2 := by
  cases h with
  | atOnce _ => decide
  | afterRounds hcons rounds => exact rounds.le_two (consistent_tightenBits.mp hcons)

/-- Settling ends, whatever the pair. -/
theorem exists_settlesIn (s : BoundedBits w) : ∃ n, s.SettlesIn n (settle s) := by
  cases hcons : (tightenBits s.bits s.bounds).consistent with
  | false =>
      refine ⟨0, ?_⟩
      simpa [settle, hcons] using SettlesIn.atOnce hcons
  | true =>
      rcases exists_rounds ⟨s.bounds, (tightenBits s.bits s.bounds).result⟩ with ⟨n, hn⟩
      refine ⟨n, ?_⟩
      simpa [settle, hcons] using SettlesIn.afterRounds hcons hn

/-- A pair that describes a set of words as tightly as possible: its bounds are the extreme
elements, and a bit is known if all elements share it. -/
structure IsTightest (M : BitVec w → Prop) (t : BoundedBits w) : Prop where
  lo : M t.bounds.lo ∧ ∀ x, M x → t.bounds.lo ≤ x
  hi : M t.bounds.hi ∧ ∀ x, M x → x ≤ t.bounds.hi
  zeros : ∀ i, i < w → (t.bits.zeros.getLsbD i = true ↔ ∀ x, M x → x.getLsbD i = false)
  ones : ∀ i, i < w → (t.bits.ones.getLsbD i = true ↔ ∀ x, M x → x.getLsbD i = true)

/-- A settled pair is the tightest one for its members. -/
theorem Settled.isTightest (h : t.Settled) : t.IsTightest t.Contains where
  lo := ⟨h.contains_lo, fun _ hx => hx.1.1⟩
  hi := ⟨h.contains_hi, fun _ hx => hx.1.2⟩
  zeros _ hi := h.zeros_iff hi
  ones _ hi := h.ones_iff hi

end BoundedBits

open BoundedBits

/-- What settling finds is the tightest pair for the members. -/
theorem isTightest_of_settle (h : settle s = some t) : t.IsTightest s.Contains := by
  have hspec := settle_spec s
  rw [h] at hspec
  have hmembers : t.Contains = s.Contains := funext fun x => propext (hspec.2 x)
  rw [← hmembers]
  exact hspec.1.isTightest

/-- Settling has a result exactly if there are members. -/
theorem isSome_settle_iff (s : BoundedBits w) :
    (settle s).isSome = true ↔ ∃ x, s.Contains x := by
  have hspec := settle_spec s
  cases hresult : settle s with
  | none =>
      rw [hresult] at hspec
      have hempty : ∀ x, ¬ s.Contains x := hspec
      simpa using hempty
  | some t =>
      rw [hresult] at hspec
      simpa using ⟨_, (hspec.2 _).mp hspec.1.contains_lo⟩

/-- Settling any bounds with any bits is exact and takes at most two rounds.  It has a result
exactly if some word between the bounds agrees with the bits; the bounds of the result are the
least and the greatest such word, and its known bits are those that all such words share. -/
theorem settle_exact (s : BoundedBits w) :
    (∃ n, s.SettlesIn n (settle s)) ∧
    (∀ n r, s.SettlesIn n r → n ≤ 2 ∧ r = settle s) ∧
    ((settle s).isSome = true ↔ ∃ x, s.Contains x) ∧
    ∀ t, settle s = some t → t.IsTightest s.Contains :=
  ⟨exists_settlesIn s, fun _ _ h => ⟨h.rounds_le, h.settle_eq.symm⟩, isSome_settle_iff s,
    fun _ => isTightest_of_settle⟩

/-- Two rounds are needed: between three and nine there is one multiple of eight, which the first
round finds and the second confirms. -/
example : settleRound (w := 8) ⟨⟨3, 9⟩, ⟨0xf7, 0⟩⟩ = .again ⟨⟨8, 8⟩, ⟨0xf7, 8⟩⟩ := by decide

end WordRanges
