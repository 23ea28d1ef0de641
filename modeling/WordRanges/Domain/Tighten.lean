import WordRanges.Domain.Bounds
import WordRanges.Domain.KnownBits

/-!
# Tightening bounds and bits against each other

Bounds (in unsigned order) and known bits that describe the same word constrain
each other.  A bound can be moved to the nearest word that agrees with the bits,
and the leading bits that both bounds share are known.  Repeating the two steps
until neither makes progress settles the pair.

Main definitions:

- {lit}`KnownBits.ceil` and {lit}`KnownBits.floor`: the nearest agreeing word above and below.
- {lit}`tightenBounds` and {lit}`tightenBits`: the two tightening steps.
- {lit}`settle`: both steps repeated until neither makes progress.
-/

namespace WordRanges

variable {w : Nat}

/-! ## The nearest agreeing word -/

/-- The smallest word not below {lit}`lo` that agrees with the known bits.

The result shares with {lit}`lo` all bits before some position, has a one there where
{lit}`lo` has a zero, and is as small as possible after it.  The position is the last one
at or before the first disagreement of {lit}`lo` that is zero in {lit}`lo` and may be one.
When there is no such position the sum wraps around, and the result is the word of the
known ones alone, which is below {lit}`lo`. -/
def KnownBits.ceil (k : KnownBits w) (lo : BitVec w) : BitVec w :=
  let mustClear := lo &&& k.zeros
  let mustSet := ~~~lo &&& k.ones
  if mustClear = mustSet then
    lo
  else
    let unit :=
      if mustClear < mustSet then
        BitVec.twoPow w (Word.topBit mustSet)
      else
        Word.lowestOne (~~~(lo ||| k.zeros) &&& Word.maskFrom w (Word.topBit mustClear + 1))
    ((lo &&& -unit) + unit) ||| k.ones

/-- The largest word not above {lit}`hi` that agrees with the known bits.  Complement
reverses the order and exchanges the roles of zeros and ones. -/
def KnownBits.floor (k : KnownBits w) (hi : BitVec w) : BitVec w :=
  ~~~(k.swap.ceil (~~~hi))

/-! ## Tightening steps -/

/-- The outcome of a tightening step. -/
structure Tightened (α : Type) where
  /-- Whether the result differs from what was given. -/
  progress : Bool
  /-- Whether the result can still hold of some word. -/
  consistent : Bool
  result : α
deriving DecidableEq, Repr

/-- The outcome of tightening bounds that contain no agreeing word. -/
def Tightened.emptyBounds (w : Nat) : Tightened (Bounds w) :=
  ⟨true, false, ⟨0, 0⟩⟩

/-- Move both bounds to the nearest words that agree with the known bits. -/
def tightenBounds (b : Bounds w) (k : KnownBits w) : Tightened (Bounds w) :=
  let lo := k.ceil b.lo
  let hi := k.floor b.hi
  if lo < b.lo then
    .emptyBounds w
  else if b.hi < hi then
    .emptyBounds w
  else
    ⟨lo ≠ b.lo ∨ hi ≠ b.hi, lo ≤ hi, ⟨lo, hi⟩⟩

/-- The positions before the first difference of two words. -/
def sharedMask (x y : BitVec w) : BitVec w :=
  if x = y then BitVec.allOnes w else Word.maskFrom w (Word.topBit (x ^^^ y) + 1)

/-- Add the leading bits that both bounds share to the known bits. -/
def tightenBits (k : KnownBits w) (b : Bounds w) : Tightened (KnownBits w) :=
  let shared := sharedMask b.lo b.hi
  let zeros := k.zeros ||| (shared &&& ~~~b.lo)
  let ones := k.ones ||| (shared &&& b.lo)
  ⟨zeros ≠ k.zeros ∨ ones ≠ k.ones, zeros &&& ones = 0, ⟨zeros, ones⟩⟩

/-- The bits that the bounds alone make known. -/
def Bounds.sharedBits (b : Bounds w) : KnownBits w :=
  (tightenBits (.unknown w) b).result

/-! ## Settling -/

/-- Bounds and known bits together. -/
structure BoundedBits (w : Nat) where
  bounds : Bounds w
  bits : KnownBits w
deriving DecidableEq, Repr

/-- A word lies within the bounds and agrees with the bits. -/
def BoundedBits.Contains (s : BoundedBits w) (x : BitVec w) : Prop :=
  s.bounds.Contains x ∧ s.bits.Satisfies x

instance (s : BoundedBits w) (x : BitVec w) : Decidable (s.Contains x) :=
  inferInstanceAs (Decidable (_ ∧ _))

/-- What one round of settling leads to. -/
inductive Round (w : Nat) where
  /-- Nothing is left to do; without a result the pair holds of no word. -/
  | done (result : Option (BoundedBits w))
  /-- Both steps made progress. -/
  | again (next : BoundedBits w)
deriving DecidableEq, Repr

/-- One round: tighten the bounds, then the bits.  A step without progress ends the
rounds, since the step after it could not make any either. -/
def settleRound (s : BoundedBits w) : Round w :=
  let b := tightenBounds s.bounds s.bits
  if !b.progress || !b.consistent then
    .done (if b.consistent then some ⟨b.result, s.bits⟩ else none)
  else
    let k := tightenBits s.bits b.result
    if !k.progress || !k.consistent then
      .done (if k.consistent then some ⟨b.result, k.result⟩ else none)
    else
      .again ⟨b.result, k.result⟩

/-- What is not yet known: a quantity that shrinks whenever a bit becomes known. -/
def KnownBits.slack (k : KnownBits w) : Nat :=
  (~~~k.zeros).toNat + (~~~k.ones).toNat

/-- Progress of the bits step makes more bits known. -/
theorem slack_tightenBits_lt (k : KnownBits w) (b : Bounds w)
    (h : (tightenBits k b).progress = true) : (tightenBits k b).result.slack < k.slack := by
  have hz : k.zeros.toNat ≤ (k.zeros ||| (sharedMask b.lo b.hi &&& ~~~b.lo)).toNat := by
    rw [BitVec.toNat_or]; exact Nat.left_le_or
  have ho : k.ones.toNat ≤ (k.ones ||| (sharedMask b.lo b.hi &&& b.lo)).toNat := by
    rw [BitVec.toNat_or]; exact Nat.left_le_or
  have hz' := (k.zeros ||| (sharedMask b.lo b.hi &&& ~~~b.lo)).isLt
  have ho' := (k.ones ||| (sharedMask b.lo b.hi &&& b.lo)).isLt
  simp only [tightenBits, decide_eq_true_eq, ne_eq, ← BitVec.toNat_inj] at h
  simp only [KnownBits.slack, tightenBits, BitVec.toNat_not]
  omega

/-- A round that goes on leaves less unknown. -/
theorem slack_settleRound_lt {s t : BoundedBits w} (h : settleRound s = .again t) :
    t.bits.slack < s.bits.slack := by
  unfold settleRound at h
  simp only at h
  split at h
  · cases h
  · split at h
    · cases h
    · rename_i hk
      cases h
      apply slack_tightenBits_lt
      simp only [Bool.or_eq_true, Bool.not_eq_true', not_or, Bool.not_eq_false] at hk
      exact hk.1

/-- Rounds repeated until one of them ends. -/
def settleRounds (s : BoundedBits w) : Option (BoundedBits w) :=
  match h : settleRound s with
  | .done result => result
  | .again t =>
    have := slack_settleRound_lt h
    settleRounds t
termination_by s.bits.slack

/-- Tighten bounds and bits against each other until neither changes.  There is no
result if no word lies within the bounds and agrees with the bits. -/
def settle (s : BoundedBits w) : Option (BoundedBits w) :=
  let k := tightenBits s.bits s.bounds
  if k.consistent then settleRounds ⟨s.bounds, k.result⟩ else none

end WordRanges
