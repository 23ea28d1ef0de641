import WordRanges.Domain.Tighten

/-!
# Constraints

A constraint restricts a word in three ways at once: by bounds in signed order, by
bounds in unsigned order and by known bits.  Different constraints can have the same
members; the canonical form picks the tightest one.

In canonical form the two pairs of bounds relate in one of two ways.  Either they are
the same interval, on one side of the sign boundary.  Or the constraint is split: its
members are the negative words from the signed lower to the unsigned upper bound and
the non-negative words from the unsigned lower to the signed upper bound.

Main definitions:

- {lit}`Constraint.Contains`: the members of a constraint.
- {lit}`Constraint.canonical?`: the canonical form, or nothing for the empty set.
- {lit}`Constraint.span`: the number of words between the bounds, less one.
- {lit}`Constraint.defect?`: what keeps a constraint from being canonical.
-/

namespace WordRanges

/-- Signed bounds, unsigned bounds and known bits of one word.  The parts need not
agree with each other. -/
structure Constraint (w : Nat) where
  signed : Bounds w
  unsigned : Bounds w
  bits : KnownBits w
deriving DecidableEq, Repr

namespace Constraint

variable {w : Nat}

/-- The constraint that every word meets. -/
def full (w : Nat) : Constraint w :=
  ⟨.fullSigned w, .fullUnsigned w, .unknown w⟩

/-- A word meets all parts of the constraint. -/
def Contains (c : Constraint w) (x : BitVec w) : Prop :=
  c.signed.SContains x ∧ c.unsigned.Contains x ∧ c.bits.Satisfies x

instance (c : Constraint w) (x : BitVec w) : Decidable (c.Contains x) :=
  inferInstanceAs (Decidable (_ ∧ _))

/-! ## Canonical form -/

/-- The constraint with one interval for both orders. -/
def ofInterval (s : BoundedBits w) : Constraint w :=
  ⟨s.bounds, s.bounds, s.bits⟩

/-- The constraint made of a negative and a non-negative interval. -/
def ofHalves (negative positive : BoundedBits w) : Constraint w where
  signed := ⟨negative.bounds.lo, positive.bounds.hi⟩
  unsigned := ⟨positive.bounds.lo, negative.bounds.hi⟩
  bits := negative.bits.common positive.bits

/-- The constraint made of a negative and a non-negative interval, either of which may be
missing; nothing if both are. -/
def ofHalves? : Option (BoundedBits w) → Option (BoundedBits w) → Option (Constraint w)
  | none, none => none
  | none, some positive => some (ofInterval positive)
  | some negative, none => some (ofInterval negative)
  | some negative, some positive => some (ofHalves negative positive)

/-- Unsigned bounds that reach across the sign boundary, cut off at it when the signed
bounds leave nothing on the other side. -/
def cutUnsigned (c : Constraint w) : Bounds w :=
  if c.unsigned.hi.slt c.unsigned.lo then
    if c.unsigned.hi.slt c.signed.lo then
      ⟨c.unsigned.lo, BitVec.intMax w⟩
    else if c.signed.hi.slt c.unsigned.lo then
      ⟨BitVec.intMin w, c.unsigned.hi⟩
    else
      c.unsigned
  else
    c.unsigned

/-- The interval common to the signed bounds and to unsigned bounds that stay on one
side of the sign boundary. -/
def overlap (signed unsigned : Bounds w) : Bounds w :=
  ⟨Word.smax unsigned.lo signed.lo, Word.smin unsigned.hi signed.hi⟩

/-- The words of the constraint below the sign boundary. -/
def negativeHalf (c : Constraint w) : Bounds w :=
  ⟨c.signed.lo, c.unsigned.hi⟩

/-- The words of the constraint above the sign boundary. -/
def positiveHalf (c : Constraint w) : Bounds w :=
  ⟨c.unsigned.lo, c.signed.hi⟩

/-- The tightest constraint with the same members; nothing if there are no members. -/
def canonical? (c : Constraint w) : Option (Constraint w) :=
  if c.signed.hi.slt c.signed.lo ∨ c.unsigned.hi < c.unsigned.lo ∨ ¬ c.bits.Disjoint then
    none
  else
    let u := c.cutUnsigned
    if u.lo.sle u.hi then
      let b := overlap c.signed u
      if b.hi.slt b.lo then none else (settle ⟨b, c.bits⟩).map ofInterval
    else
      let cut : Constraint w := ⟨c.signed, u, c.bits⟩
      ofHalves? (settle ⟨cut.negativeHalf, c.bits⟩) (settle ⟨cut.positiveHalf, c.bits⟩)

/-- A constraint in canonical form that has a negative and a non-negative half. -/
def isSplit (c : Constraint w) : Bool :=
  c.signed.lo ≠ c.unsigned.lo

/-- The number of words within both bounds of a canonical constraint, less one, so that
the count of all words fits a word. -/
def span (c : Constraint w) : BitVec w :=
  if c.isSplit then
    (c.unsigned.hi - c.signed.lo) + (c.signed.hi - c.unsigned.lo) + 1
  else
    c.unsigned.hi - c.unsigned.lo

/-- The bits that the bounds alone make known: for a split constraint those on which
both halves agree. -/
def impliedBits (c : Constraint w) : KnownBits w :=
  if c.isSplit then
    c.negativeHalf.sharedBits.common c.positiveHalf.sharedBits
  else
    c.unsigned.sharedBits

/-! ## Defects -/

/-- A reason why a constraint is not canonical. -/
inductive Defect (w : Nat) where
  /-- A bound is no member. -/
  | foreignBound (bound : BitVec w)
  /-- A bit is known to be both zero and one. -/
  | contradictoryBits
  /-- Only one end of the two intervals is the same. -/
  | rangesDisagree
  /-- The bounds make more bits known. -/
  | looseBits
  /-- The bits allow tighter bounds. -/
  | looseBounds
  /-- A half reaches over the sign boundary. -/
  | halvesNotSeparated
  /-- No word of a half agrees with the bits. -/
  | halfContradictsBits (half : Bounds w)
  /-- The bits allow tighter bounds of a half. -/
  | looseHalf (half : Bounds w)
  /-- Both halves make more bits known. -/
  | looseHalfBits
deriving DecidableEq, Repr

/-- The wording of a defect. -/
def Defect.message : Defect w → String
  | .foreignBound b => "bound " ++ Word.signedText b ++ " is not a member"
  | .contradictoryBits => "contradictory bits"
  | .rangesDisagree => "signed and unsigned ranges disagree"
  | .looseBits => "bits can be derived from bounds"
  | .looseBounds => "bounds can be derived from bits"
  | .halvesNotSeparated => "halves are not separated by the sign boundary"
  | .halfContradictsBits half => "half " ++ half.unsignedText ++ " contradicts bits"
  | .looseHalf half => "half " ++ half.unsignedText ++ " can be tightened"
  | .looseHalfBits => "bits can be derived from the halves"

/-- The bits known of one half, or its defect. -/
def halfBits (c : Constraint w) (half : Bounds w) : Except (Defect w) (KnownBits w) :=
  let k := tightenBits c.bits half
  if !k.consistent then
    .error (.halfContradictsBits half)
  else if (tightenBounds half k.result).progress then
    .error (.looseHalf half)
  else
    .ok k.result

/-- The defect of a split constraint whose bounds are members. -/
def splitDefect? (c : Constraint w) : Option (Defect w) :=
  if !c.signed.lo.msb || !c.unsigned.hi.msb || c.unsigned.lo.msb || c.signed.hi.msb then
    some .halvesNotSeparated
  else
    match c.halfBits c.negativeHalf with
    | .error d => some d
    | .ok negative =>
      match c.halfBits c.positiveHalf with
      | .error d => some d
      | .ok positive =>
        if negative.common positive = c.bits then none else some .looseHalfBits

/-- The defect of an unsplit constraint whose bounds are members. -/
def intervalDefect? (c : Constraint w) : Option (Defect w) :=
  if c.signed.hi ≠ c.unsigned.hi then
    some .rangesDisagree
  else if (tightenBits c.bits c.unsigned).progress then
    some .looseBits
  else if (tightenBounds c.unsigned c.bits).progress then
    some .looseBounds
  else
    none

/-- The first reason why a constraint is not canonical: first its bounds are tested for
membership, then its bits, then its one interval or its two halves. -/
def defect? (c : Constraint w) : Option (Defect w) :=
  match [c.signed.lo, c.signed.hi, c.unsigned.lo, c.unsigned.hi].find? (¬ c.Contains ·) with
  | some bound => some (.foreignBound bound)
  | none =>
    if ¬ c.bits.Disjoint then
      some .contradictoryBits
    else if c.isSplit then
      c.splitDefect?
    else
      c.intervalDefect?

/-! ## Text -/

/-- Text of a constraint: both bounds and the bit pattern in braces. -/
def text (c : Constraint w) : String :=
  "\x7b" ++ c.signed.signedText ++ ", " ++ c.unsigned.unsignedText ++ "u, " ++ c.bits.pattern
    ++ "\x7d"

/-- Text of the defect of a constraint, after the constraint itself. -/
def defectText? (c : Constraint w) : Option String :=
  c.defect?.map fun d => c.text ++ ": " ++ d.message

end Constraint
end WordRanges
