import WordRanges.Domain.Constraint

/-!
# Values

A value is a set of words in canonical form together with a widen counter, which
records how often the value was widened during an iterative analysis.  Two values with
the same members can differ in their counters.

Main definitions:

- {lit}`Value.Contains`: the members of a value.
- {lit}`Value.IsSubset`: inclusion, decided by comparing constraints.
- {lit}`Value.readable`: a short text that leaves out what the bounds imply.
-/

namespace WordRanges

/-- A constraint, canonical when it was made by the operations of a policy, and the
number of times it was widened. -/
structure Value (w : Nat) where
  constraint : Constraint w
  widen : Int
deriving DecidableEq, Repr

namespace Value

variable {w : Nat}

/-- All parts are zero, the masks of known bits too. -/
def zero (w : Nat) : Value w :=
  ⟨⟨⟨0, 0⟩, ⟨0, 0⟩, ⟨0, 0⟩⟩, 0⟩

instance : Inhabited (Value w) :=
  ⟨zero w⟩

/-- Least member in signed order. -/
abbrev lo (v : Value w) : BitVec w := v.constraint.signed.lo

/-- Greatest member in signed order. -/
abbrev hi (v : Value w) : BitVec w := v.constraint.signed.hi

/-- Least member in unsigned order. -/
abbrev ulo (v : Value w) : BitVec w := v.constraint.unsigned.lo

/-- Greatest member in unsigned order. -/
abbrev uhi (v : Value w) : BitVec w := v.constraint.unsigned.hi

/-- What is known of the bits of all members. -/
abbrev bits (v : Value w) : KnownBits w := v.constraint.bits

/-- Membership of a word. -/
def Contains (v : Value w) (x : BitVec w) : Prop :=
  v.constraint.Contains x

instance (v : Value w) (x : BitVec w) : Decidable (v.Contains x) :=
  inferInstanceAs (Decidable (v.constraint.Contains x))

/-- The only member of a value, if it has just one. -/
def constant? (v : Value w) : Option (BitVec w) :=
  if v.lo = v.hi then some v.lo else none

/-- The number of words within both bounds, at most the greatest word. -/
def cardinality (v : Value w) : BitVec w :=
  if v.constraint.span = BitVec.allOnes w then v.constraint.span else v.constraint.span + 1

/-- Every word is a member. -/
def isDomain (v : Value w) : Bool :=
  v.constraint = .full w

/-- The same members, whatever the counters. -/
def SameSet (v o : Value w) : Prop :=
  v.constraint = o.constraint

instance (v o : Value w) : Decidable (v.SameSet o) :=
  inferInstanceAs (Decidable (_ = _))

/-- Inclusion.  The constraints of values are as tight as they can be, so comparing
them part by part decides inclusion of the member sets. -/
def IsSubset (v o : Value w) : Prop :=
  o.lo.sle v.lo = true ∧ v.hi.sle o.hi = true ∧ o.ulo ≤ v.ulo ∧ v.uhi ≤ o.uhi ∧
    v.bits.Refines o.bits

instance (v o : Value w) : Decidable (v.IsSubset o) :=
  inferInstanceAs (Decidable (_ ∧ _))

/-- Text of the members without the counter.  A constant is its number.  Unsigned
bounds are shown if the value is split, and the bit pattern if it says more than the
bounds do. -/
def membersText (v : Value w) : String :=
  match v.constant? with
  | some c => Word.signedText c
  | none =>
    v.constraint.signed.signedText
      ++ (if v.constraint.isSplit then " ^ " ++ v.constraint.unsigned.unsignedText ++ "u" else "")
      ++ (if v.bits = v.constraint.impliedBits then "" else ", bits:" ++ v.bits.pattern)

/-- Short text of a value: its members, and its counter if that is positive. -/
def readable (v : Value w) : String :=
  v.membersText ++ (if 0 < v.widen then ", widen:" ++ v.widen.repr else "")

end Value
end WordRanges
