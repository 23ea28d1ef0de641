import WordRanges.Domain.Value

/-!
# Policies and the operations on values

A policy says how fast iterations over values have to converge.  All operations that
make values belong to a policy, because it also normalises their widen counters: small
sets are never counted, and the set of all words counts as widened all the way.

Some operations make a value of a constraint that has members whenever their operands are
values.  Each of them has a checked form, which has no result if that constraint has no
members after all, and a total form for the operands that it is meant for.

Main definitions:

- {lit}`Policy.make?`: the value of a constraint.
- {lit}`Policy.hull?` and {lit}`Policy.hull`: the smallest value that covers two values.
- {lit}`Policy.intersect?`: the common members of two values.
- {lit}`Policy.widen?`, {lit}`Policy.widen` and {lit}`Policy.narrow`: convergence of ascending and
  descending iterations.
- {lit}`CommonSet.value`: the values of some common sets.
-/

namespace WordRanges

/-- How fast iterations have to converge.  Sizes are spans: numbers of words less one. -/
structure Policy where
  /-- Values up to this span are never widened and have counter zero. -/
  smallSpan : UInt64
  /-- How often a value is widened precisely before its bounds are given up. -/
  maxWiden : Int
  /-- Narrowing accepts a new span up to half of the old one and this much more. -/
  narrowSlack : UInt64
deriving DecidableEq, Repr

namespace Policy

variable {w : Nat}

/-- The policy in the absence of any settings. -/
def default : Policy :=
  ⟨3, 3, 6⟩

/-! ## Making values -/

/-- The counter of a canonical constraint: zero for small sets, the whole budget for the
set of all words, and the given one for any other. -/
def normalWiden (p : Policy) (c : Constraint w) (widen : Int) : Int :=
  if c.span.toNat ≤ p.smallSpan.toNat then 0
  else if c = .full w then p.maxWiden
  else widen

/-- The value of a constraint; nothing if the constraint has no members. -/
def make? (p : Policy) (c : Constraint w) (widen : Int) : Option (Value w) :=
  c.canonical?.map fun canonical => ⟨canonical, p.normalWiden canonical widen⟩

/-- The value of all words, checked. -/
def domain? (p : Policy) (w : Nat) : Option (Value w) :=
  p.make? (.full w) p.maxWiden

/-- The value of all words. -/
def domain (p : Policy) (w : Nat) : Value w :=
  (p.domain? w).getD ⟨.full w, p.maxWiden⟩

/-- The constraint that only one word meets. -/
def constConstraint (x : BitVec w) : Constraint w :=
  { Constraint.full w with signed := ⟨x, x⟩ }

/-- The value with one member, checked. -/
def const? (p : Policy) (x : BitVec w) : Option (Value w) :=
  p.make? (constConstraint x) 0

/-- The value with one member. -/
def const (p : Policy) (x : BitVec w) : Value w :=
  (p.const? x).getD ⟨constConstraint x, 0⟩

/-- The words between two bounds in signed order. -/
def range? (p : Policy) (lo hi : BitVec w) : Option (Value w) :=
  p.make? { Constraint.full w with signed := ⟨lo, hi⟩ } 0

/-- The words between two bounds in unsigned order. -/
def urange? (p : Policy) (lo hi : BitVec w) : Option (Value w) :=
  p.make? { Constraint.full w with unsigned := ⟨lo, hi⟩ } 0

/-! ## Hull and intersection -/

/-- The parts of two constraints joined: the wider bounds and the bits known on both sides. -/
def hullConstraint (a b : Constraint w) : Constraint w where
  signed := ⟨Word.smin a.signed.lo b.signed.lo, Word.smax a.signed.hi b.signed.hi⟩
  unsigned := ⟨Word.umin a.unsigned.lo b.unsigned.lo, Word.umax a.unsigned.hi b.unsigned.hi⟩
  bits := a.bits.common b.bits

/-- The parts of two constraints combined: the narrower bounds and the bits known on either
side. -/
def intersectConstraint (a b : Constraint w) : Constraint w where
  signed := ⟨Word.smax a.signed.lo b.signed.lo, Word.smin a.signed.hi b.signed.hi⟩
  unsigned := ⟨Word.umax a.unsigned.lo b.unsigned.lo, Word.umin a.unsigned.hi b.unsigned.hi⟩
  bits := a.bits.both b.bits

/-- The smallest value that contains all members of both values, checked. -/
def hull? (p : Policy) (a b : Value w) : Option (Value w) :=
  if a = b then some a
  else p.make? (hullConstraint a.constraint b.constraint) (max a.widen b.widen)

/-- The smallest value that contains all members of both values. -/
def hull (p : Policy) (a b : Value w) : Value w :=
  (p.hull? a b).getD a

/-- The value of the common members; nothing if there are none. -/
def intersect? (p : Policy) (a b : Value w) : Option (Value w) :=
  if a = b then some a
  else p.make? (intersectConstraint a.constraint b.constraint) (min a.widen b.widen)

/-! ## Widening and narrowing -/

/-- What is left of a value whose bounds are given up: its known bits, within the limit
if there is one. -/
def abandonBounds (nv : Value w) (limit : Option (Value w)) : Constraint w :=
  match limit with
  | none => { Constraint.full w with bits := nv.bits }
  | some l => { l.constraint with bits := nv.bits.both l.bits }

/-- A value that has used up its budget: it keeps its known bits only.  A limit that does
not cover the value gives way to all words. -/
def widenFully? (p : Policy) (nv : Value w) (limit : Option (Value w)) : Option (Value w) :=
  match p.make? (abandonBounds nv limit) p.maxWiden with
  | none => p.domain? w
  | some v => if nv.IsSubset v then some v else p.domain? w

/-- The new value of an ascending iteration, widened against the old one, checked.

An old value that covers the new one stays.  Values that do not ascend become all words.
Otherwise the new value is taken as it is, counting up, until its budget is used up. -/
def widen? (p : Policy) (nv : Value w) (old limit : Option (Value w)) : Option (Value w) :=
  match old with
  | none => some nv
  | some old =>
    if nv.SameSet old then some old
    else if nv.IsSubset old then some old
    else if ¬ old.IsSubset nv then p.domain? w
    else if old.constant?.isSome then some nv
    else if old.widen < nv.widen then some nv
    else if nv.widen < p.maxWiden then p.make? nv.constraint (nv.widen + 1)
    else p.widenFully? nv limit

/-- The new value of an ascending iteration, widened against the old one. -/
def widen (p : Policy) (nv : Value w) (old limit : Option (Value w)) : Value w :=
  (p.widen? nv old limit).getD nv

/-- The largest span that narrowing accepts in place of an old one, in 64-bit arithmetic. -/
def narrowLimit (p : Policy) (old : BitVec w) : UInt64 :=
  UInt64.ofNat (old.toNat / 2) + p.narrowSlack

/-- The old value of a descending iteration, narrowed to the new one if the step is worth
it: if its bits change or if it becomes considerably smaller. -/
def narrow (p : Policy) (nv : Value w) (old : Option (Value w)) : Value w :=
  match old with
  | none => nv
  | some old =>
    if nv.constant?.isSome then nv
    else if nv.SameSet old then old
    else if old.isDomain then nv
    else if ¬ nv.IsSubset old then nv
    else if nv.bits ≠ old.bits then nv
    else if (p.narrowLimit old.constraint.span).toNat < nv.constraint.span.toNat then old
    else nv

end Policy

/-! ## Common sets -/

/-- Sets of words of 32 bits that are commonly used. -/
inductive CommonSet where
  | bool | byte | char | short
deriving DecidableEq, Repr

namespace CommonSet

/-- The first and the last word of a set, in signed order. -/
def bounds : CommonSet → Bounds 32
  | bool => ⟨0, 1⟩
  | byte => ⟨BitVec.ofInt 32 (-128), 127⟩
  | char => ⟨0, 65535⟩
  | short => ⟨BitVec.ofInt 32 (-32768), 32767⟩

/-- The value of a set, checked. -/
def value? (s : CommonSet) : Option (Value 32) :=
  Policy.default.range? s.bounds.lo s.bounds.hi

/-- None of the sets is empty. -/
theorem isSome_value? (s : CommonSet) : s.value?.isSome = true := by
  cases s <;> decide +kernel

/-- The value of a set. -/
def value (s : CommonSet) : Value 32 :=
  s.value?.get s.isSome_value?

end CommonSet
end WordRanges
