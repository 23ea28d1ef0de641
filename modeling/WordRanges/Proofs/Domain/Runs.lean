import WordRanges.Proofs.Domain.Defects
import WordRanges.Proofs.Domain.Operations

/-!
# Runs of operations

A run performs operations one after the other; each takes its operands from the values made
so far.  Every value of a run represents its set in the one canonical way, with a normal
counter, and no checked operation of a run is ever without a result.

Main results:

- Theorem {lit}`Policy.perform_kept`: what one operation preserves.
- Theorem {lit}`Policy.run_represents`: what holds of all values of a run.
-/

namespace WordRanges

/-! ## Operations and runs -/

/-- An operation on values.  Operands are given by their places among the values made so
far. -/
inductive Request (w : Nat) where
  | make (c : Constraint w) (widen : Int)
  | domain
  | const (x : BitVec w)
  | range (lo hi : BitVec w)
  | urange (lo hi : BitVec w)
  | hull (a b : Nat)
  | intersect (a b : Nat)
  | widen (nv : Nat) (old limit : Option Nat)
  | narrow (nv : Nat) (old : Option Nat)
deriving DecidableEq, Repr

/-- The counter that an operation passes to the making of a value. -/
def Request.counter {w : Nat} : Request w → Int
  | .make _ n => n
  | _ => 0

/-- Where an operation leads. -/
inductive Answer (w : Nat) where
  | value (v : Value w)
  /-- The result is the empty set, or an operand is missing. -/
  | nothing
  /-- A constraint that was taken to have members has none. -/
  | fault
deriving DecidableEq, Repr

namespace Answer

variable {w : Nat}

/-- The answer of an operation whose result may be empty. -/
def ofOption : Option (Value w) → Answer w
  | some v => .value v
  | none => .nothing

/-- The answer of a checked operation. -/
def ofChecked : Option (Value w) → Answer w
  | some v => .value v
  | none => .fault

end Answer

namespace Policy

variable {w : Nat}

/-- An operand that may be left out; nothing if it is given but was not made. -/
def optionalAt (made : List (Value w)) : Option Nat → Option (Option (Value w))
  | none => some none
  | some i => (made[i]?).map some

/-- Perform an operation on the values made so far. -/
def perform (p : Policy) (made : List (Value w)) : Request w → Answer w
  | .make c n => .ofOption (p.make? c n)
  | .domain => .ofChecked (p.domain? w)
  | .const x => .ofChecked (p.const? x)
  | .range lo hi => .ofOption (p.range? lo hi)
  | .urange lo hi => .ofOption (p.urange? lo hi)
  | .hull a b =>
    match made[a]?, made[b]? with
    | some a, some b => .ofChecked (p.hull? a b)
    | _, _ => .nothing
  | .intersect a b =>
    match made[a]?, made[b]? with
    | some a, some b => .ofOption (p.intersect? a b)
    | _, _ => .nothing
  | .widen nv old limit =>
    match made[nv]?, optionalAt made old, optionalAt made limit with
    | some nv, some old, some limit => .ofChecked (p.widen? nv old limit)
    | _, _, _ => .nothing
  | .narrow nv old =>
    match made[nv]?, optionalAt made old with
    | some nv, some old => .value (p.narrow nv old)
    | _, _ => .nothing

/-- Perform operations one after the other and collect their values; nothing if a checked
operation has no result. -/
def run (p : Policy) (made : List (Value w)) : List (Request w) → Option (List (Value w))
  | [] => some made
  | op :: ops =>
    match p.perform made op with
    | .value v => p.run (made ++ [v]) ops
    | .nothing => p.run made ops
    | .fault => none

/-- The largest counter that a run can lead to. -/
def counterBound (p : Policy) (ops : List (Request w)) : Int :=
  ops.foldr (fun op m => max op.counter m) (max 0 p.maxWiden)

/-! ## What operations preserve -/

variable {p : Policy} {m : Int} {v : Value w} {made : List (Value w)}

/-- A value of the policy whose counter stays below a bound. -/
structure Kept (p : Policy) (m : Int) (v : Value w) : Prop where
  valid : p.Valid v
  widen_le : v.widen ≤ m

/-- An answer is no fault, and its value is kept. -/
def KeptAnswer (p : Policy) (m : Int) : Answer w → Prop
  | .value v => p.Kept m v
  | .nothing => True
  | .fault => False

theorem kept_ofOption {r : Option (Value w)} (h : ∀ v, r = some v → p.Kept m v) :
    p.KeptAnswer m (.ofOption r) := by
  cases r with
  | none => trivial
  | some v => exact h v rfl

theorem kept_ofChecked {r : Option (Value w)} (hsome : r = some v) (h : p.Kept m v) :
    p.KeptAnswer m (.ofChecked r) := by
  rw [hsome]
  exact h

/-- A bound that every counter given to a run respects. -/
structure IsCounterBound (p : Policy) (m : Int) : Prop where
  zero_le : 0 ≤ m
  maxWiden_le : p.maxWiden ≤ m

/-- The value of a constraint is kept if its counter respects the bound. -/
theorem kept_of_make? {c : Constraint w} {n : Int} (hm : p.IsCounterBound m) (hn : n ≤ m)
    (h : p.make? c n = some v) : p.Kept m v :=
  ⟨valid_of_make? h, widen_le_of_make? h hm.zero_le hm.maxWiden_le hn⟩

/-- The hull of kept values is kept. -/
theorem Kept.hull {a b : Value w} (hm : p.IsCounterBound m) (ha : p.Kept m a) (hb : p.Kept m b) :
    p.Kept m (p.hull a b) := by
  have h := hull?_eq_some ha.valid b
  refine ⟨valid_of_hull? ha.valid h, ?_⟩
  unfold hull? at h
  split at h
  · rw [← Option.some.inj h]
    exact ha.widen_le
  · exact widen_le_of_make? h hm.zero_le hm.maxWiden_le
      (Int.max_le.mpr ⟨ha.widen_le, hb.widen_le⟩)

/-- The intersection of kept values is kept. -/
theorem Kept.intersect {a b : Value w} (hm : p.IsCounterBound m) (ha : p.Kept m a)
    (h : p.intersect? a b = some v) : p.Kept m v := by
  refine ⟨valid_of_intersect? ha.valid h, ?_⟩
  unfold intersect? at h
  split at h
  · cases h
    exact ha.widen_le
  · exact widen_le_of_make? h hm.zero_le hm.maxWiden_le
      (Int.le_trans (Int.min_le_left _ _) ha.widen_le)

/-- Widening kept values keeps them: counting up stops at the budget. -/
theorem Kept.widen {nv : Value w} {old : Option (Value w)} (hm : p.IsCounterBound m)
    (hnv : p.Kept m nv) (hold : ∀ o, old = some o → p.Kept m o) (limit : Option (Value w)) :
    p.Kept m (p.widen nv old limit) := by
  rcases widen?_cases (widen?_eq_some (p := p) hnv.valid old limit) with
    heq | ⟨ho, -⟩ | hdomain | ⟨hbudget, hmake⟩ | ⟨hmake, -⟩
  · rw [heq]
    exact hnv
  · exact hold _ ho
  · exact kept_of_make? hm hm.maxWiden_le hdomain
  · refine kept_of_make? hm ?_ hmake
    have := hm.maxWiden_le
    omega
  · exact kept_of_make? hm hm.maxWiden_le hmake

/-- Narrowing kept values keeps them. -/
theorem Kept.narrow {nv : Value w} {old : Option (Value w)} (hnv : p.Kept m nv)
    (hold : ∀ o, old = some o → p.Kept m o) : p.Kept m (p.narrow nv old) := by
  rcases narrow_cases p nv old with heq | ⟨ho, -⟩
  · rw [heq]
    exact hnv
  · exact hold _ ho

/-- An operand that was made is kept. -/
theorem kept_optionalAt (hmade : ∀ v ∈ made, p.Kept m v) {i : Option Nat} {o : Option (Value w)}
    (h : optionalAt made i = some o) : ∀ v, o = some v → p.Kept m v := by
  rintro v rfl
  cases i with
  | none => cases h
  | some i =>
      simp only [optionalAt, Option.map_eq_some_iff, Option.some.injEq, exists_eq_right] at h
      exact hmade v (List.mem_of_getElem? h)

/-- One operation on kept values is no fault and makes a kept value. -/
theorem perform_kept (hm : p.IsCounterBound m) (hmade : ∀ v ∈ made, p.Kept m v)
    (op : Request w) (hop : op.counter ≤ m) : p.KeptAnswer m (p.perform made op) := by
  have hat : ∀ {i : Nat} {v : Value w}, made[i]? = some v → p.Kept m v :=
    fun h => hmade _ (List.mem_of_getElem? h)
  cases op with
  | make c n => exact kept_ofOption fun v => kept_of_make? hm hop
  | domain =>
      exact kept_ofChecked (domain?_eq_some p w)
        (kept_of_make? hm hm.maxWiden_le (domain?_eq_some p w))
  | const x =>
      exact kept_ofChecked (const?_eq_some p x)
        (kept_of_make? hm hm.zero_le (const?_eq_some p x))
  | range lo hi => exact kept_ofOption fun v => kept_of_make? hm hm.zero_le
  | urange lo hi => exact kept_ofOption fun v => kept_of_make? hm hm.zero_le
  | hull a b =>
      simp only [perform]
      split
      · rename_i a b ha hb
        exact kept_ofChecked (hull?_eq_some (hat ha).valid b)
          ((hat ha).hull hm (hat hb))
      · trivial
  | intersect a b =>
      simp only [perform]
      split
      · rename_i a b ha hb
        exact kept_ofOption fun v => (hat ha).intersect hm
      · trivial
  | widen nv old limit =>
      simp only [perform]
      split
      · rename_i nv old limit hnv hold hlimit
        exact kept_ofChecked (widen?_eq_some (hat hnv).valid old limit)
          ((hat hnv).widen hm (kept_optionalAt hmade hold) limit)
      · trivial
  | narrow nv old =>
      simp only [perform]
      split
      · rename_i nv old hnv hold
        exact (hat hnv).narrow (kept_optionalAt hmade hold)
      · trivial

/-- A run on kept values has no fault and makes kept values only. -/
theorem run_kept (hm : p.IsCounterBound m) (ops : List (Request w))
    (hops : ∀ op ∈ ops, op.counter ≤ m) (hmade : ∀ v ∈ made, p.Kept m v) :
    ∃ vs, p.run made ops = some vs ∧ ∀ v ∈ vs, p.Kept m v := by
  induction ops generalizing made with
  | nil => exact ⟨made, rfl, hmade⟩
  | cons op ops ih =>
      have hop := hops op List.mem_cons_self
      have hrest : ∀ op ∈ ops, op.counter ≤ m := fun o ho => hops o (List.mem_cons_of_mem _ ho)
      have hstep := perform_kept hm hmade op hop
      unfold run
      cases hanswer : p.perform made op with
      | value v =>
          rw [hanswer] at hstep
          refine ih hrest ?_
          intro u hu
          rcases List.mem_append.mp hu with hu | hu
          · exact hmade u hu
          · rw [List.mem_singleton.mp hu]
            exact hstep
      | nothing => exact ih hrest hmade
      | fault =>
          rw [hanswer] at hstep
          exact hstep.elim

/-! ## The bound on counters -/

/-- The bound of a run respects zero and the budget. -/
theorem isCounterBound_counterBound (p : Policy) (ops : List (Request w)) :
    p.IsCounterBound (p.counterBound ops) := by
  induction ops with
  | nil => exact ⟨Int.le_max_left _ _, Int.le_max_right _ _⟩
  | cons op ops ih =>
      exact ⟨Int.le_trans ih.zero_le (Int.le_max_right _ _),
        Int.le_trans ih.maxWiden_le (Int.le_max_right _ _)⟩

/-- The bound of a run respects all counters that are given in it. -/
theorem counter_le_counterBound (p : Policy) {ops : List (Request w)} {op : Request w}
    (h : op ∈ ops) : op.counter ≤ p.counterBound ops := by
  induction ops with
  | nil => cases h
  | cons first ops ih =>
      rcases List.mem_cons.mp h with rfl | h
      · exact Int.le_max_left _ _
      · exact Int.le_trans (ih h) (Int.le_max_right _ _)

/-- A run of operations has no fault.  Each of its values has a member, is canonical and has
no defect; its counter is zero if its span is small, the budget if it is the larger value of
all words, and never more than zero, the budget and the counters given in the run. -/
theorem run_represents (p : Policy) (ops : List (Request w)) :
    ∃ vs, p.run [] ops = some vs ∧ ∀ v ∈ vs,
      (∃ x, v.Contains x) ∧ v.constraint.canonical? = some v.constraint ∧
      v.constraint.defect? = none ∧
      (v.constraint.span.toNat ≤ p.smallSpan.toNat → v.widen = 0) ∧
      (p.smallSpan.toNat < v.constraint.span.toNat → v.isDomain = true → v.widen = p.maxWiden) ∧
      v.widen ≤ p.counterBound ops := by
  have hmade : ∀ v ∈ ([] : List (Value w)), p.Kept (p.counterBound ops) v := by simp
  obtain ⟨vs, hrun, hkept⟩ := run_kept (isCounterBound_counterBound p ops) ops
    (fun _ => counter_le_counterBound p) hmade
  refine ⟨vs, hrun, ?_⟩
  intro v hv
  obtain ⟨hvalid, hle⟩ := hkept v hv
  refine ⟨⟨v.lo, hvalid.contains_lo⟩, hvalid.canonical, hvalid.isTightest.defect?_eq_none, ?_, ?_,
    hle⟩
  · intro hsmall
    rw [← hvalid.normal, normalWiden, if_pos hsmall]
  · intro hlarge hdomain
    have hfull : v.constraint = .full w := by simpa [Value.isDomain] using hdomain
    rw [← hvalid.normal, normalWiden, if_neg (Nat.not_le.mpr hlarge), if_pos hfull]

end Policy
end WordRanges
