import WordRanges.Proofs.Flow.Endless
import WordRanges.Proofs.Flow.Soundness

/-!
# Solving ends

Both runs of solving a graph end, whatever its transfer functions are, if every directed cycle
passes through a merge node.  While ascending over values, each change of a merge node adds
words to its state.  While descending, a merge node can be narrowed only so often; after that
it can still become unreachable, but not reachable again.

Main results:

- Theorem {lit}`spends_narrowBudget`: while descending, changes of merge nodes are limited in any
  framework.
- Theorem {lit}`changes_again_le`: how often a merge node changes while descending.
- Theorem {lit}`spends_ascentBudget`: while ascending over values, merge nodes gain words.
- Theorem {lit}`forward_ends`: solving a graph over values ends.
-/

namespace WordRanges
namespace Flow

/-! ## Descending runs -/

section Descending

variable {σ : Type} [DecidableEq σ] {fw : Framework σ} {g : Graph σ} {r r' : Run σ}
variable {id : NodeId} {limit : Nat}

/-- How often the state of a merge node can still change while descending: as often as it may
be narrowed, and once more to become unreachable. -/
def narrowBudget (maxNarrow : Int) (s : Option σ) (narrowed : Nat) : Nat :=
  if (narrowed : Int) < maxNarrow then (maxNarrow - narrowed).toNat + 1
  else if s.isSome then 1
  else 0

omit [DecidableEq σ] in
/-- Narrowing once more does not raise the budget of a state. -/
theorem narrowBudget_succ_le (maxNarrow : Int) (s : Option σ) (narrowed : Nat) :
    narrowBudget maxNarrow s (narrowed + 1) ≤ narrowBudget maxNarrow s narrowed := by
  unfold narrowBudget
  split <;> split <;> (try split) <;> omega

omit [DecidableEq σ] in
/-- While a node may be narrowed, narrowing it spends part of its budget, whatever its state
becomes. -/
theorem narrowBudget_succ_lt {maxNarrow : Int} {narrowed : Nat} (h : (narrowed : Int) < maxNarrow)
    (old new : Option σ) :
    narrowBudget maxNarrow new (narrowed + 1) < narrowBudget maxNarrow old narrowed := by
  unfold narrowBudget
  rw [if_pos h]
  split
  · omega
  · split <;> omega

/-- While descending, each change of a merge node spends part of its budget: either the node may
be narrowed, or it becomes unreachable for good. -/
theorem spends_narrowBudget (fw : Framework σ) (V : σ → Prop) :
    fw.Spends .descending V (narrowBudget fw.maxNarrow) := by
  intro n old new narrowed inputs hrule _ _ heval hne _
  rw [if_pos rfl]
  by_cases hnarrow : (narrowed : Int) < fw.maxNarrow
  · exact narrowBudget_succ_lt hnarrow old new
  · rw [evaluate_merge hrule] at heval
    split at heval
    · cases heval
      cases old with
      | none => exact absurd rfl hne
      | some o =>
          have hnext : ¬ ((narrowed + 1 : Nat) : Int) < fw.maxNarrow := by omega
          unfold narrowBudget
          rw [if_neg hnarrow, if_neg hnext]
          exact Nat.zero_lt_one
    · rename_i hd
      cases hd
    · rw [if_neg hnarrow] at heval
      cases heval

variable [Inhabited σ]

/-- How many of the first steps of a run change the state of a node. -/
def changes (fw : Framework σ) (g : Graph σ) (d : Direction) (id : NodeId) : Nat → Run σ → Nat
  | 0, _ => 0
  | limit + 1, r =>
    match step fw g d r with
    | .running r' =>
      (if stateAt r'.states id = stateAt r.states id then 0 else 1) + changes fw g d id limit r'
    | _ => 0

/-- A descending move that changes the state of a merge node spends part of its budget, and no
move raises it. -/
theorem narrowBudget_of_move (hmerge : g.isMerge id = true) (hsize : r.narrowed.size = g.size)
    (hmove : Move fw g .descending r r') :
    (if stateAt r'.states id = stateAt r.states id then 0 else 1) +
        narrowBudget fw.maxNarrow (stateAt r'.states id) (r'.narrowed.getD id 0) ≤
      narrowBudget fw.maxNarrow (stateAt r.states id) (r.narrowed.getD id 0) := by
  cases hmove with
  | stay j work hpop hsettled hstates hnarrowed => simp [hstates, hnarrowed]
  | change j work n new hpop hnode heval hne hascent hstates hnarrowed =>
      have hcount := getD_narrowed_of_change (hsize ▸ lt_size_of_node hnode) hnarrowed id
      by_cases hj : j = id
      · subst hj
        rw [Graph.isMerge_eq hnode] at hmerge
        rw [if_pos ⟨rfl, rfl, hmerge⟩] at hcount
        rw [hcount]
        by_cases hin : j < r.states.size
        · have hrule : n.rule = .merge := Rule.eq_merge_of_isMerge hmerge
          have hspent := spends_narrowBudget fw (fun _ => True) n _ new _ _ hrule
            (fun _ _ => trivial) (fun _ _ => trivial) heval hne hascent
          rw [if_pos rfl] at hspent
          rw [hstates, stateAt_setIfInBounds hin, if_pos rfl, if_neg hne]
          omega
        · rw [hstates, States.setIfInBounds_eq_of_size_le (Nat.le_of_not_lt hin), if_pos rfl,
            Nat.zero_add]
          exact narrowBudget_succ_le _ _ _
      · have hstate : stateAt r'.states id = stateAt r.states id := by
          rw [hstates, stateAt_setIfInBounds_ne hj]
        rw [if_neg fun h => hj h.1] at hcount
        rw [hstate, hcount, if_pos rfl, Nat.zero_add]

/-- A merge node changes no more often while descending than its budget tells. -/
theorem changes_le_narrowBudget (fw : Framework σ) (hmerge : g.isMerge id = true) (limit : Nat)
    (hsize : r.narrowed.size = g.size) :
    changes fw g .descending id limit r ≤
      narrowBudget fw.maxNarrow (stateAt r.states id) (r.narrowed.getD id 0) := by
  induction limit generalizing r with
  | zero => exact Nat.zero_le _
  | succ limit ih =>
      rw [changes]
      cases hstep : step fw g .descending r with
      | finished last => exact Nat.zero_le _
      | failed fault last => exact Nat.zero_le _
      | running next =>
          have hmove := move_of_step hstep
          have hrest := ih (r := next) (hmove.size_narrowed.trans hsize)
          have hspent := narrowBudget_of_move hmerge hsize hmove
          simp only
          omega

/-- A merge node changes at most once more than it may be narrowed while descending from any
states. -/
theorem changes_again_le (hpos : 0 < fw.maxNarrow) (hmerge : g.isMerge id = true) (limit : Nat) :
    (changes fw g .descending id limit (r.again g) : Int) ≤ fw.maxNarrow + 1 := by
  have hle := changes_le_narrowBudget fw (r := r.again g) hmerge limit Array.size_replicate
  have hzero : (r.again g).narrowed.getD id 0 = 0 := by
    simp only [Run.again, Array.getD_eq_getD_getElem?, Array.getElem?_replicate]
    split <;> rfl
  have hbudget : narrowBudget fw.maxNarrow (stateAt (r.again g).states id) 0 =
      fw.maxNarrow.toNat + 1 := by
    rw [narrowBudget, Int.natCast_zero, if_pos hpos, Int.sub_zero]
  rw [hzero, hbudget] at hle
  omega

/-- Descending runs have no faults. -/
theorem step_descending_ne_failed {fault : Fault σ} :
    step fw g .descending r ≠ .failed fault r' := by
  intro h
  unfold step at h
  split at h
  · cases h
  · split at h
    · cases h
    · simp only at h
      split at h
      · cases h
      · split at h <;> cases h

/-- A descending run that ends leads to states. -/
theorem exists_ok_of_descending {last : Except (Fault σ × Run σ) (Run σ)}
    (h : steps fw g .descending limit r = some last) : ∃ down, last = .ok down := by
  induction limit generalizing r with
  | zero => cases h
  | succ limit ih =>
      rw [steps] at h
      cases hstep : step fw g .descending r with
      | finished down =>
          rw [hstep] at h
          cases h
          exact ⟨down, rfl⟩
      | failed fault down => exact absurd hstep step_descending_ne_failed
      | running next =>
          rw [hstep] at h
          exact ih h

end Descending

/-! ## Ascending runs over values -/

section Ascending

variable {w : Nat} {p : Policy} {checked : Bool} {maxNarrow : Int} {g : Graph (Value w)}

/-- How many words are no members of a value. -/
def lacking (v : Value w) : Nat :=
  ((Finset.range (2 ^ w)).filter fun i => ¬ v.Contains (BitVec.ofNat w i)).card

/-- A value lacks no more words than there are. -/
theorem lacking_le (v : Value w) : lacking v ≤ 2 ^ w := by
  have hle := Finset.card_filter_le (Finset.range (2 ^ w)) fun i => ¬ v.Contains (BitVec.ofNat w i)
  rwa [Finset.card_range] at hle

/-- A value that has all members of another one and a further member lacks fewer words. -/
theorem lacking_lt {v o : Value w} (hsubset : ∀ x, o.Contains x → v.Contains x) {x : BitVec w}
    (hv : v.Contains x) (ho : ¬ o.Contains x) : lacking v < lacking o := by
  refine Finset.card_lt_card (Finset.ssubset_iff_of_subset ?_ |>.mpr ⟨x.toNat, ?_, ?_⟩)
  · intro i hi
    rw [Finset.mem_filter] at hi ⊢
    exact ⟨hi.1, fun h => hi.2 (hsubset _ h)⟩
  · rw [Finset.mem_filter, Finset.mem_range, BitVec.ofNat_toNat, BitVec.setWidth_eq]
    exact ⟨x.isLt, ho⟩
  · rw [Finset.mem_filter, BitVec.ofNat_toNat, BitVec.setWidth_eq]
    exact fun h => h.2 hv

/-- How often the state of a merge node can still change while ascending: a node that has a state
gains a word each time. -/
def ascentBudget : Option (Value w) → Nat → Nat
  | none, _ => 2 ^ w + 1
  | some v, _ => lacking v

/-- While ascending over values, each change of a merge node spends part of its budget. -/
theorem spends_ascentBudget (p : Policy) (w : Nat) (checked : Bool) (maxNarrow : Int) :
    (p.framework w checked maxNarrow).Spends .ascending p.Valid ascentBudget := by
  intro n old new narrowed inputs hrule hold hinputs heval hne hascent
  rw [evaluate_merge hrule] at heval
  split at heval
  · cases heval
    cases old with
    | none => exact absurd rfl hne
    | some o => cases hascent rfl
  · rename_i merged hmerged _
    have hvalid := (steady_framework p w checked maxNarrow).mergeStates (fun _ ha => by cases ha)
      hinputs hmerged
    cases heval
    cases old with
    | none => exact Nat.lt_succ_of_le (lacking_le _)
    | some o =>
        have hchanged : p.widen merged (some o) none ≠ o := fun h => hne (congrArg some h)
        obtain ⟨x, hx, hnot⟩ := Policy.exists_contains_widen_of_ne hvalid hchanged
        exact lacking_lt (fun _ => Policy.contains_widen_old) hx hnot
  · rename_i hd
    cases hd

/-! ## Solving -/

/-- An ascending run over values ends. -/
theorem exists_ascent (hcut : g.CutByMerges) (hkeeps : g.Keeps p.Valid) (checked : Bool)
    (maxNarrow : Int) :
    ∃ limit last,
      steps (p.framework w checked maxNarrow) g .ascending limit (.initial g) = some last :=
  (Run.ofKind_initial g p.Valid).exists_steps (steady_framework p w checked maxNarrow) hcut hkeeps
    (spends_ascentBudget p w checked maxNarrow) Array.size_replicate

/-- A descending run over values ends after every ascending run that leads to states. -/
theorem exists_descent (hcut : g.CutByMerges) (hkeeps : g.Keeps p.Valid) {limit : Nat}
    {up : Run (Value w)}
    (hup : steps (p.framework w checked maxNarrow) g .ascending limit (.initial g) =
      some (.ok up)) :
    ∃ limit down,
      steps (p.framework w checked maxNarrow) g .descending limit (up.again g) =
        some (.ok down) := by
  have hsteady := steady_framework p w checked maxNarrow
  have hkind : up.OfKind g p.Valid :=
    (steps_keep (fun _ _ hmove hr => hr.move hsteady hkeeps hmove) (Run.ofKind_initial g p.Valid)
      hup).1
  have hagain : (up.again g).OfKind g p.Valid := ⟨hkind.size_eq, hkind.kind⟩
  obtain ⟨limit, last, hdown⟩ := hagain.exists_steps hsteady hcut hkeeps
    (spends_narrowBudget _ p.Valid) Array.size_replicate
  obtain ⟨down, rfl⟩ := exists_ok_of_descending hdown
  exact ⟨limit, down, hdown⟩

/-- Solving a graph over values ends if every directed cycle passes through a merge node: the
ascending run finds a fault or leaves no node waiting, and then the descending run leaves none
waiting either.  In any framework and from any states, the state of a merge node changes while
descending at most once more than it may be narrowed.  Neither needs the readers of a node to be
the nodes that have it as an input. -/
theorem forward_ends (hcut : g.CutByMerges) (hkeeps : g.Keeps p.Valid) (checked : Bool)
    (maxNarrow : Int) :
    (∃ limit out,
      (∀ more, (p.framework w checked maxNarrow).forward g (limit + more) = some out) ∧
      ((∃ fault, out.result = .error fault) ∨
        ∃ up, steps (p.framework w checked maxNarrow) g .ascending limit (.initial g) =
            some (.ok up) ∧ up.work.queue = [] ∧
          (0 < maxNarrow → ∃ down,
            steps (p.framework w checked maxNarrow) g .descending limit (up.again g) =
              some (.ok down) ∧ down.work.queue = []))) ∧
    ∀ {σ : Type} [DecidableEq σ] [Inhabited σ] (fw : Framework σ) (h : Graph σ) (r : Run σ)
      (id : NodeId) (limit : Nat), 0 < fw.maxNarrow → h.isMerge id = true →
        (changes fw h .descending id limit (r.again h) : Int) ≤ fw.maxNarrow + 1 := by
  constructor
  · obtain ⟨first, last, hup⟩ := exists_ascent hcut hkeeps checked maxNarrow
    cases last with
    | error e =>
        refine ⟨first, .ofRun (.error e), fun more => ?_, .inl ⟨e.1, rfl⟩⟩
        rw [Framework.forward, steps_mono (Nat.le_add_right first more) hup]
    | ok up =>
        have hwaiting := (steps_keep (fun _ _ _ _ => trivial) trivial hup).2
        by_cases hnarrow : 0 < maxNarrow
        · obtain ⟨second, down, hdown⟩ := exists_descent hcut hkeeps hup
          have hdone := (steps_keep (fun _ _ _ _ => trivial) trivial hdown).2
          -- Both runs end within the larger of their limits.
          have hup' (more : Nat) := steps_mono
            (Nat.le_trans (Nat.le_max_left first second) (Nat.le_add_right _ more)) hup
          have hdown' (more : Nat) := steps_mono
            (Nat.le_trans (Nat.le_max_right first second) (Nat.le_add_right _ more)) hdown
          refine ⟨max first second, .ofRun (.ok down), fun more => ?_,
            .inr ⟨up, hup' 0, hwaiting, fun _ => ⟨down, hdown' 0, hdone⟩⟩⟩
          rw [Framework.forward, hup' more]
          refine (if_pos hnarrow).trans ?_
          rw [hdown' more, Option.map_some]
        · refine ⟨first, .ofRun (.ok up), fun more => ?_,
            .inr ⟨up, hup, hwaiting, fun h => absurd h hnarrow⟩⟩
          rw [Framework.forward, steps_mono (Nat.le_add_right first more) hup]
          exact if_neg hnarrow
  · intro σ _ _ fw h r id limit hpos hmerge
    exact changes_again_le hpos hmerge limit

end Ascending

namespace Counting

/-- Every cycle of the loop passes through its head: each node that reads another one is the head
or reads it. -/
theorem cutByMerges_loop : loop.CutByMerges := by
  have hhead : loop.isMerge 1 = true := rfl
  have hreads {a b : NodeId} (h : a ∈ loop.inputsOf b) : a = 1 ∨ b = 1 := by
    match b, h with
    | 0, h => cases h
    | 1, _ => exact .inr rfl
    | 2, h => exact .inl (List.mem_singleton.mp h)
    | b + 3, h => cases h
  intro ids hcycle
  match ids, hcycle with
  | [a], hcycle =>
      obtain rfl := (or_self_iff).mp (hreads (List.isChain_pair.mp hcycle))
      exact ⟨1, List.mem_cons_self, hhead⟩
  | a :: b :: rest, hcycle =>
      rcases hreads (List.isChain_cons_cons.mp hcycle).1 with rfl | rfl
      · exact ⟨1, List.mem_cons_self, hhead⟩
      · exact ⟨1, List.mem_cons_of_mem _ List.mem_cons_self, hhead⟩

/-- Solving the loop ends, and its head changes at most four times while descending. -/
theorem ends_loop :
    (∃ limit out, ∀ more,
      (Policy.default.framework 8 true 3).forward loop (limit + more) = some out) ∧
    ∀ (r : Run (Value 8)) (limit : Nat),
      (changes (Policy.default.framework 8 true 3) loop .descending 1 limit (r.again loop) : Int) ≤
        4 := by
  obtain ⟨⟨limit, out, hforward, -⟩, hchanges⟩ :=
    forward_ends cutByMerges_loop keeps_loop true 3
  refine ⟨⟨limit, out, hforward⟩, fun r limit => ?_⟩
  exact hchanges (Policy.default.framework 8 true 3) loop r 1 limit (by decide) rfl

end Counting

end Flow
end WordRanges
