import WordRanges.Flow.Solver
import WordRanges.Proofs.Flow.Building
import WordRanges.Proofs.Flow.Queueing

/-!
# Steps and whole runs

Each step of a run takes a node from the work list and either leaves all states alone or
gives the node a new state and lets its readers wait.  What every such move keeps holds at
the end of a run.  In particular the nodes that do not wait are settled: evaluating them
again would change nothing.

Main results:

- Theorem {lit}`move_of_step`: what a step does.
- Theorem {lit}`steps_keep`: what every move keeps, a whole run keeps.
- Theorem {lit}`Move.of_idle`: what a move means for nodes that do not wait afterwards.
- Theorem {lit}`Run.Orderly.move`: moves keep nodes that do not wait settled.
- Theorem {lit}`forward_eq_ok`: the runs behind a solution.
-/

namespace WordRanges
namespace Flow

variable {σ : Type}

/-! ## States of nodes -/

/-- All inputs have states exactly if they are these states. -/
theorem allStates_eq_some_iff {inputs : List (Option σ)} {states : List σ} :
    allStates inputs = some states ↔ inputs = states.map some := by
  induction inputs generalizing states with
  | nil => cases states <;> simp [allStates]
  | cons input inputs ih =>
      cases input with
      | none => cases states <;> simp [allStates]
      | some s =>
          cases states with
          | nil => simp [allStates]
          | cons first states =>
              simp only [allStates, Option.map_eq_some_iff, ih, List.cons.injEq, List.map_cons,
                Option.some.injEq]
              exact ⟨fun ⟨_, h, hs, hrest⟩ => ⟨hs, hrest ▸ h⟩, fun ⟨hs, h⟩ => ⟨_, h, hs, rfl⟩⟩

section States

variable [Inhabited σ]

/-- As many nodes have states at first as are asked for. -/
@[simp]
theorem States.size_unreachable (n : Nat) : (unreachable n : States σ).size = n :=
  Array.size_replicate

/-- At first no node has a state. -/
@[simp]
theorem stateAt_unreachable (n : Nat) (id : NodeId) :
    stateAt (.unreachable n : States σ) id = none := by
  simp only [stateAt, States.unreachable, Array.getD_eq_getD_getElem?, Array.getElem?_replicate]
  split <;> simp

/-- A new state of a node leaves the number of nodes alone. -/
@[simp]
theorem States.size_setIfInBounds (states : States σ) (id : NodeId) (new : Option σ) :
    (states.setIfInBounds id new).size = states.size :=
  Array.size_setIfInBounds

/-- What is shown of a node after one node got a new state. -/
theorem valueAt_setIfInBounds {states : States σ} {id : NodeId} (hid : id < states.size)
    (new : Option σ) (j : NodeId) :
    valueAt (states.setIfInBounds id new) j =
      if id = j then (new.getD default, new.isSome) else valueAt states j := by
  have hvalue := getD_setIfInBounds (states.size_eq ▸ hid : id < states.values.size)
    (new.getD default) default j
  have hflag := getD_setIfInBounds (hid : id < states.reachable.size) new.isSome false j
  unfold valueAt
  simp only [States.setIfInBounds, hvalue, hflag]
  split <;> rfl

/-- The state of a node, by what is shown of it. -/
theorem stateAt_eq (states : States σ) (id : NodeId) :
    stateAt states id =
      if (valueAt states id).2 = true then some (valueAt states id).1 else none := by
  unfold stateAt valueAt
  by_cases hid : id < states.size
  · have hvalue : states.values[id]? = some (states.values.getD id default) := by
      rw [Array.getD_eq_getD_getElem?, Array.getElem?_eq_getElem (states.size_eq ▸ hid)]
      rfl
    rw [hvalue]
  · rw [Array.getD_eq_getD_getElem?, Array.getElem?_eq_none (Nat.le_of_not_lt hid)]
    rfl

omit [Inhabited σ] in
/-- A node that does not exist has no state. -/
theorem stateAt_eq_none {states : States σ} {id : NodeId} (hid : states.size ≤ id) :
    stateAt states id = none := by
  rw [stateAt, Array.getD_eq_getD_getElem?, Array.getElem?_eq_none hid]
  rfl

/-- The state of a node after one node got a new state. -/
theorem stateAt_setIfInBounds {states : States σ} {id : NodeId} (hid : id < states.size)
    (new : Option σ) (j : NodeId) :
    stateAt (states.setIfInBounds id new) j = if id = j then new else stateAt states j := by
  rw [stateAt_eq, valueAt_setIfInBounds hid, stateAt_eq states]
  split
  · cases new <;> rfl
  · rfl

/-- A node that does not exist gets no state. -/
theorem States.setIfInBounds_eq_of_size_le {states : States σ} {id : NodeId}
    (hid : states.size ≤ id) (new : Option σ) : states.setIfInBounds id new = states := by
  have hvalues : states.values.size ≤ id := states.size_eq ▸ hid
  simp only [setIfInBounds, Array.setIfInBounds_eq_of_size_le hvalues,
    Array.setIfInBounds_eq_of_size_le hid]

/-- Other nodes keep their states when a node gets a new one. -/
theorem stateAt_setIfInBounds_ne {states : States σ} {id j : NodeId} (hne : id ≠ j)
    (new : Option σ) : stateAt (states.setIfInBounds id new) j = stateAt states j := by
  rcases Nat.lt_or_ge id states.size with hlt | hge
  · rw [stateAt_setIfInBounds hlt, if_neg hne]
  · rw [States.setIfInBounds_eq_of_size_le hge]

end States

variable [DecidableEq σ] {fw : Framework σ} {g : Graph σ} {d : Direction}
variable {r r' : Run σ} {limit : Nat}

/-! ## Evaluating nodes -/

/-- What evaluating a node leads to, where a run stands. -/
def Run.evaluation (fw : Framework σ) (d : Direction) (r : Run σ) (id : NodeId) (n : Node σ) :
    Evaluation σ :=
  (evaluate fw d n (stateAt r.states id) (r.narrowed.getD id 0)
    (n.inputs.map (stateAt r.states))).1

/-- Evaluating a node would not change its state. -/
def Run.IsSettled (fw : Framework σ) (d : Direction) (r : Run σ) (id : NodeId) (n : Node σ) :
    Prop :=
  r.evaluation fw d id n = .keep ∨ r.evaluation fw d id n = .become (stateAt r.states id)

/-- A transfer node becomes what its function makes of its inputs. -/
theorem evaluate_transfer {n : Node σ} {apply : List σ → Option σ}
    (hrule : n.rule = .transfer apply)
    (old : Option σ) (narrowed : Nat) (inputs : List (Option σ)) :
    (evaluate fw d n old narrowed inputs).1 = .become ((allStates inputs).bind apply) := by
  unfold evaluate
  rw [hrule]
  cases allStates inputs with
  | none => rfl
  | some states => rfl

/-- A merge node is widened or narrowed towards the combined state of its inputs. -/
theorem evaluate_merge {n : Node σ} (hrule : n.rule = .merge) (old : Option σ) (narrowed : Nat)
    (inputs : List (Option σ)) :
    (evaluate fw d n old narrowed inputs).1 =
      match (mergeStates fw none inputs).1, d with
      | none, _ => .become none
      | some new, .ascending => .become (some (fw.widen new old))
      | some new, .descending =>
        if (narrowed : Int) < fw.maxNarrow then .become (some (fw.narrow new old)) else .keep := by
  unfold evaluate
  rw [hrule]
  obtain ⟨merged, events⟩ := mergeStates fw none inputs
  cases merged with
  | none => rfl
  | some new =>
      cases d with
      | ascending => rfl
      | descending =>
          simp only
          split <;> rfl

/-- The operations of a framework stay within a kind of states, and applying one of them to
its own result changes nothing. -/
structure Framework.Steady (fw : Framework σ) (V : σ → Prop) : Prop where
  join : ∀ {a b}, V a → V b → V (fw.join a b)
  widen : ∀ {new old}, V new → (∀ o, old = some o → V o) → V (fw.widen new old)
  narrow : ∀ {new old}, V new → (∀ o, old = some o → V o) → V (fw.narrow new old)
  widen_widen : ∀ {new old}, V new → (∀ o, old = some o → V o) →
    fw.widen new (some (fw.widen new old)) = fw.widen new old
  narrow_narrow : ∀ {new old}, V new → (∀ o, old = some o → V o) →
    fw.narrow new (some (fw.narrow new old)) = fw.narrow new old

/-- The transfer functions of a graph stay within a kind of states. -/
def Graph.Keeps (g : Graph σ) (V : σ → Prop) : Prop :=
  ∀ (id : NodeId) (n : Node σ) (apply : List σ → Option σ), g.nodes[id]? = some n →
    n.rule = .transfer apply → ∀ args v, (∀ a ∈ args, V a) → apply args = some v → V v

/-- Combining states of a kind gives a state of that kind. -/
theorem Framework.Steady.mergeStates {V : σ → Prop} (hfw : fw.Steady V) {acc : Option σ}
    {inputs : List (Option σ)} {v : σ} (hacc : ∀ a, acc = some a → V a)
    (hinputs : ∀ s, some s ∈ inputs → V s) (h : (mergeStates fw acc inputs).1 = some v) : V v := by
  induction inputs generalizing acc with
  | nil => exact hacc v h
  | cons input inputs ih =>
      have hrest : ∀ s, some s ∈ inputs → V s := fun s hs => hinputs s (List.mem_cons_of_mem _ hs)
      cases input with
      | none =>
          simp only [Flow.mergeStates] at h
          exact ih hacc hrest h
      | some s =>
          have hs : V s := hinputs s List.mem_cons_self
          cases acc with
          | none =>
              simp only [Flow.mergeStates] at h
              exact ih (fun a ha => Option.some.inj ha ▸ hs) hrest h
          | some a =>
              simp only [Flow.mergeStates] at h
              split at h
              · exact ih hacc hrest h
              · have hjoin := hfw.join (hacc a rfl) hs
                exact ih (fun b hb => Option.some.inj hb ▸ hjoin) hrest h

section Evaluation

variable {V : σ → Prop} {id : NodeId} {n : Node σ} {old new : Option σ} {narrowed : Nat}
variable {inputs : List (Option σ)}

/-- What a node becomes is of the kind of its inputs and of its old state. -/
theorem Framework.Steady.evaluate (hfw : fw.Steady V) (hg : g.Keeps V)
    (hnode : g.nodes[id]? = some n) (hold : ∀ o, old = some o → V o)
    (hinputs : ∀ s, some s ∈ inputs → V s)
    (h : (evaluate fw d n old narrowed inputs).1 = .become new) : ∀ v, new = some v → V v := by
  intro v hv
  subst hv
  cases hrule : n.rule with
  | transfer apply =>
      rw [evaluate_transfer hrule] at h
      obtain ⟨states, hstates, happly⟩ := Option.bind_eq_some_iff.mp (Evaluation.become.inj h)
      rw [allStates_eq_some_iff] at hstates
      subst hstates
      exact hg id n apply hnode hrule states v
        (fun a ha => hinputs a (List.mem_map_of_mem ha)) happly
  | merge =>
      rw [evaluate_merge hrule] at h
      split at h
      · cases h
      · rename_i merged hmerged
        cases h
        exact hfw.widen (hfw.mergeStates (fun _ ha => by cases ha) hinputs hmerged) hold
      · rename_i merged hmerged
        split at h
        · cases h
          exact hfw.narrow (hfw.mergeStates (fun _ ha => by cases ha) hinputs hmerged) hold
        · cases h

/-- A node that became what it is would not change again. -/
theorem Framework.Steady.evaluate_again (hfw : fw.Steady V) (hold : ∀ o, old = some o → V o)
    (hinputs : ∀ s, some s ∈ inputs → V s)
    (h : (Flow.evaluate fw d n old narrowed inputs).1 = .become new) (narrowed' : Nat) :
    (Flow.evaluate fw d n new narrowed' inputs).1 = .keep ∨
      (Flow.evaluate fw d n new narrowed' inputs).1 = .become new := by
  cases hrule : n.rule with
  | transfer apply =>
      rw [evaluate_transfer hrule] at h ⊢
      exact .inr h
  | merge =>
      rw [evaluate_merge hrule] at h ⊢
      split at h
      · exact .inr h
      · rename_i merged hmerged
        have hV := hfw.mergeStates (fun _ ha => by cases ha) hinputs hmerged
        cases h
        right
        simp only [hfw.widen_widen hV hold]
      · rename_i merged hmerged
        have hV := hfw.mergeStates (fun _ ha => by cases ha) hinputs hmerged
        split at h
        · cases h
          simp only [hfw.narrow_narrow hV hold]
          split
          · exact .inr rfl
          · exact .inl rfl
        · cases h

end Evaluation

/-! ## Moves -/

variable [Inhabited σ]

/-- How a step gets from one run to the next. -/
inductive Move (fw : Framework σ) (g : Graph σ) (d : Direction) (r r' : Run σ) : Prop where
  /-- The node that was taken is settled. -/
  | stay (id : NodeId) (work : Worklist) (hpop : r.work.pop? = some (id, work))
      (hsettled : ∀ n, g.nodes[id]? = some n → r.IsSettled fw d id n)
      (hstates : r'.states = r.states) (hnarrowed : r'.narrowed = r.narrowed)
      (hwork : r'.work = work)
  /-- The node that was taken gets a new state, and its readers wait. -/
  | change (id : NodeId) (work : Worklist) (n : Node σ) (new : Option σ)
      (hpop : r.work.pop? = some (id, work)) (hnode : g.nodes[id]? = some n)
      (heval : r.evaluation fw d id n = .become new) (hne : new ≠ stateAt r.states id)
      (hascent : d = .ascending → ascentFault? fw n.name (stateAt r.states id) new = none)
      (hstates : r'.states = r.states.setIfInBounds id new)
      (hnarrowed : r'.narrowed =
        if d = .descending ∧ n.rule.isMerge then
          r.narrowed.setIfInBounds id (r.narrowed.getD id 0 + 1)
        else
          r.narrowed)
      (hwork : r'.work = work.pushAll (g.readersOf id))

/-- A step that goes on is a move. -/
theorem move_of_step (h : step fw g d r = .running r') : Move fw g d r r' := by
  unfold step at h
  split at h
  · cases h
  · rename_i id work hpop
    split at h
    · rename_i hnone
      cases h
      exact .stay id work hpop (fun n hn => by rw [hnone] at hn; cases hn) rfl rfl rfl
    · rename_i n hnode
      have hsettled (he : r.IsSettled fw d id n) :
          ∀ n', g.nodes[id]? = some n' → r.IsSettled fw d id n' := by
        intro n' hn'
        rw [hnode] at hn'
        cases hn'
        exact he
      simp only at h
      split at h
      · rename_i hkeep
        cases h
        exact .stay id work hpop (hsettled (.inl hkeep)) rfl rfl rfl
      · rename_i new hnew
        split at h
        · rename_i hsame
          cases h
          exact .stay id work hpop (hsettled (.inr (hsame ▸ hnew))) rfl rfl rfl
        · rename_i hne
          split at h
          · cases h
          · rename_i hfault
            cases h
            refine .change id work n new hpop hnode hnew hne ?_ rfl rfl rfl
            intro hd
            cases hascent : ascentFault? fw n.name (stateAt r.states id) new with
            | none => rfl
            | some fault => exact absurd hascent (hfault fault hd)

/-- A run that is finished leaves no node waiting. -/
theorem queue_of_finished (h : step fw g d r = .finished r') : r' = r ∧ r.work.queue = [] := by
  unfold step at h
  split at h
  · rename_i hpop
    cases h
    exact ⟨rfl, Worklist.queue_of_pop?_eq_none hpop⟩
  · split at h
    · cases h
    · simp only at h
      split at h
      · cases h
      · split at h
        · cases h
        · split at h <;> cases h

/-- What every move keeps holds at the end of a run, and then no node waits. -/
theorem steps_keep {P : Run σ → Prop} (hmove : ∀ r r', Move fw g d r r' → P r → P r') (hr : P r)
    (h : steps fw g d limit r = some (.ok r')) : P r' ∧ r'.work.queue = [] := by
  induction limit generalizing r with
  | zero => cases h
  | succ limit ih =>
      simp only [steps] at h
      split at h
      · rename_i hstep
        cases h
        obtain ⟨rfl, hqueue⟩ := queue_of_finished hstep
        exact ⟨hr, hqueue⟩
      · cases h
      · rename_i next hstep
        exact ih (hmove r next (move_of_step hstep) hr) h

omit [DecidableEq σ] [Inhabited σ] in
/-- A node of a graph is one of its first nodes. -/
theorem lt_size_of_node {id : NodeId} {n : Node σ} (hnode : g.nodes[id]? = some n) : id < g.size :=
  (Array.getElem?_eq_some_iff.mp hnode).1

omit [DecidableEq σ] in
/-- A node that does not read a node does not see its new state. -/
theorem stateAt_inputs_of_not_reader {states : States σ} {id j : NodeId} {n : Node σ}
    (hlinked : g.WellLinked) (hid : id < states.size) (hnode : g.nodes[j]? = some n)
    (hj : j ∉ g.readersOf id) (new : Option σ) :
    ∀ input ∈ n.inputs, stateAt (states.setIfInBounds id new) input = stateAt states input := by
  intro input hinput
  have hread := hlinked.mem_readersOf hnode hinput
  rw [stateAt_setIfInBounds hid, if_neg]
  rintro rfl
  exact hj hread

/-- Moves do not change the number of states. -/
theorem Move.size_eq (hmove : Move fw g d r r') : r'.states.size = r.states.size := by
  cases hmove with
  | stay id work hpop hsettled hstates => rw [hstates]
  | change id work n new hpop hnode heval hne hascent hstates =>
      rw [hstates, States.size_setIfInBounds]

/-- Moves do not change the number of counts of narrowing. -/
theorem Move.size_narrowed (hmove : Move fw g d r r') : r'.narrowed.size = r.narrowed.size := by
  cases hmove with
  | stay id work hpop hsettled hstates hnarrowed => rw [hnarrowed]
  | change id work n new hpop hnode heval hne hascent hstates hnarrowed =>
      rw [hnarrowed]
      split
      · rw [Array.size_setIfInBounds]
      · rfl

/-- Moves keep the work list tidy. -/
theorem Move.tidy (hrange : g.InRange) (hmove : Move fw g d r r') (h : r.work.Tidy g.size) :
    r'.work.Tidy g.size := by
  cases hmove with
  | stay id work hpop hsettled hstates hnarrowed hwork =>
      rw [hwork]
      exact h.pop? hpop
  | change id work n new hpop hnode heval hne hascent hstates hnarrowed hwork =>
      rw [hwork]
      exact (h.pop? hpop).pushAll fun j => hrange.lt_of_mem_readersOf

/-- A node that does not wait after a move sees the same states of its inputs as before.  It
was taken and has the state that evaluating it led to, or it is as it was: either evaluating it
kept it, or it did not wait before. -/
theorem Move.of_idle (hlinked : g.WellLinked) (hsize : r.states.size = g.size)
    (htidy : r.work.Tidy g.size) (hmove : Move fw g d r r') {j : NodeId} {n : Node σ}
    (hnode : g.nodes[j]? = some n) (hidle : j ∉ r'.work.queue) :
    (∀ input ∈ n.inputs, stateAt r'.states input = stateAt r.states input) ∧
      (r.evaluation fw d j n = .become (stateAt r'.states j) ∨
        (stateAt r'.states j = stateAt r.states j ∧
          r'.narrowed.getD j 0 = r.narrowed.getD j 0 ∧
          (r.evaluation fw d j n = .keep ∨ j ∉ r.work.queue))) := by
  -- A node that does not wait after the first one was taken, and is not that one, did not wait.
  have hbefore {id : NodeId} {work : Worklist} (hpop : r.work.pop? = some (id, work)) (hj : j ≠ id)
      (hwaits : j ∉ work.queue) : j ∉ r.work.queue := by
    rw [Worklist.queue_of_pop? hpop, List.mem_cons, not_or]
    exact ⟨hj, hwaits⟩
  cases hmove with
  | stay id work hpop hsettled hstates hnarrowed hwork =>
      rw [hwork] at hidle
      rw [hstates, hnarrowed]
      refine ⟨fun _ _ => rfl, ?_⟩
      by_cases hj : j = id
      · subst hj
        rcases hsettled n hnode with hkeep | hbecome
        · exact .inr ⟨rfl, rfl, .inl hkeep⟩
        · exact .inl hbecome
      · exact .inr ⟨rfl, rfl, .inr (hbefore hpop hj hidle)⟩
  | change id work m new hpop hm heval hne hascent hstates hnarrowed hwork =>
      have hid : id < r.states.size := hsize ▸ lt_size_of_node hm
      rw [hwork, (htidy.pop? hpop).mem_pushAll fun i => hlinked.inRange.lt_of_mem_readersOf,
        not_or] at hidle
      refine ⟨hstates ▸ stateAt_inputs_of_not_reader hlinked hid hnode hidle.2 new, ?_⟩
      rw [hstates, stateAt_setIfInBounds hid]
      by_cases hj : j = id
      · subst hj
        rw [hm] at hnode
        cases hnode
        rw [if_pos rfl]
        exact .inl heval
      · rw [if_neg (Ne.symm hj)]
        refine .inr ⟨rfl, ?_, .inr (hbefore hpop hj hidle.1)⟩
        rw [hnarrowed]
        split
        · simp [Array.getD_eq_getD_getElem?, Ne.symm hj]
        · rfl

/-! ## States of a kind -/

/-- A run with a state of a kind for each node that is reachable. -/
structure Run.OfKind (g : Graph σ) (V : σ → Prop) (r : Run σ) : Prop where
  size_eq : r.states.size = g.size
  kind : ∀ id v, stateAt r.states id = some v → V v

section Kind

variable {V : σ → Prop}

omit [DecidableEq σ] in
/-- No state of the first run is of another kind. -/
theorem Run.ofKind_initial (g : Graph σ) (V : σ → Prop) : (Run.initial g).OfKind g V := by
  refine ⟨States.size_unreachable g.size, ?_⟩
  intro id v hv
  rw [Run.initial, stateAt_unreachable] at hv
  cases hv

omit [DecidableEq σ] [Inhabited σ] in
/-- The inputs of a node have states of the kind of a run. -/
theorem Run.OfKind.kind_inputs (h : r.OfKind g V) (inputs : List NodeId) :
    ∀ s, some s ∈ inputs.map (stateAt r.states) → V s := by
  intro s hs
  obtain ⟨input, -, hinput⟩ := List.mem_map.mp hs
  exact h.kind input s hinput

/-- Moves keep the kind of states, whatever nodes they let wait. -/
theorem Run.OfKind.move (hfw : fw.Steady V) (hg : g.Keeps V) (h : r.OfKind g V)
    (hmove : Move fw g d r r') : r'.OfKind g V := by
  refine ⟨hmove.size_eq.trans h.size_eq, ?_⟩
  intro j v hv
  cases hmove with
  | stay id work hpop hsettled hstates => exact h.kind j v (hstates ▸ hv)
  | change id work m new hpop hm heval hne hascent hstates =>
      rw [hstates, stateAt_setIfInBounds (h.size_eq ▸ lt_size_of_node hm)] at hv
      split at hv
      · exact hfw.evaluate hg hm (h.kind id) (h.kind_inputs m.inputs) heval v hv
      · exact h.kind j v hv

end Kind

/-! ## Settled nodes -/

/-- A run whose states are of a kind and whose nodes are settled unless they wait. -/
structure Run.Orderly (fw : Framework σ) (g : Graph σ) (d : Direction) (V : σ → Prop) (r : Run σ) :
    Prop extends r.OfKind g V where
  tidy : r.work.Tidy g.size
  settled : ∀ id n, g.nodes[id]? = some n → id ∉ r.work.queue → r.IsSettled fw d id n

omit [Inhabited σ] in
/-- Whether a node is settled depends on its state, its inputs' states and how often it was
narrowed. -/
theorem Run.IsSettled.congr {id : NodeId} {n : Node σ} (h : r.IsSettled fw d id n)
    (hstate : stateAt r'.states id = stateAt r.states id)
    (hnarrowed : r'.narrowed.getD id 0 = r.narrowed.getD id 0)
    (hinputs : ∀ input ∈ n.inputs, stateAt r'.states input = stateAt r.states input) :
    r'.IsSettled fw d id n := by
  have heval : r'.evaluation fw d id n = r.evaluation fw d id n := by
    unfold Run.evaluation
    rw [hstate, hnarrowed, List.map_congr_left hinputs]
  unfold Run.IsSettled
  rw [heval, hstate]
  exact h

omit [Inhabited σ] in
/-- Letting every node wait makes a run of such states orderly. -/
theorem Run.orderly_of_full {V : σ → Prop} (hsize : r.states.size = g.size)
    (hwork : r.work = .full g.size) (hkind : ∀ id v, stateAt r.states id = some v → V v) :
    r.Orderly fw g d V := by
  refine ⟨⟨hsize, hkind⟩, hwork ▸ Worklist.tidy_full g.size, ?_⟩
  intro id n hnode hwaits
  rw [hwork] at hwaits
  exact absurd (List.mem_range.mpr (lt_size_of_node hnode)) hwaits

omit [Inhabited σ] in
/-- Starting again from an orderly run is orderly, in either direction. -/
theorem Run.Orderly.again {V : σ → Prop} {d' : Direction} (h : r.Orderly fw g d V) :
    (r.again g).Orderly fw g d' V :=
  Run.orderly_of_full h.size_eq rfl h.kind

/-- Moves keep runs orderly. -/
theorem Run.Orderly.move {V : σ → Prop} (hfw : fw.Steady V) (hlinked : g.WellLinked)
    (hg : g.Keeps V) (h : r.Orderly fw g d V) (hmove : Move fw g d r r') :
    r'.Orderly fw g d V := by
  refine ⟨h.toOfKind.move hfw hg hmove, hmove.tidy hlinked.inRange h.tidy, ?_⟩
  intro j n hnode hidle
  obtain ⟨hinputs, hbecome | ⟨hstate, hnarrowed, hkept⟩⟩ :=
    hmove.of_idle hlinked h.size_eq h.tidy hnode hidle
  · unfold Run.IsSettled Run.evaluation
    rw [List.map_congr_left hinputs]
    exact hfw.evaluate_again (h.kind j) (h.toOfKind.kind_inputs n.inputs) hbecome _
  · have hsettled : r.IsSettled fw d j n := hkept.elim .inl (h.settled j n hnode)
    exact hsettled.congr hstate hnarrowed hinputs

/-- At the end of a run from an orderly one every node is settled. -/
theorem Run.Orderly.steps {V : σ → Prop} (hfw : fw.Steady V) (hlinked : g.WellLinked)
    (hg : g.Keeps V) (h : r.Orderly fw g d V) (hsteps : steps fw g d limit r = some (.ok r')) :
    r'.Orderly fw g d V ∧ ∀ id n, g.nodes[id]? = some n → r'.IsSettled fw d id n := by
  obtain ⟨horderly, hqueue⟩ :=
    steps_keep (fun r r' hmove hr => Run.Orderly.move hfw hlinked hg hr hmove) h hsteps
  refine ⟨horderly, fun id n hnode => horderly.settled id n hnode ?_⟩
  rw [hqueue]
  exact List.not_mem_nil

end Flow
end WordRanges
