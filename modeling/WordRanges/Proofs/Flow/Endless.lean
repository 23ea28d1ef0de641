import Mathlib.Data.Fintype.Card
import Mathlib.Data.List.Chain
import Mathlib.Order.Filter.AtTopBot.Basic
import Mathlib.Order.Filter.Finite
import Mathlib.Order.OrderIsoNat
import WordRanges.Proofs.Flow.Stepping

/-!
# Runs do not go on for ever

If every directed cycle of a graph passes through a merge node and each merge node can change
its state only so often, runs end, whichever nodes a change lets wait.  For suppose that a run
goes on for ever.  From some point on no merge node changes, since each change spends part of a
budget.  A transfer node whose inputs keep their states changes at most once more, and transfer
nodes alone form no cycle, so from some point on no node changes at all.  But then every step
takes a node from the work list and lets none wait.

Main results:

- Theorem {lit}`Graph.CutByMerges.wellFounded`: transfer nodes alone form no cycle.
- Theorem {lit}`Endless.settles_merge`: from some point on a merge node keeps its state.
- Theorem {lit}`Endless.settles_transfer`: so does a transfer node whose inputs do.
- Theorem {lit}`Run.OfKind.exists_steps`: runs end.
-/

namespace WordRanges
namespace Flow

open Filter

variable {σ : Type}

/-! ## Cycles -/

/-- A rule that combines inputs is that of merge nodes. -/
theorem Rule.eq_merge_of_isMerge {rule : Rule σ} (h : rule.isMerge = true) : rule = .merge := by
  cases rule with
  | transfer apply => cases h
  | merge => rfl

namespace Graph

variable {g : Graph σ} {id : NodeId}

/-- A node combines inputs. -/
def isMerge (g : Graph σ) (id : NodeId) : Bool :=
  (g.nodes[id]?).any fun n => n.rule.isMerge

/-- A directed cycle: each node is an input of the next one, and the last one is an input of
the first one. -/
def IsCycle (g : Graph σ) : List NodeId → Prop
  | [] => False
  | first :: rest => List.IsChain (fun a b => a ∈ g.inputsOf b) (first :: (rest ++ [first]))

/-- Every directed cycle passes through a merge node. -/
def CutByMerges (g : Graph σ) : Prop :=
  ∀ ids, g.IsCycle ids → ∃ id ∈ ids, g.isMerge id = true

/-- Whether a node that exists combines inputs. -/
theorem isMerge_eq {n : Node σ} (hnode : g.nodes[id]? = some n) :
    g.isMerge id = n.rule.isMerge := by
  rw [isMerge, hnode, Option.any_some]

/-- The transfer nodes of a graph. -/
abbrev TransferId (g : Graph σ) : Type :=
  {id : Fin g.size // g.isMerge id = false}

/-- A transfer node is an input of another one. -/
def Feeds (g : Graph σ) (a b : g.TransferId) : Prop :=
  a.1.1 ∈ g.inputsOf b.1.1

/-- No way along inputs leads from a transfer node through transfer nodes back to it. -/
theorem CutByMerges.not_feeds_self (hcut : g.CutByMerges) (a : g.TransferId) :
    ¬ Relation.TransGen g.Feeds a a := by
  intro hpath
  obtain ⟨b, hab, hback⟩ := Relation.TransGen.head'_iff.mp hpath
  obtain ⟨way, hchain, hlast⟩ := List.exists_isChain_cons_of_relationReflTransGen hback
  have hway : (b :: way).dropLast ++ [a] = b :: way := by
    rw [← hlast]
    exact List.dropLast_concat_getLast _
  -- The numbers of the nodes on the way are a cycle without a merge node.
  have hcycle : g.IsCycle ((a :: (b :: way).dropLast).map fun t => t.1.1) := by
    have hround : List.IsChain g.Feeds (a :: ((b :: way).dropLast ++ [a])) := by
      rw [hway]
      exact List.isChain_cons_cons.mpr ⟨hab, hchain⟩
    have hmapped := List.isChain_map_of_isChain (S := fun a b => a ∈ g.inputsOf b)
      (fun t : g.TransferId => t.1.1) (fun _ _ h => h) hround
    simpa [IsCycle] using hmapped
  obtain ⟨id, hid, hmerge⟩ := hcut _ hcycle
  obtain ⟨t, -, rfl⟩ := List.mem_map.mp hid
  rw [t.2] at hmerge
  cases hmerge

/-- Transfer nodes alone form no cycle, so something can be proved of them by induction along
their inputs. -/
theorem CutByMerges.wellFounded (hcut : g.CutByMerges) : WellFounded g.Feeds := by
  have hirrefl : Std.Irrefl (Relation.TransGen g.Feeds) := ⟨hcut.not_feeds_self⟩
  have hwf : WellFounded (Relation.TransGen g.Feeds) := Finite.wellFounded_of_trans_of_irrefl _
  exact Subrelation.wf (fun h => Relation.TransGen.single h) hwf

end Graph

/-! ## Budgets of merge nodes -/

variable [DecidableEq σ] {fw : Framework σ} {g : Graph σ} {d : Direction} {r r' : Run σ}
variable {V : σ → Prop} {budget : Option σ → Nat → Nat} {limit : Nat} {id : NodeId}

/-- Each change of the state of a merge node spends part of a budget, which depends on the state
and on how often the node was narrowed. -/
def Framework.Spends (fw : Framework σ) (d : Direction) (V : σ → Prop)
    (budget : Option σ → Nat → Nat) : Prop :=
  ∀ (n : Node σ) (old new : Option σ) (narrowed : Nat) (inputs : List (Option σ)),
    n.rule = .merge → (∀ o, old = some o → V o) → (∀ s, some s ∈ inputs → V s) →
    (evaluate fw d n old narrowed inputs).1 = .become new → new ≠ old →
    (d = .ascending → ascentFault? fw n.name old new = none) →
    budget new (if d = .descending then narrowed + 1 else narrowed) < budget old narrowed

omit [DecidableEq σ] in
/-- How often a node was narrowed after a change: a merge node that changes while descending was
narrowed once more. -/
theorem getD_narrowed_of_change {narrowed narrowed' : Array Nat} {id : NodeId} {n : Node σ}
    (hid : id < narrowed.size)
    (h : narrowed' =
      if d = .descending ∧ n.rule.isMerge then
        narrowed.setIfInBounds id (narrowed.getD id 0 + 1)
      else
        narrowed) (j : NodeId) :
    narrowed'.getD j 0 =
      if id = j ∧ d = .descending ∧ n.rule.isMerge = true then narrowed.getD id 0 + 1
      else narrowed.getD j 0 := by
  rw [h]
  by_cases hnarrowed : d = .descending ∧ n.rule.isMerge = true
  · rw [if_pos hnarrowed, getD_setIfInBounds hid]
    simp only [hnarrowed, and_self, and_true]
  · rw [if_neg hnarrowed, if_neg fun hj => hnarrowed hj.2]

variable [Inhabited σ]

/-- A move leaves a merge node alone or spends part of its budget. -/
theorem Move.budget_lt (hspends : fw.Spends d V budget) (h : r.OfKind g V)
    (hsize : r.narrowed.size = g.size) (hmerge : g.isMerge id = true) (hmove : Move fw g d r r') :
    (stateAt r'.states id = stateAt r.states id ∧
        r'.narrowed.getD id 0 = r.narrowed.getD id 0) ∨
      budget (stateAt r'.states id) (r'.narrowed.getD id 0) <
        budget (stateAt r.states id) (r.narrowed.getD id 0) := by
  cases hmove with
  | stay j work hpop hsettled hstates hnarrowed => exact .inl ⟨by rw [hstates], by rw [hnarrowed]⟩
  | change j work n new hpop hnode heval hne hascent hstates hnarrowed =>
      have hj : j < g.size := lt_size_of_node hnode
      have hcount := getD_narrowed_of_change (hsize ▸ hj) hnarrowed id
      rw [hstates, stateAt_setIfInBounds (h.size_eq ▸ hj), hcount]
      by_cases hid : j = id
      · subst hid
        rw [Graph.isMerge_eq hnode] at hmerge
        have hspent := hspends n _ new _ _ (Rule.eq_merge_of_isMerge hmerge) (h.kind j)
          (h.kind_inputs n.inputs) heval hne hascent
        right
        simpa [hmerge] using hspent
      · exact .inl ⟨if_neg hid, if_neg fun h => hid h.1⟩

/-! ## Runs without end -/

/-- A sequence of moves that goes on for ever. -/
def Endless (fw : Framework σ) (g : Graph σ) (d : Direction) (run : Nat → Run σ) : Prop :=
  ∀ k, Move fw g d (run k) (run (k + 1))

/-- Where a step leads, if it goes on. -/
def Run.next (fw : Framework σ) (g : Graph σ) (d : Direction) (r : Run σ) : Run σ :=
  match step fw g d r with
  | .running r' => r'
  | _ => r

/-- A run that does not end within any limit goes on, and does not end after the next step
either. -/
theorem step_of_steps_eq_none (h : ∀ limit, steps fw g d limit r = none) :
    step fw g d r = .running (r.next fw g d) ∧
      ∀ limit, steps fw g d limit (r.next fw g d) = none := by
  have hsteps (limit : Nat) := h (limit + 1)
  simp only [steps] at hsteps
  unfold Run.next
  cases hstep : step fw g d r with
  | finished last => simp [hstep] at hsteps
  | failed fault last => simp [hstep] at hsteps
  | running next =>
      simp only [hstep] at hsteps
      exact ⟨rfl, hsteps⟩

/-- A run ends or goes on for ever. -/
theorem exists_steps_or_endless (fw : Framework σ) (g : Graph σ) (d : Direction) (r : Run σ) :
    (∃ limit last, steps fw g d limit r = some last) ∨ ∃ run, run 0 = r ∧ Endless fw g d run := by
  by_cases hends : ∃ limit last, steps fw g d limit r = some last
  · exact .inl hends
  · refine .inr ⟨fun k => (Run.next fw g d)^[k] r, rfl, ?_⟩
    have hnone (k : Nat) : ∀ limit, steps fw g d limit ((Run.next fw g d)^[k] r) = none := by
      induction k with
      | zero =>
          intro limit
          exact Option.eq_none_iff_forall_ne_some.mpr fun last h => hends ⟨limit, last, h⟩
      | succ k ih =>
          rw [Function.iterate_succ_apply']
          exact (step_of_steps_eq_none ih).2
    intro k
    simp only [Function.iterate_succ_apply']
    exact move_of_step (step_of_steps_eq_none (hnone k)).1

/-- A run that ends within a limit ends in the same way within a larger one. -/
theorem steps_mono {last : Except (Fault σ × Run σ) (Run σ)} {limit' : Nat} (hle : limit ≤ limit')
    (h : steps fw g d limit r = some last) : steps fw g d limit' r = some last := by
  induction limit generalizing r limit' with
  | zero => cases h
  | succ limit ih =>
      obtain ⟨limit', rfl⟩ :=
        Nat.exists_eq_add_one_of_ne_zero (Nat.ne_of_gt (Nat.zero_lt_of_lt hle))
      rw [steps] at h ⊢
      cases hstep : step fw g d r with
      | finished last => simpa [hstep] using h
      | failed fault last => simpa [hstep] using h
      | running next =>
          rw [hstep] at h
          exact ih (Nat.le_of_succ_le_succ hle) h

/-! ## Nodes settle -/

section Settling

variable {run : Nat → Run σ} {n : Node σ} {apply : List σ → Option σ}

/-- From some point on a node keeps its state. -/
def Settles (run : Nat → Run σ) (id : NodeId) : Prop :=
  ∀ᶠ k in atTop, stateAt (run (k + 1)).states id = stateAt (run k).states id

/-- A merge node changes only so often. -/
theorem Endless.settles_merge (hrun : Endless fw g d run) (hspends : fw.Spends d V budget)
    (hkind : ∀ k, (run k).OfKind g V) (hsize : ∀ k, (run k).narrowed.size = g.size)
    (hmerge : g.isMerge id = true) : Settles run id := by
  let left (k : Nat) : Nat := budget (stateAt (run k).states id) ((run k).narrowed.getD id 0)
  have hstep (k : Nat) := (hrun k).budget_lt hspends (hkind k) (hsize k) hmerge
  have hle (k : Nat) : left (k + 1) ≤ left k := by
    rcases hstep k with ⟨hstate, hcount⟩ | hlt
    · exact Nat.le_of_eq (congrArg₂ budget hstate hcount)
    · exact Nat.le_of_lt hlt
  -- What is left of the budget gets smaller only so often.
  obtain ⟨m, hm⟩ := WellFoundedGT.monotone_chain_condition
    (⟨fun k => OrderDual.toDual (left k), monotone_nat_of_le_succ hle⟩ : Nat →o Natᵒᵈ)
  refine eventually_atTop.mpr ⟨m, fun k hk => ?_⟩
  have hsame : left (k + 1) = left k :=
    (hm (k + 1) (Nat.le_succ_of_le hk)).symm.trans (hm k hk)
  exact ((hstep k).resolve_right (Nat.not_lt_of_le (Nat.le_of_eq hsame.symm))).1

/-- A move leaves a transfer node alone or makes it what its function makes of its inputs. -/
theorem Move.state_transfer (hmove : Move fw g d r r') (hsize : r.states.size = g.size)
    (hnode : g.nodes[id]? = some n) (hrule : n.rule = .transfer apply) :
    stateAt r'.states id = stateAt r.states id ∨
      stateAt r'.states id = (allStates (n.inputs.map (stateAt r.states))).bind apply := by
  cases hmove with
  | stay j work hpop hsettled hstates => exact .inl (by rw [hstates])
  | change j work m new hpop hm heval hne hascent hstates =>
      rw [hstates, stateAt_setIfInBounds (hsize ▸ lt_size_of_node hm)]
      by_cases hid : j = id
      · subst hid
        rw [hm] at hnode
        cases hnode
        unfold Run.evaluation at heval
        rw [evaluate_transfer hrule] at heval
        exact .inr ((if_pos rfl).trans (Evaluation.become.inj heval).symm)
      · exact .inl (if_neg hid)

/-- A transfer node whose inputs keep their states changes at most once more: to what its function
makes of them. -/
theorem Endless.settles_transfer (hrun : Endless fw g d run)
    (hsize : ∀ k, (run k).states.size = g.size) (hnode : g.nodes[id]? = some n)
    (hrule : n.rule = .transfer apply) (hinputs : ∀ input ∈ n.inputs, Settles run input) :
    Settles run id := by
  let result (k : Nat) : Option σ :=
    (allStates (n.inputs.map (stateAt (run k).states))).bind apply
  have hstep (k : Nat) := (hrun k).state_transfer (hsize k) hnode hrule
  obtain ⟨m, hm⟩ := eventually_atTop.mp ((eventually_all_finset n.inputs.toFinset).mpr
    fun input hinput => hinputs input (List.mem_toFinset.mp hinput))
  have hresult {k : Nat} (hk : m ≤ k) : result (k + 1) = result k := by
    have hmap : n.inputs.map (stateAt (run (k + 1)).states) =
        n.inputs.map (stateAt (run k).states) :=
      List.map_congr_left fun input hinput => hm k hk input (List.mem_toFinset.mpr hinput)
    exact congrArg (fun inputs => (allStates inputs).bind apply) hmap
  by_cases hnever : ∀ k, m ≤ k → stateAt (run (k + 1)).states id = stateAt (run k).states id
  · exact eventually_atTop.mpr ⟨m, hnever⟩
  · push Not at hnever
    obtain ⟨c, hc, hchange⟩ := hnever
    have hstate {k : Nat} (hk : c + 1 ≤ k) : stateAt (run k).states id = result k := by
      induction k, hk using Nat.le_induction with
      | base => exact ((hstep c).resolve_left hchange).trans (hresult hc).symm
      | succ k hk ih =>
          rw [hresult (by omega)]
          rcases hstep k with hsame | hbecome
          · exact hsame.trans ih
          · exact hbecome
    refine eventually_atTop.mpr ⟨c + 1, fun k hk => ?_⟩
    rw [hstate hk, hstate (Nat.le_succ_of_le hk), hresult (by omega)]

/-- If every cycle passes through a merge node, every node settles. -/
theorem Endless.settles (hrun : Endless fw g d run) (hcut : g.CutByMerges)
    (hspends : fw.Spends d V budget) (hkind : ∀ k, (run k).OfKind g V)
    (hsize : ∀ k, (run k).narrowed.size = g.size) (id : NodeId) : Settles run id := by
  have hsizes (k : Nat) := (hkind k).size_eq
  have hmerges {j : NodeId} (hmerge : g.isMerge j = true) : Settles run j :=
    hrun.settles_merge hspends hkind hsize hmerge
  have hmissing {j : NodeId} (hj : g.size ≤ j) : Settles run j := by
    refine eventually_atTop.mpr ⟨0, fun k _ => ?_⟩
    rw [stateAt_eq_none (hsizes (k + 1) ▸ hj), stateAt_eq_none (hsizes k ▸ hj)]
  -- Transfer nodes settle by induction along their inputs.
  have htransfers (t : g.TransferId) : Settles run t.1.1 := by
    induction t using hcut.wellFounded.induction with
    | h t ih =>
        have hnode : g.nodes[t.1.1]? = some g.nodes[t.1.1] := Array.getElem?_eq_getElem t.1.2
        have htransfer := t.2
        rw [Graph.isMerge_eq hnode] at htransfer
        cases hrule : g.nodes[t.1.1].rule with
        | merge =>
            rw [hrule] at htransfer
            cases htransfer
        | transfer apply =>
            refine hrun.settles_transfer hsizes hnode hrule fun input hinput => ?_
            by_cases hmerge : g.isMerge input = true
            · exact hmerges hmerge
            · rcases Nat.lt_or_ge input g.size with hlt | hge
              · refine ih ⟨⟨input, hlt⟩, Bool.not_eq_true _ ▸ hmerge⟩ ?_
                rw [Graph.Feeds, Graph.inputsOf_eq hnode]
                exact hinput
              · exact hmissing hge
  by_cases hmerge : g.isMerge id = true
  · exact hmerges hmerge
  · rcases Nat.lt_or_ge id g.size with hlt | hge
    · exact htransfers ⟨⟨id, hlt⟩, Bool.not_eq_true _ ▸ hmerge⟩
    · exact hmissing hge

/-- If every node settles, a run does not go on for ever: once no node changes, each move takes a
node from the work list and lets none wait. -/
theorem Endless.not_settles (hrun : Endless fw g d run)
    (hsize : ∀ k, (run k).states.size = g.size) : ¬ ∀ id, Settles run id := by
  intro hsettles
  obtain ⟨m, hm⟩ := eventually_atTop.mp ((eventually_all_finset (Finset.range g.size)).mpr
    fun id _ => hsettles id)
  have htakes (k : Nat) (hk : m ≤ k) :
      (run (k + 1)).work.queue.length + 1 = (run k).work.queue.length := by
    cases hrun k with
    | stay j work hpop hsettled hstates hnarrowed hwork =>
        rw [Worklist.queue_of_pop? hpop, hwork, List.length_cons]
    | change j work n new hpop hnode heval hne hascent hstates =>
        have hj : j < g.size := lt_size_of_node hnode
        have hsame := hm k hk j (Finset.mem_range.mpr hj)
        rw [hstates, stateAt_setIfInBounds (hsize k ▸ hj), if_pos rfl] at hsame
        exact absurd hsame hne
  have hlength (j : Nat) :
      (run (m + j)).work.queue.length + j = (run m).work.queue.length := by
    induction j with
    | zero => rfl
    | succ j ih =>
        have hlast := htakes (m + j) (Nat.le_add_right m j)
        rw [Nat.add_assoc] at hlast
        omega
  have htoo := hlength ((run m).work.queue.length + 1)
  omega

end Settling

/-- Runs of a graph whose cycles pass through merge nodes end if each change of a merge node
spends part of a budget.  It does not matter which nodes a change lets wait. -/
theorem Run.OfKind.exists_steps (hfw : fw.Steady V) (hcut : g.CutByMerges) (hkeeps : g.Keeps V)
    (hspends : fw.Spends d V budget) (h : r.OfKind g V) (hsize : r.narrowed.size = g.size) :
    ∃ limit last, Flow.steps fw g d limit r = some last := by
  rcases exists_steps_or_endless fw g d r with hends | ⟨run, rfl, hrun⟩
  · exact hends
  · have hkept (k : Nat) : (run k).OfKind g V ∧ (run k).narrowed.size = g.size := by
      induction k with
      | zero => exact ⟨h, hsize⟩
      | succ k ih =>
          exact ⟨ih.1.move hfw hkeeps (hrun k), (hrun k).size_narrowed.trans ih.2⟩
    have hsettles := hrun.settles hcut hspends (fun k => (hkept k).1) fun k => (hkept k).2
    exact absurd hsettles (hrun.not_settles fun k => (hkept k).1.size_eq)

end Flow
end WordRanges
