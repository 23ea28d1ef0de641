import WordRanges.Flow.Worklist

/-!
# Tidy work lists

The flags of a work list tell exactly which nodes are in its queue, and the queue holds no
node twice.  Taking the first node and letting nodes wait keep a work list that way.

Main results:

- Theorem {lit}`Worklist.Tidy.pushAll`: letting nodes wait keeps a work list tidy.
- Theorem {lit}`Worklist.Tidy.mem_pushAll`: which nodes wait afterwards.
- Theorem {lit}`Worklist.Tidy.pop?`: taking the first node keeps a work list tidy.
-/

namespace WordRanges
namespace Flow

/-- What is recorded of a node after something was recorded of one node. -/
theorem getD_setIfInBounds {α : Type} {entries : Array α} {id : NodeId} (hid : id < entries.size)
    (entry default : α) (j : NodeId) :
    (entries.setIfInBounds id entry).getD j default =
      if id = j then entry else entries.getD j default := by
  rw [Array.getD_eq_getD_getElem?, Array.getElem?_setIfInBounds, if_pos hid]
  split
  · rfl
  · rw [Array.getD_eq_getD_getElem?]

namespace Worklist

variable {l work : Worklist} {n : Nat} {id : NodeId}

/-- A work list of {lit}`n` nodes whose flags and queue agree. -/
structure Tidy (n : Nat) (l : Worklist) : Prop where
  size_eq : l.queued.size = n
  nodup : l.queue.Nodup
  isQueued_iff : ∀ id, l.isQueued id = true ↔ id ∈ l.queue

/-- Only nodes that exist wait. -/
theorem Tidy.lt (h : l.Tidy n) (hid : id ∈ l.queue) : id < n := by
  rw [← h.isQueued_iff, isQueued, Array.getD_eq_getD_getElem?] at hid
  rcases Nat.lt_or_ge id l.queued.size with hlt | hge
  · exact h.size_eq ▸ hlt
  · rw [Array.getElem?_eq_none hge] at hid
    cases hid

/-- At first every node waits. -/
theorem tidy_full (n : Nat) : (full n).Tidy n := by
  refine ⟨Array.size_replicate, List.nodup_range, ?_⟩
  intro id
  simp only [isQueued, full, Array.getD_eq_getD_getElem?, Array.getElem?_replicate, List.mem_range]
  split <;> simp_all

/-! ## Letting nodes wait -/

/-- Letting a node wait keeps a work list tidy. -/
theorem Tidy.push (h : l.Tidy n) (hid : id < n) : (l.push id).Tidy n := by
  unfold Worklist.push
  split
  · exact h
  · rename_i hqueued
    have hnot : id ∉ l.queue := fun hmem => hqueued ((h.isQueued_iff id).mpr hmem)
    refine ⟨by rw [Array.size_setIfInBounds, h.size_eq], ?_, ?_⟩
    · refine List.nodup_append.mpr ⟨h.nodup, List.pairwise_singleton _ id, ?_⟩
      intro a ha b hb hab
      rw [List.mem_singleton] at hb
      exact hnot (hb ▸ hab ▸ ha)
    · intro j
      rw [isQueued, getD_setIfInBounds (h.size_eq ▸ hid), List.mem_append, List.mem_singleton]
      split
      · rename_i heq
        simp [heq]
      · rename_i hne
        rw [← h.isQueued_iff j, isQueued]
        simp [Ne.symm hne]

/-- The nodes that wait after one more was let wait. -/
theorem Tidy.mem_push (h : l.Tidy n) {j : NodeId} :
    j ∈ (l.push id).queue ↔ j ∈ l.queue ∨ j = id := by
  unfold Worklist.push
  split
  · rename_i hqueued
    have hid := (h.isQueued_iff id).mp hqueued
    exact ⟨Or.inl, fun hj => hj.elim (fun hj => hj) (fun hj => hj ▸ hid)⟩
  · simp

/-- Letting several nodes wait keeps a work list tidy. -/
theorem Tidy.pushAll (h : l.Tidy n) {ids : List NodeId} (hids : ∀ id ∈ ids, id < n) :
    (l.pushAll ids).Tidy n := by
  induction ids generalizing l with
  | nil => exact h
  | cons id ids ih =>
      have hid : id < n := hids id List.mem_cons_self
      exact ih (h.push hid) fun j hj => hids j (List.mem_cons_of_mem id hj)

/-- The nodes that wait after several more were let wait. -/
theorem Tidy.mem_pushAll (h : l.Tidy n) {ids : List NodeId} (hids : ∀ id ∈ ids, id < n)
    {j : NodeId} : j ∈ (l.pushAll ids).queue ↔ j ∈ l.queue ∨ j ∈ ids := by
  induction ids generalizing l with
  | nil => simp [Worklist.pushAll]
  | cons id ids ih =>
      have hid : id < n := hids id List.mem_cons_self
      have hrest : ∀ j ∈ ids, j < n := fun j hj => hids j (List.mem_cons_of_mem id hj)
      have hpushed : (l.pushAll (id :: ids)) = (l.push id).pushAll ids := rfl
      rw [hpushed, ih (h.push hid) hrest, h.mem_push, List.mem_cons, or_assoc]

/-! ## Taking the first node -/

/-- What is taken is the first node of the queue. -/
theorem queue_of_pop? (h : l.pop? = some (id, work)) : l.queue = id :: work.queue := by
  unfold Worklist.pop? at h
  split at h
  · cases h
  · rename_i hqueue
    cases h
    exact hqueue

/-- Nothing can be taken only if no node waits. -/
theorem queue_of_pop?_eq_none (h : l.pop? = none) : l.queue = [] := by
  unfold Worklist.pop? at h
  split at h
  · assumption
  · cases h

/-- Taking the first node keeps a work list tidy. -/
theorem Tidy.pop? (h : l.Tidy n) (hpop : l.pop? = some (id, work)) : work.Tidy n := by
  have hqueue := queue_of_pop? hpop
  have hid : id < n := h.lt (by rw [hqueue]; exact List.mem_cons_self)
  have hnodup := h.nodup
  rw [hqueue, List.nodup_cons] at hnodup
  have hflags : work.queued = l.queued.setIfInBounds id false := by
    unfold Worklist.pop? at hpop
    split at hpop
    · cases hpop
    · cases hpop
      rfl
  refine ⟨by rw [hflags, Array.size_setIfInBounds, h.size_eq], hnodup.2, ?_⟩
  intro j
  rw [isQueued, hflags, getD_setIfInBounds (h.size_eq ▸ hid)]
  have hj := h.isQueued_iff j
  rw [isQueued, hqueue, List.mem_cons] at hj
  split
  · rename_i heq
    subst heq
    simp [hnodup.1]
  · rename_i hne
    rw [hj]
    simp [Ne.symm hne]

end Worklist
end Flow
end WordRanges
