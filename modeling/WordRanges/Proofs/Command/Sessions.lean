import WordRanges.Command.Run
import WordRanges.Proofs.Domain.Runs
import WordRanges.Proofs.Notation.RoundTrip

/-!
# What operations on texts print

An operation reads its texts as values, combines them and prints the result.  All values that it
meets belong to the policy and have a counter of 64 bits, so they can be read back from what is
printed.  The notes that are taken on the way make no difference to the result.

Main results:

- Theorem {lit}`Session.CanGive.of_bind`: the result of two steps comes from a result of the first.
- Theorem {lit}`Operation.kept_apply?`: operations keep values within the policy.
- Theorem {lit}`Operation.isResult_of_run`: what an operation prints.
- Theorem {lit}`Operation.gives_canon_write`: the canonical form of a printed value.
-/

namespace WordRanges

/-! ## Results of sessions -/

namespace Session

variable {α β : Type} {x : Session α} {f : α → Session β} {a : α} {b : β}

/-- A session ends with a result, whatever was noted before. -/
def Gives (x : Session α) (a : α) : Prop :=
  ∀ log, (x.run.run log).1 = .ok a

/-- A session ends with a result, for some notes taken before. -/
def CanGive (x : Session α) (a : α) : Prop :=
  ∃ log, (x.run.run log).1 = .ok a

/-- A session fails, whatever was noted before. -/
def Fails (x : Session α) (fault : RunFault) : Prop :=
  ∀ log, (x.run.run log).1 = .error fault

/-- Two steps are run one after the other, unless the first one fails. -/
theorem run_bind (x : Session α) (f : α → Session β) (log : List String) :
    (x >>= f).run.run log =
      match x.run.run log with
      | (.ok a, noted) => (f a).run.run noted
      | (.error fault, noted) => (.error fault, noted) := by
  rw [ExceptT.run_bind, StateT.run_bind]
  cases x.run.run log with
  | mk result noted => cases result <;> rfl

/-- The result of two steps comes from a result of the first one. -/
theorem CanGive.of_bind (h : CanGive (x >>= f) b) : ∃ a, CanGive x a ∧ CanGive (f a) b := by
  obtain ⟨log, h⟩ := h
  rw [run_bind] at h
  rcases hx : x.run.run log with ⟨fault | a, noted⟩ <;> rw [hx] at h
  · cases h
  · exact ⟨a, ⟨log, by rw [hx]⟩, ⟨noted, h⟩⟩

/-- A result of the first step leads to one of both steps. -/
theorem Gives.bind (hx : Gives x a) (hf : Gives (f a) b) : Gives (x >>= f) b := by
  intro log
  have hfirst := hx log
  rw [run_bind]
  rcases hrun : x.run.run log with ⟨fault | c, noted⟩ <;> rw [hrun] at hfirst
  · cases hfirst
  · cases hfirst
    exact hf noted

/-- A failure of the second step is one of both steps. -/
theorem Gives.bind_fails {fault : RunFault} (hx : Gives x a) (hf : Fails (f a) fault) :
    Fails (x >>= f) fault := by
  intro log
  have hfirst := hx log
  rw [run_bind]
  rcases hrun : x.run.run log with ⟨fault' | c, noted⟩ <;> rw [hrun] at hfirst
  · cases hfirst
  · cases hfirst
    exact hf noted

/-- A session without steps has one result. -/
theorem CanGive.of_pure {c : α} (h : CanGive (pure c) a) : a = c := by
  obtain ⟨log, h⟩ := h
  cases h
  rfl

/-- A failure has no result. -/
theorem not_canGive_throw (fault : RunFault) : ¬ CanGive (throw fault) a := by
  rintro ⟨log, h⟩
  cases h

/-- A session without steps always ends. -/
theorem gives_pure (a : α) : Gives (pure a) a :=
  fun _ => rfl

/-- Throwing a fault fails. -/
theorem fails_throw (fault : RunFault) : Fails (throw fault : Session α) fault :=
  fun _ => rfl

/-- Taking a note always ends. -/
theorem gives_note (line : String) : Gives (note line) () :=
  fun _ => rfl

end Session

/-! ## Reading values -/

open Session

variable {w : Nat} {p : Policy} {m : Int} {v : Value w} {text out : String} {texts : List String}

/-- A text is read as the value that its constraint and its counter make. -/
theorem exists_reading_of_readValue {v? : Option (Value w)} (h : CanGive (readValue p w text) v?) :
    ∃ reading, ValueText.read w text = .ok reading ∧
      v? = p.make? reading.constraint reading.widen := by
  unfold readValue at h
  split at h
  · exact (not_canGive_throw _ h).elim
  · rename_i reading hread
    obtain ⟨-, -, h⟩ := h.of_bind
    exact ⟨reading, hread, h.of_pure⟩

/-- A text that describes a set is read as the value of that set. -/
theorem gives_readValue {reading : ValueText.Reading w} (h : ValueText.read w text = .ok reading) :
    Gives (readValue p w text) (p.make? reading.constraint reading.widen) := by
  unfold readValue
  rw [h]
  exact (gives_note _).bind (gives_pure _)

/-- A value that is read is kept. -/
theorem kept_of_readValue (hm : p.IsCounterBound m) (hsize : 2 ^ 63 - 1 ≤ m)
    (h : CanGive (readValue p w text) (some v)) : p.Kept m v := by
  obtain ⟨reading, hread, hmake⟩ := exists_reading_of_readValue h
  have hwiden := ValueText.widen_lt_of_read hread
  exact Policy.kept_of_make? hm (by omega) hmake.symm

/-- Values that are read are kept, and there is one for each text. -/
theorem kept_of_readValues {vs : List (Value w)} (hm : p.IsCounterBound m)
    (hsize : 2 ^ 63 - 1 ≤ m) (h : CanGive (readValues p w texts) vs) :
    vs.length = texts.length ∧ ∀ v ∈ vs, p.Kept m v := by
  induction texts generalizing vs with
  | nil =>
      rw [h.of_pure]
      exact ⟨rfl, by simp⟩
  | cons text texts ih =>
      obtain ⟨first, hfirst, h⟩ := h.of_bind
      cases first with
      | none => exact (not_canGive_throw _ h).elim
      | some v =>
          obtain ⟨us, hus, h⟩ := h.of_bind
          obtain ⟨hlength, hkept⟩ := ih hus
          rw [h.of_pure]
          exact ⟨congrArg (· + 1) hlength,
            List.forall_mem_cons.mpr ⟨kept_of_readValue hm hsize hfirst, hkept⟩⟩

/-! ## Combining values -/

/-- The hull of several kept values is kept. -/
theorem kept_foldl_hull {vs : List (Value w)} (hm : p.IsCounterBound m) (hv : p.Kept m v)
    (hvs : ∀ u ∈ vs, p.Kept m u) : p.Kept m (vs.foldl p.hull v) := by
  induction vs generalizing v with
  | nil => exact hv
  | cons u us ih =>
      rw [List.forall_mem_cons] at hvs
      exact ih (hv.hull hm hvs.1) hvs.2

/-- The intersection of several values is kept if the first one is. -/
theorem kept_intersectAll? {vs : List (Value w)} {r : Value w} (hm : p.IsCounterBound m)
    (hv : p.Kept m v) (h : intersectAll? p v vs = some r) : p.Kept m r := by
  induction vs generalizing v with
  | nil =>
      cases h
      exact hv
  | cons u us ih =>
      obtain ⟨c, hc, h⟩ := Option.bind_eq_some_iff.mp h
      exact ih (hv.intersect hm hc) h

/-- Operations keep values within the policy. -/
theorem Operation.kept_apply? {op : Operation} {others : List (Value w)} {r : Value w}
    (hm : p.IsCounterBound m) (hv : p.Kept m v) (hothers : ∀ u ∈ others, p.Kept m u)
    (h : op.apply? p v others = some r) : p.Kept m r := by
  have hold : ∀ o, others.head? = some o → p.Kept m o :=
    fun o ho => hothers o (List.mem_of_head? ho)
  cases op with
  | canon =>
      cases h
      exact hv
  | contains =>
      cases h
      exact hv
  | meet =>
      cases h
      exact kept_foldl_hull hm hv hothers
  | join => exact kept_intersectAll? hm hv h
  | widen =>
      cases h
      exact hv.widen hm hold _
  | narrow =>
      cases h
      exact hv.narrow hold

/-! ## Printing values -/

/-- Results are printed as texts that can be read. -/
def Style.plain : Style := ⟨false, false⟩

/-- A line is the word for the empty set or the text of a kept value. -/
def IsResult (p : Policy) (m : Int) (w : Nat) (out : String) : Prop :=
  out = "empty\n" ∨ ∃ v : Value w, p.Kept m v ∧ out = ValueText.write v ++ "\n"

/-- A result that is kept, if there is one, is printed as such. -/
theorem isResult_plain {v? : Option (Value w)} (h : ∀ v, v? = some v → p.Kept m v) :
    IsResult p m w (Style.plain.result v?) := by
  cases v? with
  | none => exact .inl rfl
  | some v => exact .inr ⟨v, h v rfl, rfl⟩

/-- What is printed for the canonical form of a value. -/
theorem isResult_of_runCanon (hm : p.IsCounterBound m) (hsize : 2 ^ 63 - 1 ≤ m)
    (h : CanGive (runCanon p w .plain texts) out) : IsResult p m w out := by
  obtain ⟨v?, hv, h⟩ := h.of_bind
  cases v? with
  | none => exact .inl h.of_pure
  | some v =>
      obtain ⟨-, -, h⟩ := h.of_bind
      exact .inr ⟨v, kept_of_readValue hm hsize hv, h.of_pure⟩

/-- What is printed for several values. -/
theorem isResult_of_runCombining {op : Operation} (hm : p.IsCounterBound m)
    (hsize : 2 ^ 63 - 1 ≤ m) (htexts : texts ≠ [])
    (h : CanGive (runCombining op p w .plain texts) out) : IsResult p m w out := by
  obtain ⟨vs, hvs, h⟩ := h.of_bind
  obtain ⟨hlength, hkept⟩ := kept_of_readValues hm hsize hvs
  cases vs with
  | nil => exact (htexts (List.length_eq_zero_iff.mp hlength.symm)).elim
  | cons v vs =>
      rw [List.forall_mem_cons] at hkept
      obtain ⟨-, -, h⟩ := h.of_bind
      rw [h.of_pure]
      exact isResult_plain fun r => Operation.kept_apply? hm hkept.1 hkept.2

/-- Every operation but the test of a member prints the word for the empty set or a value. -/
theorem Operation.isResult_of_run {op : Operation} (hm : p.IsCounterBound m)
    (hsize : 2 ^ 63 - 1 ≤ m) (hop : op ≠ .contains) (htexts : texts ≠ [])
    (h : CanGive (op.run p w .plain texts) out) : IsResult p m w out := by
  cases op with
  | contains => exact (hop rfl).elim
  | canon => exact isResult_of_runCanon hm hsize h
  | meet | join | widen | narrow => exact isResult_of_runCombining hm hsize htexts h

/-- The canonical form of a printed value is printed in the same way. -/
theorem Operation.gives_canon_write (hv : p.Valid v) (hcounter : v.widen < 2 ^ 63) :
    Gives (Operation.canon.run p w .plain [ValueText.write v]) (ValueText.write v ++ "\n") := by
  obtain ⟨u, hu, hwrite⟩ := ValueText.exists_make?_write_eq hv
  have hread := gives_readValue (p := p) (ValueText.read_write hv hcounter)
  rw [hu] at hread
  refine hread.bind ((gives_note _).bind ?_)
  rw [← hwrite]
  exact gives_pure _

/-! ## Widths -/

/-- The number of bits of a word that values can have. -/
def widthsOfValues : List Nat := [8, 16, 32, 64]

/-- Words have at most 64 bits. -/
theorem le_of_mem_widthsOfValues : ∀ w ∈ widthsOfValues, w ≤ 64 := by
  decide

/-- At one of the widths of values an operation is run on values of that width. -/
theorem Operation.runAt_eq (op : Operation) (style : Style) (texts : List String)
    (hw : w ∈ widthsOfValues) : op.runAt p w style texts = op.run p w style texts := by
  simp only [widthsOfValues, List.mem_cons, List.not_mem_nil, or_false] at hw
  rcases hw with rfl | rfl | rfl | rfl <;> rfl

/-- An operation gives results at the widths of values only. -/
theorem Operation.exists_width_of_runAt {op : Operation} {width : Int} {style : Style}
    (h : CanGive (op.runAt p width style texts) out) : ∃ w ∈ widthsOfValues, width = (w : Int) := by
  unfold Operation.runAt at h
  split at h
  · exact ⟨8, by decide, by assumption⟩
  split at h
  · exact ⟨16, by decide, by assumption⟩
  split at h
  · exact ⟨32, by decide, by assumption⟩
  split at h
  · exact ⟨64, by decide, by assumption⟩
  · exact (not_canGive_throw _ h).elim

end WordRanges
