import WordRanges.Config.Toml.Reader
import WordRanges.Proofs.Text.Numerals

/-!
# Integers of configuration documents

Every integer of a configuration document was read as a number of 64 bits, and all that a reader
does with the tables of a document is to put items into them.  So all integers of a document have
64 bits.

Main results:

- Theorem {lit}`Toml.sized_of_changeAt?`: changing a table within a document.
- Theorem {lit}`Toml.sized_of_value?`: what reading a value keeps.
- Theorem {lit}`Toml.sized_of_read?`: the integers of a document have 64 bits.
-/

namespace WordRanges
namespace Toml

/-! ## Items whose integers have 64 bits -/

/-- All integers of an item have 64 bits. -/
inductive Item.Sized : Item → Prop where
  | integer {n : Int} (h : -2 ^ 63 ≤ n ∧ n < 2 ^ 63) : Sized (.integer n)
  | float : Sized .float
  | boolean (b : Bool) : Sized (.boolean b)
  | text : Sized .text
  | datetime : Sized .datetime
  | array : Sized .array
  | table {entries : List (String × Item)} (h : ∀ e ∈ entries, e.2.Sized) : Sized (.table entries)
  | tables {elements : List (List (String × Item))} (h : ∀ t ∈ elements, ∀ e ∈ t, e.2.Sized) :
      Sized (.tables elements)

/-- All integers of a table have 64 bits. -/
def Table.Sized (t : Table) : Prop :=
  ∀ e ∈ t, e.2.Sized

variable {t u : Table} {name : String} {item : Item} {path : List String} {d d' : Draft}
variable {cs cs' : List Char}

/-- What a name stands for is an item of its table. -/
theorem Table.Sized.lookup (h : t.Sized) (hitem : t.lookup name = some item) : item.Sized := by
  obtain ⟨before, after, rfl, -⟩ := List.lookup_eq_some_iff.mp hitem
  exact h (name, item) (List.mem_append_right before List.mem_cons_self)

/-- Putting an item into a table. -/
theorem Table.Sized.put (h : t.Sized) (hitem : item.Sized) : (put name item t).Sized := by
  induction t with
  | nil => exact List.forall_mem_singleton.mpr hitem
  | cons e t ih =>
      obtain ⟨he, ht⟩ := List.forall_mem_cons.mp h
      rw [Toml.put]
      split
      · exact List.forall_mem_cons.mpr ⟨hitem, ht⟩
      · exact List.forall_mem_cons.mpr ⟨he, ih ht⟩

/-- What a path leads to is an item of the table. -/
theorem Table.Sized.find? (h : t.Sized) (hitem : find? t path = some item) : item.Sized := by
  induction path generalizing t with
  | nil =>
      cases hitem
      exact .table h
  | cons name path ih =>
      rw [Toml.find?] at hitem
      split at hitem
      · cases hitem
      · rename_i u hu
        cases h.lookup hu with
        | table hsized => exact ih hsized hitem
      · rename_i found _ hfound
        split at hitem
        · cases hitem
          exact h.lookup hfound
        · cases hitem

/-- A table within a document is changed to one whose integers have 64 bits. -/
theorem sized_of_changeAt? {change : Table → Option Table}
    (hchange : ∀ t u, Table.Sized t → change t = some u → Table.Sized u) (ht : t.Sized)
    (h : changeAt? change path t = some u) : u.Sized := by
  induction path generalizing t u with
  | nil => exact hchange t u ht h
  | cons name path ih =>
      rw [changeAt?] at h
      split at h
      · rename_i inner hinner
        obtain ⟨changed, hchanged, rfl⟩ := Option.map_eq_some_iff.mp h
        cases ht.lookup hinner with
        | table hsized => exact ht.put (.table (ih hsized hchanged))
      · rename_i inners hinners
        obtain ⟨last, hlast, h⟩ := Option.bind_eq_some_iff.mp h
        obtain ⟨changed, hchanged, h⟩ := Option.bind_eq_some_iff.mp h
        cases h
        cases ht.lookup hinners with
        | tables hsized =>
            refine ht.put (.tables fun t' ht' => ?_)
            rcases List.mem_append.mp ht' with ht' | ht'
            · exact hsized t' (List.dropLast_subset inners ht')
            · rw [List.mem_singleton.mp ht']
              exact ih (hsized last (List.mem_of_getLast? hlast)) hchanged
      · cases h

/-! ## Drafts -/

/-- All integers of a draft have 64 bits. -/
def Draft.Sized (d : Draft) : Prop :=
  d.table.Sized

/-- Putting an item at the end of a path. -/
theorem Draft.Sized.put (h : d.Sized) (hitem : item.Sized)
    (hu : changeAt? (fun t => some (Toml.put name item t)) path d.table = some u) : u.Sized := by
  refine sized_of_changeAt? (fun t u ht hu => ?_) h hu
  cases hu
  exact ht.put hitem

/-- Giving a name a value. -/
theorem Draft.Sized.set? (h : d.Sized) (hitem : item.Sized) (hd : d.set? name item = some d') :
    d'.Sized := by
  unfold Draft.set? at hd
  obtain ⟨t, -, hd⟩ := Option.bind_eq_some_iff.mp hd
  simp only at hd
  split at hd
  · obtain ⟨u, hu, hd⟩ := Option.bind_eq_some_iff.mp hd
    cases hd
    have hu : u.Sized := h.put hitem hu
    unfold Draft.Sized
    split <;> exact hu
  · split at hd
    · cases hd
      exact h
    · cases hd

/-- Making the tables on the way along a path. -/
theorem Draft.Sized.implyParents? {done : List String} (h : d.Sized)
    (hd : d.implyParents? done path = some d') : d'.Sized := by
  induction path generalizing done d with
  | nil =>
      cases hd
      exact h
  | cons name path ih =>
      cases path with
      | nil =>
          cases hd
          exact h
      | cons next path =>
          rw [Draft.implyParents?] at hd
          · obtain ⟨t, -, hd⟩ := Option.bind_eq_some_iff.mp hd
            simp only at hd
            split at hd
            · obtain ⟨u, hu, hd⟩ := Option.bind_eq_some_iff.mp hd
              refine ih ?_ hd
              exact h.put (.table (List.forall_mem_nil _)) hu
            · exact ih h hd
            · exact ih h hd
            · cases hd
          · exact List.cons_ne_nil next path

/-- Opening a table. -/
theorem Draft.Sized.enter? (h : d.Sized) (hd : d.enter? path = some d') : d'.Sized := by
  unfold Draft.enter? at hd
  obtain ⟨first, hfirst, hd⟩ := Option.bind_eq_some_iff.mp hd
  obtain ⟨second, hsecond, hd⟩ := Option.bind_eq_some_iff.mp hd
  cases hd
  have hparents : first.Sized := h.implyParents? hfirst
  have hopen : Draft.Sized { first with context := path.dropLast } := hparents
  have hdone : second.Sized := hopen.set? (.table (List.forall_mem_nil _)) hsecond
  exact hdone

/-- Opening one more table. -/
theorem Draft.Sized.enterNext? (h : d.Sized) (hd : d.enterNext? path = some d') : d'.Sized := by
  unfold Draft.enterNext? at hd
  obtain ⟨first, hfirst, hd⟩ := Option.bind_eq_some_iff.mp hd
  obtain ⟨u, hu, hd⟩ := Option.bind_eq_some_iff.mp hd
  cases hd
  refine sized_of_changeAt? (fun t u ht hu => ?_) (h.implyParents? hfirst) hu
  split at hu
  · cases hu
    exact ht.put (.tables (by simp))
  · rename_i inners hinners
    cases hu
    cases ht.lookup hinners with
    | tables hsized =>
        refine ht.put (.tables fun t' ht' => ?_)
        rcases List.mem_append.mp ht' with ht' | ht'
        · exact hsized t' ht'
        · rw [List.mem_singleton.mp ht']
          exact List.forall_mem_nil _
  · cases hu

/-- Opening tables one inside the other. -/
theorem Draft.Sized.enterImplied? (h : d.Sized) (hd : d.enterImplied? path = some d') :
    d'.Sized := by
  unfold Draft.enterImplied? at hd
  induction path generalizing d with
  | nil =>
      cases hd
      exact h
  | cons name path ih =>
      rw [List.foldlM_cons] at hd
      obtain ⟨next, hnext, hd⟩ := Option.bind_eq_some_iff.mp hd
      have himplied : (d.imply (d.context ++ [name])).Sized := h
      exact ih (himplied.enter? hnext) hd

/-! ## Reading -/

/-- The item of a run of digits. -/
theorem sized_of_numberItem? {run : Run} (h : numberItem? run = some item) : item.Sized := by
  unfold numberItem? at h
  split at h
  · obtain ⟨n, hn, rfl⟩ := Option.map_eq_some_iff.mp h
    unfold readInteger? at hn
    split at hn
    · cases hn
    · cases hread : Numeral.readSigned 64 run.text with
      | error fault =>
          rw [hread] at hn
          cases hn
      | ok m =>
          rw [hread] at hn
          cases hn
          exact .integer (Numeral.range_of_readSigned hread)
  · split at h
    · cases h
      exact .float
    · cases h
  · split at h
    · cases h
      exact .datetime
    · cases h

/-- Reading a value keeps all integers at 64 bits. -/
def KeepsSized (value : ValueReader) : Prop :=
  ∀ name inArray cs d item cs' d', Draft.Sized d → value name inArray cs d = some (item, cs', d') →
    item.Sized ∧ d'.Sized

section Readers

variable {value : ValueReader} {fuel : Nat}

/-- Reading the elements of an array. -/
theorem KeepsSized.arrayRest? (hvalue : KeepsSized value) (h : d.Sized)
    (hd : arrayRest? value name fuel cs d = some (cs', d')) : d'.Sized := by
  induction fuel generalizing cs d with
  | zero => cases hd
  | succ fuel ih =>
      rw [Toml.arrayRest?] at hd
      obtain ⟨start, -, hd⟩ := Option.bind_eq_some_iff.mp hd
      split at hd
      · cases hd
        exact h
      · obtain ⟨⟨item, rest, next⟩, hitem, hd⟩ := Option.bind_eq_some_iff.mp hd
        have hnext := (hvalue _ _ _ _ _ _ _ h hitem).2
        obtain ⟨after, -, hd⟩ := Option.bind_eq_some_iff.mp hd
        split at hd
        · exact ih hnext hd
        · cases hd
          exact hnext
        · cases hd

/-- Reading a name with its value. -/
theorem KeepsSized.pair? (hvalue : KeepsSized value) (h : d.Sized)
    (hd : pair? value cs d = some ((name, item), cs', d')) : item.Sized ∧ d'.Sized := by
  unfold Toml.pair? at hd
  obtain ⟨⟨names, rest⟩, -, hd⟩ := Option.bind_eq_some_iff.mp hd
  obtain ⟨opened, hopened, hd⟩ := Option.bind_eq_some_iff.mp hd
  obtain ⟨⟨found, rest, next⟩, hfound, hd⟩ := Option.bind_eq_some_iff.mp hd
  obtain ⟨done, hdone, hd⟩ := Option.bind_eq_some_iff.mp hd
  cases hd
  obtain ⟨hitem, hnext⟩ := hvalue _ _ _ _ _ _ _ (h.enterImplied? hopened) hfound
  have hdone : done.Sized := hnext.set? hitem hdone
  exact ⟨hitem, hdone⟩

/-- Reading the pairs of a table within a line. -/
theorem KeepsSized.inlineRest? {done : Table} (hvalue : KeepsSized value) (h : d.Sized)
    (hdone : done.Sized) (hd : inlineRest? value fuel done cs d = some (t, cs', d')) :
    t.Sized ∧ d'.Sized := by
  induction fuel generalizing cs d done with
  | zero => cases hd
  | succ fuel ih =>
      rw [Toml.inlineRest?] at hd
      obtain ⟨start, -, hd⟩ := Option.bind_eq_some_iff.mp hd
      split at hd
      · cases hd
        exact ⟨hdone, h⟩
      · obtain ⟨⟨⟨key, item⟩, rest, next⟩, hpair, hd⟩ := Option.bind_eq_some_iff.mp hd
        obtain ⟨hitem, hnext⟩ := hvalue.pair? h hpair
        obtain ⟨after, -, hd⟩ := Option.bind_eq_some_iff.mp hd
        split at hd
        · split at hd
          · cases hd
          · exact ih hnext (hdone.put hitem) hd
        · cases hd
          exact ⟨hdone.put hitem, hnext⟩
        · cases hd

end Readers

/-- Reading a value keeps all integers at 64 bits. -/
theorem sized_of_value? (fuel : Nat) : KeepsSized (value? fuel) := by
  induction fuel with
  | zero =>
      intro name inArray cs d item cs' d' _ h
      cases h
  | succ fuel ih =>
      intro name inArray cs d item cs' d' hd h
      rw [value?] at h
      split at h
      · -- The items of an array are not kept, but tables within them may be.
        obtain ⟨⟨rest, next⟩, hrest, h⟩ := Option.bind_eq_some_iff.mp h
        cases h
        have hmarked : (d.markArray name true).Sized := hd
        exact ⟨.array, ih.arrayRest? hmarked hrest⟩
      · rename_i rest _
        have himplied : (d.imply (d.context ++ [name])).Sized := hd
        have hinline {next last : Draft} {entries : Table} {after : List Char} (hnext : next.Sized)
            (hrest : inlineRest? (value? fuel) (rest.length + 1) [] rest next =
              some (entries, after, last)) : (Item.table entries).Sized ∧ last.Sized :=
          (ih.inlineRest? hnext (List.forall_mem_nil _) hrest).imp_left .table
        simp only at h
        split at h
        · obtain ⟨next, hnext, h⟩ := Option.bind_eq_some_iff.mp h
          obtain ⟨⟨entries, after, last⟩, hrest, h⟩ := Option.bind_eq_some_iff.mp h
          cases h
          obtain ⟨htable, hlast⟩ := hinline (himplied.enterNext? hnext) hrest
          exact ⟨htable, hlast⟩
        · obtain ⟨next, hnext, h⟩ := Option.bind_eq_some_iff.mp h
          obtain ⟨⟨entries, after, last⟩, hrest, h⟩ := Option.bind_eq_some_iff.mp h
          cases h
          obtain ⟨htable, hlast⟩ := hinline (himplied.enter? hnext) hrest
          exact ⟨htable, hlast⟩
      -- The four kinds of quotes.
      iterate 4
        · obtain ⟨rest, -, h⟩ := Option.bind_eq_some_iff.mp h
          cases h
          exact ⟨.text, hd⟩
      · -- Numbers and names without quotes; only a run of digits can be an integer.
        have hnumber {run : Run} {rest : List Char}
            (h : ((numberItem? run).bind fun number => some (number, rest, d)) =
              some (item, cs', d')) :
            item.Sized ∧ d'.Sized := by
          obtain ⟨number, hnumber, h⟩ := Option.bind_eq_some_iff.mp h
          cases h
          exact ⟨sized_of_numberItem? hnumber, hd⟩
        split at h
        · obtain ⟨run, -, h⟩ := Option.bind_eq_some_iff.mp h
          exact hnumber h
        · split at h
          · split at h
            · cases h
              exact ⟨.float, hd⟩
            · obtain ⟨run, -, h⟩ := Option.bind_eq_some_iff.mp h
              exact hnumber h
          · split at h
            · cases h
              exact ⟨.float, hd⟩
            · simp only at h
              split at h
              · cases h
                exact ⟨.boolean _, hd⟩
              · cases h
      · cases h

/-- Reading the lines of a document. -/
theorem sized_of_lines? {fuel : Nat} (h : d.Sized) (hd : lines? fuel cs d = some d') :
    d'.Sized := by
  induction fuel generalizing cs d with
  | zero => cases hd
  | succ fuel ih =>
      rw [lines?] at hd
      obtain ⟨start, -, hd⟩ := Option.bind_eq_some_iff.mp hd
      split at hd
      · cases hd
        exact h
      · obtain ⟨⟨path, rest⟩, -, hd⟩ := Option.bind_eq_some_iff.mp hd
        obtain ⟨after, -, hd⟩ := Option.bind_eq_some_iff.mp hd
        obtain ⟨next, hnext, hd⟩ := Option.bind_eq_some_iff.mp hd
        obtain ⟨line, -, hd⟩ := Option.bind_eq_some_iff.mp hd
        have hopened : next.Sized := h.enterNext? hnext
        have hmarked : (next.markArray "" false).Sized := hopened
        exact ih hmarked hd
      · obtain ⟨⟨path, rest⟩, -, hd⟩ := Option.bind_eq_some_iff.mp hd
        obtain ⟨next, hnext, hd⟩ := Option.bind_eq_some_iff.mp hd
        obtain ⟨line, -, hd⟩ := Option.bind_eq_some_iff.mp hd
        have hopened : next.Sized := h.enter? hnext
        have hmarked : (next.markArray "" false).Sized := hopened
        exact ih hmarked hd
      · obtain ⟨⟨⟨key, item⟩, rest, next⟩, hnext, hd⟩ := Option.bind_eq_some_iff.mp hd
        obtain ⟨line, -, hd⟩ := Option.bind_eq_some_iff.mp hd
        exact ih ((sized_of_value? _).pair? h hnext).2 hd

/-- The integers of a document have 64 bits. -/
theorem sized_of_read? {text : String} (h : read? text = some t) : t.Sized := by
  unfold read? at h
  simp only at h
  split at h
  · cases h
  · obtain ⟨d, hd, rfl⟩ := Option.map_eq_some_iff.mp h
    have hempty : Draft.empty.Sized := List.forall_mem_nil _
    exact sized_of_lines? hempty hd

end Toml

end WordRanges
