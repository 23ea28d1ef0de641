import Mathlib.Data.List.Range
import WordRanges.Config.Settings

/-!
# The search for configuration files

The search looks into a directory and then into its parent, until it has looked into the root,
which is its own parent.  It finds the layers of all files on its way unless one of them cannot be
opened or decoded; then the nearest such file ends it.  What it has found is turned around by
exchanging elements in pairs, so that nearer layers come later.

Main results:

- Theorem {lit}`Path.mem_ancestors_iff`: the directories on the way to the root are the prefixes of
  a path.
- Theorem {lit}`Settings.search_eq_foldlM`: the search looks into all of them in turn.
- Theorem {lit}`Settings.turn_eq_reverse`: exchanging elements in pairs turns an array around.
- Theorems {lit}`Settings.layers_eq_ok` and {lit}`Settings.layers_eq_error`: what the search leads
  to.
-/

namespace WordRanges

/-! ## The way to the root -/

namespace Path

variable {path p q : Path}

/-- The directories on the way to the root are the prefixes of a path. -/
theorem mem_ancestors_iff : p ∈ ancestors path ↔ p <+: path := by
  simp only [ancestors, List.mem_map, List.mem_range]
  constructor
  · rintro ⟨up, -, rfl⟩
    exact List.take_prefix _ _
  · intro h
    have hle := h.length_le
    refine ⟨path.length - p.length, by omega, ?_⟩
    rw [Nat.sub_sub_self hle]
    exact (List.prefix_iff_eq_take.mp h).symm

/-- Only the root is its own parent. -/
theorem parent_eq_self_iff : path.parent = path ↔ path = [] := by
  constructor
  · intro h
    have hlength := congrArg List.length h
    rw [parent, List.length_dropLast] at hlength
    exact List.eq_nil_of_length_eq_zero (by omega)
  · rintro rfl
    rfl

/-- The way to the root goes on from the parent. -/
theorem ancestors_eq_cons (h : path ≠ []) : path.ancestors = path :: path.parent.ancestors := by
  have hlength : path.parent.length + 1 = path.length := by
    have hpos := List.length_pos_iff.mpr h
    rw [parent, List.length_dropLast]
    omega
  unfold ancestors
  rw [List.range_succ_eq_map, List.map_cons, Nat.sub_zero, List.take_length, hlength, List.map_map]
  congr 1
  refine List.map_congr_left fun up _ => ?_
  rw [Function.comp_apply, parent, List.dropLast_eq_take, List.take_take, List.length_take]
  congr 1
  omega

/-- The way to the root gets shorter with each directory. -/
theorem pairwise_ancestors (path : Path) :
    path.ancestors.Pairwise fun p q => q.length < p.length := by
  refine List.pairwise_map.mpr (List.pairwise_lt_range.imp_of_mem fun ha hb hlt => ?_)
  rw [List.mem_range] at ha hb
  rw [List.length_take, List.length_take]
  omega

/-- The way to the root starts at the directory, goes on to the parent each time, and ends at the
root. -/
theorem ancestors_walk (path : Path) :
    path.ancestors.head? = some path ∧ path.ancestors.getLast? = some [] ∧
      path.ancestors.IsChain fun p q : Path => p ≠ [] ∧ q = p.parent := by
  unfold ancestors
  refine ⟨?_, ?_, ?_⟩
  · rw [List.head?_map, List.head?_range, if_neg (Nat.succ_ne_zero _), Option.map_some,
      Nat.sub_zero, List.take_length]
  · rw [List.getLast?_map, List.getLast?_range, if_neg (Nat.succ_ne_zero _), Option.map_some,
      Nat.add_sub_cancel, Nat.sub_self, List.take_zero]
  · rw [List.isChain_map, List.isChain_range_succ]
    intro up hup
    constructor
    · rw [Ne, List.take_eq_nil_iff, not_or]
      refine ⟨by omega, ?_⟩
      rintro rfl
      exact absurd hup (Nat.not_lt_zero up)
    · rw [parent, List.dropLast_eq_take, List.take_take, List.length_take]
      congr 1
      omega

/-- If the first directory on the way to the root that has something is {lit}`p`, nearer
directories do not have it. -/
theorem not_of_nearer {P : Path → Prop} {before after : List Path}
    (hsplit : path.ancestors = before ++ p :: after) (hbefore : ∀ q ∈ before, P q)
    (hq : q <+: path) (hlt : p.length < q.length) : P q := by
  have hordered := path.pairwise_ancestors
  rw [hsplit, List.pairwise_append, List.pairwise_cons] at hordered
  rw [← mem_ancestors_iff, hsplit, List.mem_append, List.mem_cons] at hq
  rcases hq with hq | rfl | hq
  · exact hbefore q hq
  · exact absurd hlt (Nat.lt_irrefl _)
  · exact absurd (hordered.2.1.1 q hq) (Nat.not_lt_of_gt hlt)

end Path

namespace Settings

/-! ## Turning an array around -/

section Turning

variable {α : Type} {elements : Array α} {i j k : Nat}

/-- Two elements of an array that are exchanged. -/
theorem getElem?_swapIfInBounds (hi : i < elements.size) (hj : j < elements.size) (k : Nat) :
    (elements.swapIfInBounds i j)[k]? =
      if k = i then elements[j]? else if k = j then elements[i]? else elements[k]? := by
  rw [Array.swapIfInBounds, dif_pos hi, dif_pos hj, Array.getElem?_swap]
  grind

/-- After a number of exchanges that many elements at both ends have changed places. -/
theorem getElem?_foldl_swap (hk : k ≤ elements.size / 2) :
    ((List.range k).foldl (fun turned i => turned.swapIfInBounds i (turned.size - 1 - i))
        elements).size = elements.size ∧
      ∀ j < elements.size,
        ((List.range k).foldl (fun turned i => turned.swapIfInBounds i (turned.size - 1 - i))
          elements)[j]? =
        if j < k ∨ elements.size - k ≤ j then elements[elements.size - 1 - j]?
        else elements[j]? := by
  induction k with
  | zero =>
      refine ⟨rfl, fun j hj => ?_⟩
      rw [if_neg (by omega)]
      rfl
  | succ k ih =>
      obtain ⟨hsize, hcells⟩ := ih (by omega)
      rw [List.range_succ, List.foldl_append, List.foldl_cons, List.foldl_nil, hsize]
      refine ⟨by rw [Array.size_swapIfInBounds, hsize], fun j hj => ?_⟩
      rw [getElem?_swapIfInBounds (by omega) (by omega), hcells _ (by omega), hcells k (by omega),
        hcells j hj]
      -- The two elements that are exchanged last were still in their places.
      split
      · rename_i hleft
        rw [if_neg (by omega), if_pos (by omega), hleft]
      · split
        · rename_i hright
          rw [if_neg (by omega), if_pos (by omega)]
          congr 1
          omega
        · by_cases hends : j < k ∨ elements.size - k ≤ j
          · rw [if_pos hends, if_pos (by omega)]
          · rw [if_neg hends, if_neg (by omega)]

/-- Exchanging elements in pairs from both ends turns an array around. -/
theorem turn_eq_reverse (elements : Array α) : turn elements = elements.reverse := by
  obtain ⟨hsize, hcells⟩ := getElem?_foldl_swap (Nat.le_refl (elements.size / 2))
  refine Array.ext_getElem? fun j => ?_
  rcases Nat.lt_or_ge j elements.size with hj | hj
  · rw [turn, hcells j hj, Array.getElem?_reverse hj]
    -- An element in the middle is its own counterpart.
    split
    · rfl
    · congr 1
      omega
  · rw [Array.getElem?_eq_none (by rw [turn, hsize]; exact hj),
      Array.getElem?_eq_none (by rw [Array.size_reverse]; exact hj)]

end Turning

/-! ## Looking into directories -/

variable {decode : File → Except String Layer} {open_ : Path → Opened} {directory p : Path}

/-- The layer of the configuration file of a directory, if there is one that can be decoded. -/
def layerAt (decode : File → Except String Layer) (open_ : Path → Opened) (directory : Path) :
    Option Layer :=
  match open_ (fileIn directory) with
  | .found file => (decode file).toOption
  | _ => none

/-- The configuration file of a directory is there but cannot be opened or decoded. -/
inductive FailsAt (decode : File → Except String Layer) (open_ : Path → Opened)
    (directory : Path) : Fault → Prop where
  | refused {reason : String} (h : open_ (fileIn directory) = .refused reason) :
      FailsAt decode open_ directory (.unreadable (fileIn directory) reason)
  | malformed {file : File} {reason : String} (h : open_ (fileIn directory) = .found file)
      (hdecode : decode file = .error reason) :
      FailsAt decode open_ directory (.malformed (fileIn directory) reason)

/-- What looking into a directory can lead to: it finds its layer or nothing, or its configuration
file is a fault. -/
theorem look_cases (decode : File → Except String Layer) (open_ : Path → Opened)
    (directory : Path) :
    (∀ found, look decode open_ directory found =
        .ok (found ++ (layerAt decode open_ directory).toArray)) ∧
        (∀ fault, ¬ FailsAt decode open_ directory fault) ∨
      ∃ fault, FailsAt decode open_ directory fault ∧
        ∀ found, look decode open_ directory found = .error fault := by
  cases hopen : open_ (fileIn directory) with
  | missing =>
      refine .inl ⟨fun found => by simp [look, layerAt, hopen], fun fault hfails => ?_⟩
      cases hfails with
      | refused h => cases hopen.symm.trans h
      | malformed h => cases hopen.symm.trans h
  | refused reason => exact .inr ⟨_, .refused hopen, fun found => by simp [look, hopen]⟩
  | found file =>
      cases hdecode : decode file with
      | error reason =>
          exact .inr ⟨_, .malformed hopen hdecode, fun found => by simp [look, hopen, hdecode]⟩
      | ok layer =>
          have hlayer : layerAt decode open_ directory = some layer := by
            simp [layerAt, hopen, hdecode, Except.toOption]
          refine .inl ⟨fun found => by simp [look, hlayer, hopen, hdecode], fun fault hfails => ?_⟩
          cases hfails with
          | refused h => cases hopen.symm.trans h
          | malformed h hbad =>
              cases hopen.symm.trans h
              cases hdecode.symm.trans hbad

/-- The search looks into all directories on the way to the root, one after the other. -/
theorem search_eq_foldlM (decode : File → Except String Layer) (open_ : Path → Opened)
    (directory : Path) (found : Array Layer) :
    search decode open_ directory found =
      directory.ancestors.foldlM (fun found p => look decode open_ p found) found := by
  fun_induction search decode open_ directory found with
  | case1 directory found fault hlook =>
      obtain ⟨rest, hrest⟩ : ∃ rest, directory.ancestors = directory :: rest :=
        List.head?_eq_some_iff.mp directory.ancestors_walk.1
      rw [hrest, List.foldlM_cons, hlook]
      rfl
  | case2 directory found more hlook hroot =>
      obtain rfl := Path.parent_eq_self_iff.mp hroot
      have hancestors : Path.ancestors [] = [[]] := rfl
      rw [hancestors, List.foldlM_cons, hlook]
      rfl
  | case3 directory found more hlook hroot ih =>
      rw [Path.ancestors_eq_cons fun hnil => hroot (Path.parent_eq_self_iff.mpr hnil),
        List.foldlM_cons, hlook, ih]
      rfl

/-- Directories without faults have layers. -/
theorem foldlM_look_eq_ok {directories : List Path}
    (h : ∀ p ∈ directories, ∀ fault, ¬ FailsAt decode open_ p fault) (found : Array Layer) :
    directories.foldlM (fun found p => look decode open_ p found) found =
      .ok (found ++ (directories.filterMap (layerAt decode open_)).toArray) := by
  induction directories generalizing found with
  | nil => simp [pure, Except.pure]
  | cons directory directories ih =>
      obtain ⟨hfirst, hrest⟩ := List.forall_mem_cons.mp h
      rcases look_cases decode open_ directory with ⟨hlook, -⟩ | ⟨fault, hfails, -⟩
      · rw [List.foldlM_cons, hlook found]
        refine (ih hrest _).trans ?_
        cases hlayer : layerAt decode open_ directory with
        | none => rw [List.filterMap_cons_none hlayer]; simp
        | some layer => rw [List.filterMap_cons_some hlayer]; simp
      · exact absurd hfails (hfirst fault)

/-- The first fault ends a search. -/
theorem foldlM_look_eq_error {before after : List Path} {fault : Fault}
    (hbefore : ∀ q ∈ before, ∀ fault, ¬ FailsAt decode open_ q fault)
    (hp : FailsAt decode open_ p fault) (found : Array Layer) :
    ∃ first, FailsAt decode open_ p first ∧
      (before ++ p :: after).foldlM (fun found p => look decode open_ p found) found =
        .error first := by
  rcases look_cases decode open_ p with ⟨-, hnone⟩ | ⟨first, hfails, hlook⟩
  · exact absurd hp (hnone fault)
  · refine ⟨first, hfails, ?_⟩
    rw [List.foldlM_append, foldlM_look_eq_ok hbefore]
    change List.foldlM (fun found p => look decode open_ p found) _ (p :: after) = _
    rw [List.foldlM_cons, hlook]
    rfl

/-- Among directories of which one is at fault there is a first one. -/
theorem exists_first_fault {directories : List Path} {fault : Fault} (hp : p ∈ directories)
    (h : FailsAt decode open_ p fault) :
    ∃ before q after first, directories = before ++ q :: after ∧
      FailsAt decode open_ q first ∧ ∀ q ∈ before, ∀ fault, ¬ FailsAt decode open_ q fault := by
  induction directories with
  | nil => cases hp
  | cons directory directories ih =>
      rcases look_cases decode open_ directory with ⟨-, hnone⟩ | ⟨first, hfails, -⟩
      · have hrest : p ∈ directories := by
          rcases List.mem_cons.mp hp with rfl | hrest
          · exact absurd h (hnone fault)
          · exact hrest
        obtain ⟨before, q, after, first, rfl, hq, hbefore⟩ := ih hrest
        exact ⟨directory :: before, q, after, first, rfl, hq,
          List.forall_mem_cons.mpr ⟨hnone, hbefore⟩⟩
      · exact ⟨[], directory, directories, first, rfl, hfails, List.forall_mem_nil _⟩

/-! ## What the search leads to -/

/-- If no file on the way to the root is a fault, the layers are the defaults and the layers of the
files, those of nearer files later. -/
theorem layers_eq_ok (h : ∀ p, p <+: directory → ∀ fault, ¬ FailsAt decode open_ p fault) :
    layers decode open_ directory =
      .ok (base :: (directory.ancestors.filterMap (layerAt decode open_)).reverse).toArray := by
  have hfound := foldlM_look_eq_ok (fun p hp => h p (Path.mem_ancestors_iff.mp hp)) #[]
  rw [layers, search_eq_foldlM, hfound]
  refine congrArg Except.ok ?_
  rw [turn_eq_reverse]
  simp

/-- If a file on the way to the root is a fault, the nearest one is reported. -/
theorem layers_eq_error (hp : p <+: directory) {fault : Fault} (h : FailsAt decode open_ p fault) :
    ∃ q first, q <+: directory ∧ FailsAt decode open_ q first ∧
      (∀ r, r <+: directory → q.length < r.length → ∀ fault, ¬ FailsAt decode open_ r fault) ∧
      layers decode open_ directory = .error first := by
  obtain ⟨before, q, after, first, hsplit, hq, hbefore⟩ :=
    exists_first_fault (Path.mem_ancestors_iff.mpr hp) h
  obtain ⟨reported, hreported, hsearch⟩ := foldlM_look_eq_error hbefore hq #[]
  have hmem : q ∈ directory.ancestors := by
    rw [hsplit]
    exact List.mem_append_right before List.mem_cons_self
  refine ⟨q, reported, Path.mem_ancestors_iff.mp hmem, hreported, ?_, ?_⟩
  · exact fun r hr hlt => Path.not_of_nearer hsplit hbefore hr hlt
  · rw [layers, search_eq_foldlM, hsplit, hsearch]
    rfl

end Settings
end WordRanges
