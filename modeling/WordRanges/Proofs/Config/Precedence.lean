import WordRanges.Proofs.Config.Integers
import WordRanges.Proofs.Config.Search

/-!
# Nearer configuration files take precedence

Settings are looked for in the configuration files of a directory and of all directories above
it.  Laying the files over the defaults, the farthest one first, gives each setting the value of
the nearest file that defines it, whatever the other settings are.  This holds however files
decode.  For files that hold documents, it tells which item of which document a setting is.

Main results:

- Theorem {lit}`Settings.IsSetting.inherits`: a setting has the value of the nearest file that
  defines it.
- Theorem {lit}`Settings.loadWith_ne_noLayers`: there is always something to begin with.
- Theorem {lit}`Settings.load_takes_nearest`: what loading settings leads to.
- Theorem {lit}`Layer.fits_of_find?`: what a document defines as a setting is of its kind.
- Theorem {lit}`Settings.IsItem.prevails`: a setting is the item of the nearest document with one.
- Theorem {lit}`Settings.Prevails.sized`: integers that configuration files define have 64 bits.
-/

namespace WordRanges

namespace Settings

variable {decode : File → Except String Layer} {open_ : Path → Opened} {directory p : Path}

/-! ## Single settings -/

/-- The value of a setting in a directory: that of the nearest configuration file which defines
it, or else the default. -/
inductive Inherits {α : Type} (decode : File → Except String Layer) (open_ : Path → Opened)
    (directory : Path) (key : List String) (get : Settings → α) (fallback : α) : α → Prop where
  | nearest {p : Path} {layer : Layer} (hp : p <+: directory)
      (hlayer : layerAt decode open_ p = some layer) (hdefined : layer.isDefined key = true)
      (hnearer : ∀ q, q <+: directory → p.length < q.length →
        ∀ other, layerAt decode open_ q = some other → other.isDefined key = false) :
      Inherits decode open_ directory key get fallback (get layer.settings)
  | undefined (h : ∀ p, p <+: directory →
        ∀ layer, layerAt decode open_ p = some layer → layer.isDefined key = false) :
      Inherits decode open_ directory key get fallback fallback

/-- A setting: one layer over another puts it in place if it defines it. -/
structure IsSetting {α : Type} (key : List String) (get : Settings → α) : Prop where
  get_merge : ∀ base upper : Layer, get (base.merge upper).settings = base.taken upper key get

section Setting

variable {α : Type} {key : List String} {get : Settings → α}

/-- A setting of layers that were laid over a first one, the nearest layer last, is that of the
nearest layer which defines it. -/
theorem IsSetting.get_foldl (hsetting : IsSetting key get) (first : Layer) (found : List Layer) :
    get (found.reverse.foldl Layer.merge first).settings =
      ((found.find? fun layer => layer.isDefined key).map fun layer => get layer.settings).getD
        (get first.settings) := by
  induction found with
  | nil => rfl
  | cons layer found ih =>
      rw [List.reverse_cons, List.foldl_append, List.foldl_cons, List.foldl_nil,
        hsetting.get_merge, Layer.taken, ih, List.find?_cons]
      cases layer.isDefined key <;> rfl

/-- A setting of the layers on the way to the root has the value of the nearest file that defines
it. -/
theorem IsSetting.inherits (hsetting : IsSetting key get) (directory : Path) :
    Inherits decode open_ directory key get (get default)
      (get ((directory.ancestors.filterMap (layerAt decode open_)).reverse.foldl Layer.merge
        base).settings) := by
  rw [hsetting.get_foldl, List.find?_filterMap]
  cases hfirst : directory.ancestors.find? fun p =>
      ((layerAt decode open_ p).any fun layer => layer.isDefined key) with
  | none =>
      refine .undefined fun p hp layer hlayer => ?_
      have hnone := List.find?_eq_none.mp hfirst p (Path.mem_ancestors_iff.mpr hp)
      rw [hlayer] at hnone
      exact Bool.eq_false_iff.mpr hnone
  | some p =>
      obtain ⟨hany, before, after, hsplit, hbefore⟩ := List.find?_eq_some_iff_append.mp hfirst
      obtain ⟨layer, hlayer, hdefined⟩ := (Option.any_eq_true _ _).mp hany
      have hmem : p ∈ directory.ancestors := by
        rw [hsplit]
        exact List.mem_append_right before List.mem_cons_self
      have hnearer (q : Path) (hq : q ∈ before) (other : Layer)
          (hother : layerAt decode open_ q = some other) : other.isDefined key = false := by
        have hnot := hbefore q hq
        rw [hother] at hnot
        exact (Bool.not_eq_true _).mp (by simpa using hnot)
      rw [Option.bind_some, hlayer, Option.map_some, Option.getD_some]
      exact .nearest (Path.mem_ancestors_iff.mp hmem) hlayer hdefined
        fun q hq hlt => Path.not_of_nearer hsplit hnearer hq hlt

end Setting

/-- The span of small sets is a setting. -/
theorem isSetting_smallSpan : IsSetting ["domain", "small_span"] (·.policy.smallSpan) :=
  ⟨fun _ _ => rfl⟩

/-- The budget for widening is a setting. -/
theorem isSetting_maxWiden : IsSetting ["domain", "max_widen"] (·.policy.maxWiden) :=
  ⟨fun _ _ => rfl⟩

/-- The slack of narrowing is a setting. -/
theorem isSetting_narrowSlack : IsSetting ["domain", "narrow_slack"] (·.policy.narrowSlack) :=
  ⟨fun _ _ => rfl⟩

/-- The width is a setting. -/
theorem isSetting_width : IsSetting ["cli", "width"] (·.width) :=
  ⟨fun _ _ => rfl⟩

/-- The form of the output is a setting. -/
theorem isSetting_json : IsSetting ["cli", "json"] (·.json) :=
  ⟨fun _ _ => rfl⟩

/-! ## Loading -/

/-- Settings are refused exactly if the budget for widening is negative or there are no values of
the width. -/
theorem validate_cases (s : Settings) :
    (s.validate = .ok s ∧ ¬ s.policy.maxWiden < 0 ∧ s.width ∈ widths) ∨
      (∃ fault, s.validate = .error fault) ∧ (s.policy.maxWiden < 0 ∨ s.width ∉ widths) := by
  unfold validate
  split
  · rename_i hwiden
    exact .inr ⟨⟨_, rfl⟩, .inl hwiden⟩
  · rename_i hwiden
    split
    · rename_i hwidth
      exact .inr ⟨⟨_, rfl⟩, .inr hwidth⟩
    · rename_i hwidth
      exact .inl ⟨rfl, hwiden, not_not.mp hwidth⟩

/-- If no file on the way to the root is a fault, loading validates settings of which each has the
value of the nearest file that defines it. -/
theorem exists_settings (h : ∀ p, p <+: directory → ∀ fault, ¬ FailsAt decode open_ p fault) :
    ∃ s : Settings, loadWith decode open_ directory = s.validate ∧
      ∀ {α : Type} {key : List String} {get : Settings → α}, IsSetting key get →
        Inherits decode open_ directory key get (get default) (get s) := by
  refine ⟨_, ?_, fun hsetting => hsetting.inherits directory⟩
  rw [loadWith, layers_eq_ok h]
  rfl

/-- If a file on the way to the root is a fault, the nearest one is reported. -/
theorem loadWith_eq_error (hp : p <+: directory) {fault : Fault}
    (h : FailsAt decode open_ p fault) :
    ∃ q first, q <+: directory ∧ FailsAt decode open_ q first ∧
      (∀ r, r <+: directory → q.length < r.length → ∀ fault, ¬ FailsAt decode open_ r fault) ∧
      loadWith decode open_ directory = .error first := by
  obtain ⟨q, first, hq, hfails, hnearer, hlayers⟩ := layers_eq_error hp h
  refine ⟨q, first, hq, hfails, hnearer, ?_⟩
  rw [loadWith, hlayers]
  rfl

/-- Settings that were loaded come from files without faults. -/
theorem readable_of_loadWith {s : Settings} (h : loadWith decode open_ directory = .ok s) (p : Path)
    (hp : p <+: directory) (fault : Fault) : ¬ FailsAt decode open_ p fault := by
  intro hfails
  obtain ⟨q, first, -, -, -, herror⟩ := loadWith_eq_error hp hfails
  cases h.symm.trans herror

/-- Settings that were loaded have the values of the nearest files that define them. -/
theorem inherits_of_loadWith {s : Settings} (h : loadWith decode open_ directory = .ok s)
    {α : Type} {key : List String} {get : Settings → α} (hsetting : IsSetting key get) :
    Inherits decode open_ directory key get (get default) (get s) := by
  obtain ⟨merged, hload, hinherits⟩ := exists_settings (readable_of_loadWith h)
  rcases validate_cases merged with ⟨hok, -⟩ | ⟨⟨fault, herror⟩, -⟩
  · cases (hload.trans hok).symm.trans h
    exact hinherits hsetting
  · cases (hload.trans herror).symm.trans h

/-- There is always something to begin with. -/
theorem loadWith_ne_noLayers : loadWith decode open_ directory ≠ .error .noLayers := by
  intro hnone
  by_cases h : ∀ p, p <+: directory → ∀ fault, ¬ FailsAt decode open_ p fault
  · obtain ⟨s, hload, -⟩ := exists_settings h
    rw [hload, validate] at hnone
    split at hnone
    · cases hnone
    · split at hnone <;> cases hnone
  · push Not at h
    obtain ⟨p, hp, fault, hfails⟩ := h
    obtain ⟨q, first, -, hfirst, -, herror⟩ := loadWith_eq_error hp hfails
    cases herror.symm.trans hnone
    cases hfirst

/-- Loading settings takes each of them from the nearest file that defines it, however files
decode.

The search looks into the directory and then into its parent, until it has looked into the root.  A
file that is there but cannot be opened or decoded is a fault, and the nearest one is reported.
Otherwise each setting is inherited on its own, and loading fails exactly if the budget for widening
or the width that is inherited makes no sense, whatever files farther up say. -/
theorem load_takes_nearest (decode : File → Except String Layer) (open_ : Path → Opened)
    (directory : Path) :
    (∃ walk : List Path, walk.head? = some directory ∧ walk.getLast? = some [] ∧
      (walk.IsChain fun p q : Path => p ≠ [] ∧ q = p.parent) ∧
      ∀ found, search decode open_ directory found =
        walk.foldlM (fun found p => look decode open_ p found) found) ∧
    ((∃ p fault, p <+: directory ∧ FailsAt decode open_ p fault) →
      ∃ p fault, p <+: directory ∧ FailsAt decode open_ p fault ∧
        (∀ q, q <+: directory → p.length < q.length → ∀ fault, ¬ FailsAt decode open_ q fault) ∧
        loadWith decode open_ directory = .error fault) ∧
    ((∀ p, p <+: directory → ∀ fault, ¬ FailsAt decode open_ p fault) → ∃ s : Settings,
      Inherits decode open_ directory ["domain", "small_span"] (·.policy.smallSpan) 3
        s.policy.smallSpan ∧
      Inherits decode open_ directory ["domain", "max_widen"] (·.policy.maxWiden) 3
        s.policy.maxWiden ∧
      Inherits decode open_ directory ["domain", "narrow_slack"] (·.policy.narrowSlack) 6
        s.policy.narrowSlack ∧
      Inherits decode open_ directory ["cli", "width"] (·.width) 64 s.width ∧
      Inherits decode open_ directory ["cli", "json"] (·.json) false s.json ∧
      ((∃ fault, loadWith decode open_ directory = .error fault) ↔
        s.policy.maxWiden < 0 ∨ s.width ∉ [8, 16, 32, 64]) ∧
      (¬ (s.policy.maxWiden < 0 ∨ s.width ∉ [8, 16, 32, 64]) →
        loadWith decode open_ directory = .ok s)) := by
  refine ⟨?_, ?_, ?_⟩
  · obtain ⟨hhead, hlast, hchain⟩ := directory.ancestors_walk
    exact ⟨directory.ancestors, hhead, hlast, hchain, search_eq_foldlM decode open_ directory⟩
  · rintro ⟨p, fault, hp, hfails⟩
    exact loadWith_eq_error hp hfails
  · intro hreadable
    obtain ⟨s, hload, hinherits⟩ := exists_settings hreadable
    refine ⟨s, hinherits isSetting_smallSpan, hinherits isSetting_maxWiden,
      hinherits isSetting_narrowSlack, hinherits isSetting_width, hinherits isSetting_json, ?_⟩
    rw [hload]
    rcases validate_cases s with ⟨hok, hwiden, hwidth⟩ | ⟨herror, hbad⟩
    · have hsense : ¬ (s.policy.maxWiden < 0 ∨ s.width ∉ widths) :=
        not_or.mpr ⟨hwiden, not_not.mpr hwidth⟩
      refine ⟨⟨fun ⟨fault, herror⟩ => ?_, fun hbad => absurd hbad hsense⟩, fun _ => hok⟩
      cases hok.symm.trans herror
    · exact ⟨⟨fun _ => hbad, fun _ => herror⟩, fun hsense => absurd hbad hsense⟩

end Settings

/-! ## What documents define -/

namespace Layer

variable {t : Toml.Table} {l : Layer} {item : Toml.Item}

/-- A name is the same as itself. -/
theorem sameName_self (name : String) : sameName name name = true :=
  beq_self_eq_true _

/-- What a path of two names leads to is an entry of a table that is an entry of the document. -/
theorem mem_of_find? {title name : String} (h : Toml.find? t [title, name] = some item) :
    ∃ entries, (title, .table entries) ∈ t ∧ (name, item) ∈ entries := by
  rw [Toml.find?] at h
  split at h
  · cases h
  · rename_i entries hentries
    obtain ⟨before, after, rfl, -⟩ := List.lookup_eq_some_iff.mp hentries
    refine ⟨entries, List.mem_append_right before List.mem_cons_self, ?_⟩
    have hlookup : entries.lookup name = some item := by
      rw [Toml.find?] at h
      split at h
      · cases h
      · rename_i inner hinner
        cases h
        exact hinner
      · rename_i found _ hfound
        cases h
        exact hfound
    obtain ⟨first, last, rfl, -⟩ := List.lookup_eq_some_iff.mp hlookup
    exact List.mem_append_right first List.mem_cons_self
  · cases h

/-- What a document defines as a setting is of its kind. -/
theorem fits_of_find? {title name : String} {settings : List (String × Kind)} {kind : Kind}
    (ht : tableFits t = true) (hsection : (title, settings) ∈ sections)
    (hsetting : (name, kind) ∈ settings) (hitem : Toml.find? t [title, name] = some item) :
    fits kind item = true := by
  obtain ⟨entries, htable, hentry⟩ := mem_of_find? hitem
  have hsections := List.all_eq_true.mp (List.all_eq_true.mp ht _ htable) _ hsection
  simp only [sameName_self, Bool.not_true, Bool.false_or, sectionFits] at hsections
  have hsettings := List.all_eq_true.mp (List.all_eq_true.mp hsections _ hentry) _ hsetting
  simpa only [sameName_self, Bool.not_true, Bool.false_or] using hsettings

/-- An item of the kind of numbers is a number. -/
theorem isSome_integerOf (h : fits .integer item = true) : (integerOf item).isSome = true := by
  cases item with
  | integer n => rfl
  | _ => cases h

/-- An item of the kind of numbers is a word. -/
theorem isSome_wordOf (h : fits .integer item = true) : (wordOf item).isSome = true := by
  rw [wordOf, Option.isSome_map]
  exact isSome_integerOf h

/-- What a document with a layer defines: settings of the right kinds, each under its own name. -/
theorem ofTable?_eq_some (h : ofTable? t = some l) : tableFits t = true ∧
    l.isDefined = (fun key => (Toml.find? t key).isSome) ∧ l.settings = {
      policy := {
        smallSpan := (itemAt t ["domain", "small_span"] wordOf).getD 0
        maxWiden := (itemAt t ["domain", "max_widen"] integerOf).getD 0
        narrowSlack := (itemAt t ["domain", "narrow_slack"] wordOf).getD 0 }
      width := (itemAt t ["cli", "width"] integerOf).getD 0
      json := (itemAt t ["cli", "json"] booleanOf).getD false } := by
  unfold ofTable? at h
  split at h
  · rename_i hfits
    cases h
    exact ⟨hfits, rfl, rfl⟩
  · cases h

end Layer

namespace Settings

variable {open_ : Path → Opened} {directory p : Path}

/-- The document in the configuration file of a directory. -/
def documentIn (open_ : Path → Opened) (directory : Path) : Option Toml.Table :=
  match open_ (fileIn directory) with
  | .found (.text content) => Toml.read? content
  | _ => none

/-- What the configuration file of a directory defines under a path of names. -/
def itemIn (open_ : Path → Opened) (key : List String) (directory : Path) : Option Toml.Item :=
  (documentIn open_ directory).bind (Toml.find? · key)

/-- The layer of a directory is that of its document. -/
theorem exists_document {layer : Layer} (h : layerAt Layer.decode open_ directory = some layer) :
    ∃ t, documentIn open_ directory = some t ∧ Layer.ofTable? t = some layer := by
  unfold layerAt at h
  unfold documentIn
  split at h
  · rename_i file hopen
    rw [hopen]
    cases file with
    | directory => cases h
    | garbled => cases h
    | text content =>
        simp only [Layer.decode] at h
        split at h
        · cases h
        · rename_i found hread
          cases h
          exact Option.bind_eq_some_iff.mp hread
  · cases h

/-- The document of a directory without a fault has a layer. -/
theorem exists_layer {t : Toml.Table} (h : documentIn open_ directory = some t)
    (hreadable : ∀ fault, ¬ FailsAt Layer.decode open_ directory fault) :
    ∃ layer, layerAt Layer.decode open_ directory = some layer ∧ Layer.ofTable? t = some layer := by
  unfold documentIn at h
  split at h
  · rename_i content hopen
    cases hlayer : Layer.ofTable? t with
    | none =>
        have hdecode : Layer.decode (.text content) = .error "not a document of settings" := by
          simp only [Layer.decode, h, Option.bind_some, hlayer]
        exact absurd (.malformed hopen hdecode) (hreadable _)
    | some layer =>
        refine ⟨layer, ?_, rfl⟩
        simp only [layerAt, hopen, Layer.decode, h, Option.bind_some, hlayer, Except.toOption]
  · cases h

/-- The value of a setting in a directory: what the nearest document with an item for it says, or
else the default. -/
inductive Prevails {α : Type} (open_ : Path → Opened) (directory : Path) (key : List String)
    (read : Toml.Item → Option α) (fallback : α) : α → Prop where
  | nearest {p : Path} {item : Toml.Item} {value : α} (hp : p <+: directory)
      (hitem : itemIn open_ key p = some item) (hvalue : read item = some value)
      (hnearer : ∀ q, q <+: directory → p.length < q.length → itemIn open_ key q = none) :
      Prevails open_ directory key read fallback value
  | undefined (h : ∀ p, p <+: directory → itemIn open_ key p = none) :
      Prevails open_ directory key read fallback fallback

/-- A setting that is an item of documents. -/
structure IsItem {α : Type} (key : List String) (read : Toml.Item → Option α)
    (get : Settings → α) : Prop extends IsSetting key get where
  read_eq : ∀ {t l item}, Layer.ofTable? t = some l → Toml.find? t key = some item →
    read item = some (get l.settings)

section Item

variable {α : Type} {key : List String} {read : Toml.Item → Option α} {get : Settings → α}

/-- A directory without a fault whose layer does not define a setting has no item for it. -/
theorem itemIn_eq_none (hreadable : ∀ fault, ¬ FailsAt Layer.decode open_ directory fault)
    (h : ∀ layer, layerAt Layer.decode open_ directory = some layer → layer.isDefined key = false) :
    itemIn open_ key directory = none := by
  unfold itemIn
  cases ht : documentIn open_ directory with
  | none => rfl
  | some t =>
      obtain ⟨layer, hlayer, htable⟩ := exists_layer ht hreadable
      have hundefined := h layer hlayer
      rw [(Layer.ofTable?_eq_some htable).2.1] at hundefined
      exact Option.isNone_iff_eq_none.mp (Option.isSome_eq_false_iff.mp hundefined)

/-- What a setting inherits is what the nearest document with an item for it says. -/
theorem Inherits.prevails {fallback value : α} (hitem : IsItem key read get)
    (hreadable : ∀ p, p <+: directory → ∀ fault, ¬ FailsAt Layer.decode open_ p fault)
    (h : Inherits Layer.decode open_ directory key get fallback value) :
    Prevails open_ directory key read fallback value := by
  cases h with
  | nearest hp hlayer hdefined hnearer =>
      obtain ⟨t, ht, htable⟩ := exists_document hlayer
      rw [(Layer.ofTable?_eq_some htable).2.1] at hdefined
      obtain ⟨item, hfind⟩ := Option.isSome_iff_exists.mp hdefined
      refine .nearest hp (by rw [itemIn, ht]; exact hfind) (hitem.read_eq htable hfind) ?_
      exact fun q hq hlt => itemIn_eq_none (hreadable q hq) (hnearer q hq hlt)
  | undefined hnone =>
      exact .undefined fun p hp => itemIn_eq_none (hreadable p hp) (hnone p hp)

/-- A setting that was loaded is the item of the nearest document with one. -/
theorem IsItem.prevails {s : Settings} (hitem : IsItem key read get)
    (h : load open_ directory = .ok s) :
    Prevails open_ directory key read (get default) (get s) :=
  (inherits_of_loadWith h hitem.toIsSetting).prevails hitem (readable_of_loadWith h)

/-- What the configuration file of a directory defines has integers of 64 bits. -/
theorem sized_of_itemIn {item : Toml.Item} (h : itemIn open_ key directory = some item) :
    item.Sized := by
  obtain ⟨t, ht, hitem⟩ := Option.bind_eq_some_iff.mp h
  unfold documentIn at ht
  split at ht
  · exact (Toml.sized_of_read? ht).find? hitem
  · cases ht

/-- An integer that prevails has 64 bits if the default has. -/
theorem Prevails.sized {n m : Int} (h : Prevails open_ directory key Layer.integerOf n m)
    (hn : -2 ^ 63 ≤ n ∧ n < 2 ^ 63) : -2 ^ 63 ≤ m ∧ m < 2 ^ 63 := by
  cases h with
  | nearest hp hitem hvalue hnearer =>
      cases sized_of_itemIn hitem with
      | integer hsized =>
          cases hvalue
          exact hsized
      | _ => cases hvalue
  | undefined hnone => exact hn

/-- What a section of documents calls a setting is an item of documents, if layers keep it. -/
theorem IsSetting.isItem {title name : String} {settings : List (String × Layer.Kind)}
    {kind : Layer.Kind} {unset : α} (hsetting : IsSetting [title, name] get)
    (hsection : (title, settings) ∈ Layer.sections) (hname : (name, kind) ∈ settings)
    (hread : ∀ {item}, Layer.fits kind item = true → (read item).isSome = true)
    (hget : ∀ {t l}, Layer.ofTable? t = some l →
      get l.settings = (Layer.itemAt t [title, name] read).getD unset) :
    IsItem [title, name] read get where
  toIsSetting := hsetting
  read_eq {t l item} htable hfind := by
    have hfits := Layer.fits_of_find? (Layer.ofTable?_eq_some htable).1 hsection hname hfind
    obtain ⟨value, hvalue⟩ := Option.isSome_iff_exists.mp (hread hfits)
    rw [hget htable, Layer.itemAt, hfind, Option.bind_some, hvalue, Option.getD_some]

end Item

/-- The budget for widening is an item of documents. -/
theorem isItem_maxWiden : IsItem ["domain", "max_widen"] Layer.integerOf (·.policy.maxWiden) :=
  isSetting_maxWiden.isItem List.mem_cons_self (List.mem_cons_of_mem _ List.mem_cons_self)
    Layer.isSome_integerOf fun htable => by rw [(Layer.ofTable?_eq_some htable).2.2]

/-- The slack of narrowing is an item of documents. -/
theorem isItem_narrowSlack :
    IsItem ["domain", "narrow_slack"] Layer.wordOf (·.policy.narrowSlack) :=
  isSetting_narrowSlack.isItem List.mem_cons_self
    (List.mem_cons_of_mem _ (List.mem_cons_of_mem _ List.mem_cons_self))
    Layer.isSome_wordOf fun htable => by rw [(Layer.ofTable?_eq_some htable).2.2]

/-- The budget for widening has 64 bits. -/
theorem maxWiden_lt_of_load {s : Settings} (h : load open_ directory = .ok s) :
    s.policy.maxWiden < 2 ^ 63 :=
  ((isItem_maxWiden.prevails h).sized (by decide)).2

end Settings
end WordRanges
