import WordRanges.Config.FileTree
import WordRanges.Config.Toml.Reader
import WordRanges.Domain.Policy

/-!
# Settings

Settings come from the configuration files of a directory and of all directories above it.
Each file decodes to a layer: settings, and the names that the file defines.  The layers are laid
over the defaults, those of nearer files later, and a layer puts in place what it defines.

How a file decodes is a parameter of the search; the program reads documents of settings.

Main definitions:

- {lit}`Settings`, {lit}`Layer`: the settings, and what one file decodes to.
- {lit}`Layer.decode`: the layer of a file that holds a document.
- {lit}`Settings.search`: look for layers in a directory and in those above it.
- {lit}`Settings.loadWith` and {lit}`Settings.load`: the settings that hold in a directory.
-/

namespace WordRanges

/-- The settings of the program. -/
structure Settings where
  policy : Policy
  /-- The number of bits of values. -/
  width : Int
  /-- Results are printed for other programs to read. -/
  json : Bool
deriving DecidableEq, Repr

/-- What one configuration file decodes to.  Settings that it does not define can be anything. -/
structure Layer where
  settings : Settings
  /-- Whether the file defines something under a path of names. -/
  isDefined : List String → Bool

namespace Layer

/-! ## Laying one layer over another -/

/-- A setting of two layers: that of the second one if this defines it. -/
def taken {α : Type} (base upper : Layer) (key : List String) (get : Settings → α) : α :=
  if upper.isDefined key then get upper.settings else get base.settings

/-- A layer with what another one defines laid over it. -/
def merge (base upper : Layer) : Layer where
  settings := {
    policy := {
      smallSpan := base.taken upper ["domain", "small_span"] (·.policy.smallSpan)
      maxWiden := base.taken upper ["domain", "max_widen"] (·.policy.maxWiden)
      narrowSlack := base.taken upper ["domain", "narrow_slack"] (·.policy.narrowSlack) }
    width := base.taken upper ["cli", "width"] (·.width)
    json := base.taken upper ["cli", "json"] (·.json) }
  isDefined := base.isDefined

/-! ## Documents of settings -/

/-- The small letter for a character that equals a letter but for its case.  The long s
and the Kelvin sign count as letters here. -/
def foldChar (c : Char) : Char :=
  if c.toNat = 0x17f then 's' else if c.toNat = 0x212a then 'k' else c.toLower

/-- Two names are the same but for case. -/
def sameName (a b : String) : Bool :=
  a.toList.map foldChar == b.toList.map foldChar

/-- The kinds of values that settings have. -/
inductive Kind where
  | integer
  | boolean
deriving DecidableEq, Repr

/-- The settings of each section of a configuration file. -/
def sections : List (String × List (String × Kind)) := [
  ("domain", [("small_span", .integer), ("max_widen", .integer), ("narrow_slack", .integer)]),
  ("cli", [("width", .integer), ("json", .boolean)])]

/-- A value is of a kind. -/
def fits : Kind → Toml.Item → Bool
  | .integer, .integer _ => true
  | .boolean, .boolean _ => true
  | _, _ => false

/-- Every entry named like a setting, whatever the case, is of its kind. -/
def sectionFits (settings : List (String × Kind)) : Toml.Item → Bool
  | .table entries => entries.all fun (name, item) =>
    settings.all fun (setting, kind) => !sameName setting name || fits kind item
  | _ => false

/-- The sections of a document, whatever the case of their names, hold settings of the
right kinds. -/
def tableFits (t : Toml.Table) : Bool :=
  t.all fun (name, item) =>
    sections.all fun (title, settings) => !sameName title name || sectionFits settings item

/-- An integer as a word of 64 bits. -/
def word (n : Int) : UInt64 :=
  UInt64.ofNat (n % UInt64.size).toNat

/-- The number that an item is. -/
def integerOf : Toml.Item → Option Int
  | .integer n => some n
  | _ => none

/-- The word that an item is, wrapped around if it is negative. -/
def wordOf (item : Toml.Item) : Option UInt64 :=
  (integerOf item).map word

/-- The truth value that an item is. -/
def booleanOf : Toml.Item → Option Bool
  | .boolean b => some b
  | _ => none

/-- What the item at a path is. -/
def itemAt {α : Type} (t : Toml.Table) (key : List String) (read : Toml.Item → Option α) :
    Option α :=
  (Toml.find? t key).bind read

/-- The layer of a document.  Names are defined only in their exact spelling, but values of the
wrong kind are refused under any spelling.  Of several spellings the exact one counts. -/
def ofTable? (t : Toml.Table) : Option Layer :=
  if tableFits t then
    some {
      settings := {
        policy := {
          smallSpan := (itemAt t ["domain", "small_span"] wordOf).getD 0
          maxWiden := (itemAt t ["domain", "max_widen"] integerOf).getD 0
          narrowSlack := (itemAt t ["domain", "narrow_slack"] wordOf).getD 0 }
        width := (itemAt t ["cli", "width"] integerOf).getD 0
        json := (itemAt t ["cli", "json"] booleanOf).getD false }
      isDefined := fun key => (Toml.find? t key).isSome }
  else none

/-- The layer of a file that holds a document of settings. -/
def decode : File → Except String Layer
  | .directory => .error "is a directory"
  | .garbled => .error "not a text"
  | .text content =>
    match (Toml.read? content).bind ofTable? with
    | none => .error "not a document of settings"
    | some layer => .ok layer

end Layer

namespace Settings

/-- The settings in the absence of configuration files. -/
def default : Settings :=
  ⟨.default, 64, false⟩

/-- Why there are no settings. -/
inductive Fault where
  | unreadable (path : Path) (reason : String)
  | malformed (path : Path) (reason : String)
  /-- There was nothing to begin with. -/
  | noLayers
  | negativeWiden (n : Int)
  | badWidth (n : Int)
deriving DecidableEq, Repr

/-- The wording of a fault. -/
def Fault.message : Fault → String
  | .unreadable path reason => "open " ++ path.text ++ ": " ++ reason
  | .malformed path reason => "parsing " ++ path.text ++ ": " ++ reason
  | .noLayers => "trying to merge zero configs"
  | .negativeWiden n =>
    "invalid configuration: domain.max_widen must not be negative, got " ++ n.repr
  | .badWidth n =>
    "invalid configuration: cli.width must be one of 8, 16, 32 and 64, got " ++ n.repr

/-- The widths that values can have. -/
def widths : List Int := [8, 16, 32, 64]

/-- Settings that make sense. -/
def validate (s : Settings) : Except Fault Settings :=
  if s.policy.maxWiden < 0 then .error (.negativeWiden s.policy.maxWiden)
  else if s.width ∉ widths then .error (.badWidth s.width)
  else .ok s

/-- The name of configuration files. -/
def fileName : String := "rangeinfer.conf"

/-- The configuration file of a directory. -/
def fileIn (directory : Path) : Path :=
  directory ++ [fileName]

/-! ## Looking for layers -/

section Search

variable (decode : File → Except String Layer) (open_ : Path → Opened)

/-- Look for a layer in one directory, after the layers that were found before. -/
def look (directory : Path) (found : Array Layer) : Except Fault (Array Layer) :=
  let path := fileIn directory
  match open_ path with
  | .missing => .ok found
  | .refused reason => .error (.unreadable path reason)
  | .found file =>
    match decode file with
    | .error reason => .error (.malformed path reason)
    | .ok layer => .ok (found.push layer)

/-- Look for layers in a directory and then in those above it, until a directory is its own
parent.  The first fault ends the search. -/
def search (directory : Path) (found : Array Layer) : Except Fault (Array Layer) :=
  match look decode open_ directory found with
  | .error fault => .error fault
  | .ok found =>
    if directory.parent = directory then .ok found
    else search directory.parent found
termination_by directory.length
decreasing_by exact Path.length_parent_lt ‹_›

/-- The layer of the defaults.  It is laid over no other one. -/
def base : Layer :=
  ⟨default, fun _ => false⟩

/-- Turn an array around in place: exchange its elements in pairs from both ends. -/
def turn {α : Type} (elements : Array α) : Array α :=
  (List.range (elements.size / 2)).foldl
    (fun turned i => turned.swapIfInBounds i (turned.size - 1 - i)) elements

/-- All layers that matter in a directory, those of nearer files later, after the defaults. -/
def layers (directory : Path) : Except Fault (Array Layer) := do
  let found ← search decode open_ directory #[]
  return turn (found.push base)

/-- Layers laid over the first of them, one after the other. -/
def merge? : List Layer → Option Settings
  | [] => none
  | first :: others => some (others.foldl Layer.merge first).settings

/-- The settings that hold in a directory, if files decode in a given way. -/
def loadWith (directory : Path) : Except Fault Settings := do
  let found ← layers decode open_ directory
  match merge? found.toList with
  | none => throw .noLayers
  | some settings => settings.validate

end Search

/-- The settings that hold in a directory. -/
def load (open_ : Path → Opened) (directory : Path) : Except Fault Settings :=
  loadWith Layer.decode open_ directory

end Settings
end WordRanges
