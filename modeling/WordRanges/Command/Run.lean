import WordRanges.Command.Name
import WordRanges.Command.Version
import WordRanges.Config.Settings

/-!
# Running a command line

A command line is run in a directory and with a way to open files.  Flags and the number
of arguments are checked first, then the settings are loaded, then the values are read
and combined.

Main definitions:

- {lit}`Session`: steps that note what they do and may fail.
- {lit}`Operation.run`: an operation on values of a width.
- {lit}`Command.run`: a whole command line.
- {lit}`Command.settingsFiles`: the files that it can look at.
-/

namespace WordRanges

/-! ## Faults -/

/-- How many arguments an operation takes. -/
inductive Arity where
  | exactly (n : Nat)
  | atLeast (n : Nat)
  | between (least most : Nat)
deriving DecidableEq, Repr

/-- The number of arguments is right. -/
def Arity.Fits (n : Nat) : Arity → Prop
  | .exactly m => n = m
  | .atLeast m => m ≤ n
  | .between least most => least ≤ n ∧ n ≤ most

instance (n : Nat) (a : Arity) : Decidable (a.Fits n) := by
  cases a <;> unfold Arity.Fits <;> infer_instance

/-- The wording of a wrong number of arguments. -/
def Arity.message (n : Nat) : Arity → String
  | .exactly m => "accepts " ++ m.repr ++ " arg(s), received " ++ n.repr
  | .atLeast m => "requires at least " ++ m.repr ++ " arg(s), only received " ++ n.repr
  | .between least most =>
    "accepts between " ++ least.repr ++ " and " ++ most.repr ++ " arg(s), received " ++ n.repr

/-- Why a command line fails. -/
inductive RunFault where
  | unknownCommand (word : String)
  | extraWord (word : String)
  | options (fault : Options.Fault)
  | arity (wanted : Arity) (received : Nat)
  | settings (fault : Settings.Fault)
  | unsupportedWidth (width : Int)
  | value (fault : ValueText.Fault)
  | member (fault : ValueText.MemberFault)
  | emptySet (text : String)
deriving Repr

/-- The name of the program. -/
def programName : String := "rangeinfer"

/-- The wording of a fault. -/
def RunFault.message : RunFault → String
  | .unknownCommand word =>
    "unknown command " ++ Text.quoted word ++ " for " ++ Text.quoted programName
      ++ Command.advice word
  | .extraWord word =>
    "unknown command " ++ Text.quoted word ++ " for " ++ Text.quoted (programName ++ " version")
  | .options fault => fault.message
  | .arity wanted received => wanted.message received
  | .settings fault => "loading configuration: " ++ fault.message
  | .unsupportedWidth width => "unsupported width " ++ width.repr ++ ", want 8, 16, 32 or 64"
  | .value fault => fault.message
  | .member fault => fault.message
  | .emptySet text => text ++ " describes the empty set"

/-! ## Sessions -/

/-- Steps that note what they do and may fail. -/
abbrev Session := ExceptT RunFault (StateM (List String))

/-- Note a line. -/
def note (line : String) : Session Unit :=
  modify (· ++ [line])

/-- How results are printed. -/
structure Style where
  json : Bool
  pretty : Bool
deriving DecidableEq, Repr

/-! ## Results -/

section
variable {w : Nat}

/-- The fields of a value for other programs to read.  No text among them has characters
that would need an escape. -/
def Value.json (v : Value w) : String :=
  let quote (s : String) : String := "\"" ++ s ++ "\""
  "\x7b\"lo\":" ++ Word.signedText v.lo ++ ",\"hi\":" ++ Word.signedText v.hi
    ++ ",\"ulo\":" ++ Word.unsignedText v.ulo ++ ",\"uhi\":" ++ Word.unsignedText v.uhi
    ++ ",\"bits\":" ++ quote v.bits.pattern ++ ",\"widen\":" ++ v.widen.repr
    ++ ",\"text\":" ++ quote (ValueText.write v) ++ ",\"string\":" ++ quote v.readable ++ "\x7d"

/-- The text of a result, which may be the empty set. -/
def Style.result (s : Style) (v? : Option (Value w)) : String :=
  match v? with
  | none => if s.json then "\x7b\"empty\":true\x7d\n" else "empty\n"
  | some v =>
    if s.json then "\x7b\"empty\":false,\"value\":" ++ v.json ++ "\x7d\n"
    else if s.pretty then v.readable ++ "\n"
    else ValueText.write v ++ "\n"

/-- The text of a yes or no. -/
def Style.answer (s : Style) (yes : Bool) : String :=
  let word := if yes then "true" else "false"
  if s.json then "\x7b\"contains\":" ++ word ++ "\x7d\n" else word ++ "\n"

/-! ## Operations -/

/-- The value that a text describes; nothing if it describes the empty set. -/
def readValue (p : Policy) (w : Nat) (text : String) : Session (Option (Value w)) :=
  match ValueText.read w text with
  | .error fault => throw (.value fault)
  | .ok reading => do
    note ("parsed " ++ Text.quoted text ++ " as " ++ reading.constraint.text)
    return p.make? reading.constraint reading.widen

/-- The values that texts describe, none of which may be empty. -/
def readValues (p : Policy) (w : Nat) : List String → Session (List (Value w))
  | [] => return []
  | text :: texts => do
    match ← readValue p w text with
    | none => throw (.emptySet text)
    | some v => return v :: (← readValues p w texts)

/-- The common members of several values. -/
def intersectAll? (p : Policy) (v : Value w) : List (Value w) → Option (Value w)
  | [] => some v
  | u :: us => (p.intersect? v u).bind fun v => intersectAll? p v us

/-- What an operation makes of its values. -/
def Operation.apply? (op : Operation) (p : Policy) (v : Value w) (others : List (Value w)) :
    Option (Value w) :=
  match op with
  | .meet => some (others.foldl p.hull v)
  | .join => intersectAll? p v others
  | .widen => some (p.widen v others.head? (others.drop 1).head?)
  | .narrow => some (p.narrow v others.head?)
  | .canon => some v
  | .contains => some v

/-- The line that notes an operation; the empty set is shown as zero. -/
def Operation.trace (op : Operation) (vs : List (Value w)) (result : Option (Value w)) : String :=
  let shown := match result with
    | some v => v.readable ++ ", true"
    | none => "0, false"
  op.name ++ "([" ++ " ".intercalate (vs.map Value.readable) ++ "]) = " ++ shown

/-- Whether a value contains a word. -/
def runContains (p : Policy) (w : Nat) (style : Style) (texts : List String) : Session String := do
  let v? ← readValue p w (texts.getD 0 "")
  match ValueText.readMember w (texts.getD 1 "") with
  | .error fault => throw (.member fault)
  | .ok x => return style.answer (v?.any fun v => decide (v.Contains x.word))

/-- The canonical form of a value, which may be empty. -/
def runCanon (p : Policy) (w : Nat) (style : Style) (texts : List String) : Session String := do
  match ← readValue p w (texts.getD 0 "") with
  | none => return style.result (w := w) none
  | some v =>
    note (Operation.canon.trace [v] (some v))
    return style.result (some v)

/-- What an operation makes of several values, none of which may be empty. -/
def runCombining (op : Operation) (p : Policy) (w : Nat) (style : Style) (texts : List String) :
    Session String := do
  match ← readValues p w texts with
  | [] => return ""
  | v :: vs =>
    let result := op.apply? p v vs
    note (op.trace (v :: vs) result)
    return style.result result

/-- Run an operation on values of a width. -/
def Operation.run (op : Operation) (p : Policy) (w : Nat) (style : Style) (texts : List String) :
    Session String :=
  match op with
  | .contains => runContains p w style texts
  | .canon => runCanon p w style texts
  | _ => runCombining op p w style texts

end

/-- Run an operation at a width, which must be one that values can have. -/
def Operation.runAt (op : Operation) (p : Policy) (width : Int) (style : Style)
    (texts : List String) : Session String :=
  if width = 8 then op.run p 8 style texts
  else if width = 16 then op.run p 16 style texts
  else if width = 32 then op.run p 32 style texts
  else if width = 64 then op.run p 64 style texts
  else throw (.unsupportedWidth width)

/-- The number of arguments that an operation takes. -/
def Operation.arity : Operation → Arity
  | .canon => .exactly 1
  | .meet => .atLeast 2
  | .join => .atLeast 2
  | .widen => .between 2 3
  | .narrow => .exactly 2
  | .contains => .exactly 2

/-! ## Command lines -/

/-- What a command line can see: the directory it runs in, and the files. -/
structure World where
  directory : Path
  openPath : Path → Opened

/-- The line that notes the settings. -/
def settingsLine (width : Int) (p : Policy) : String :=
  "width " ++ width.repr ++ ", policy \x7bSmallSpan:" ++ p.smallSpan.toNat.repr ++ " MaxWiden:"
    ++ p.maxWiden.repr ++ " NarrowSlack:" ++ p.narrowSlack.toNat.repr ++ "\x7d"

/-- Run an operation with the settings that hold; flags win over configuration files. -/
def Operation.command (op : Operation) (world : World) (o : Options) (arguments : List String) :
    Session String := do
  if ¬ op.arity.Fits arguments.length then
    throw (.arity op.arity arguments.length)
  match Settings.load world.openPath (Path.resolve world.directory o.config) with
  | .error fault => throw (.settings fault)
  | .ok s =>
    let width := o.width.getD s.width
    let style : Style := ⟨o.json.getD s.json, o.pretty⟩
    note (settingsLine width s.policy)
    op.runAt s.policy width style arguments

/-- What the program says about itself. -/
def usage : String :=
  "Canonicalize and combine integer value sets, each described by a signed\n"
    ++ "range, an unsigned range and known bits.\n"

/-- What running a command line gives. -/
structure Outcome where
  out : String
  /-- The notes, if they were asked for. -/
  log : List String
  fault : Option RunFault

namespace Command

/-- The steps of a command with its options and arguments. -/
def session (c : Command) (world : World) (o : Options) (arguments : List String) :
    Session String :=
  if o.help then return usage
  else
    match c with
    | .operation op => op.command world o arguments
    | .version =>
      match arguments with
      | [] => return Version.line programName
      | word :: _ => throw (.extraWord word)
    | .help => return usage
    | .completion => return usage

/-- The command that a command line names, and the other words.  A command line without
such a word asks for help. -/
def find (line : List String) : Except RunFault (Command × List String) :=
  match words line with
  | [] => .ok (.help, line)
  | word :: _ =>
    match ofName? word with
    | some c => .ok (c, dropName word line)
    | none => .error (.unknownCommand word)

/-- The configuration files that a command line can look at, seen from a directory. -/
def settingsFiles (directory : Path) (line : List String) : List Path :=
  match find line with
  | .error _ => []
  | .ok (_, rest) =>
    match Options.read rest with
    | .error _ => []
    | .ok (o, _) => (Path.resolve directory o.config).ancestors.map Settings.fileIn

/-- Run a command line. -/
def run (world : World) (line : List String) : Outcome :=
  match find line with
  | .error fault => ⟨"", [], some fault⟩
  | .ok (c, rest) =>
    match Options.read rest with
    | .error fault => ⟨"", [], some (.options fault)⟩
    | .ok (o, arguments) =>
      let (result, log) := (c.session world o arguments).run.run []
      let log := if o.verbose then log else []
      match result with
      | .ok out => ⟨out, log, none⟩
      | .error fault => ⟨"", log, some fault⟩

end Command
end WordRanges
