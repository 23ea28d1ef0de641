import WordRanges.Command.Flags

/-!
# Names of commands

The first word of a command line that is neither a flag nor the value of a flag names the
command.  For a word that names none, commands with a similar name are suggested.

Main definitions:

- {lit}`Operation`, {lit}`Command`: the operations on values, and all commands.
- {lit}`Command.words`, {lit}`Command.dropName`: finding the name on a command line.
- {lit}`Command.editDistance`, {lit}`Command.suggestions`: similar names.
-/

namespace WordRanges

/-- The operations on values. -/
inductive Operation where
  | canon
  | meet
  | join
  | widen
  | narrow
  | contains
deriving DecidableEq, Repr

/-- The commands of the program. -/
inductive Command where
  | operation (op : Operation)
  | version
  | help
  | completion
deriving DecidableEq, Repr

/-- The name of an operation. -/
def Operation.name : Operation → String
  | .canon => "canon"
  | .meet => "meet"
  | .join => "join"
  | .widen => "widen"
  | .narrow => "narrow"
  | .contains => "contains"

namespace Command

/-- The name of a command. -/
def name : Command → String
  | .operation op => op.name
  | .version => "version"
  | .help => "help"
  | .completion => "completion"

/-- All commands. -/
def all : List Command := [
  .operation .canon, .operation .meet, .operation .join, .operation .widen, .operation .narrow,
  .operation .contains, .version, .help, .completion]

/-- The command with a name. -/
def ofName? (name : String) : Option Command :=
  all.find? fun c => c.name == name

/-! ## Finding the name -/

/-- The switches known before a command is found. -/
def isSwitch (flag : Flag) : Bool :=
  !flag.needsValue && flag != .help

/-- A word that starts with a dash. -/
def isDashed (word : String) : Bool :=
  word.toList.head? == some '-'

/-- A flag whose value is the next word: any flag without an equals sign that is not known
to be a switch.  After one dash only a single letter counts. -/
def takesNext (word : String) : Bool :=
  match word.toList with
  | '-' :: '-' :: cs =>
    !cs.contains '=' && !((Flag.ofName? (String.ofList cs)).any isSwitch)
  | ['-', c] =>
    c != '=' && c.utf8Size == 1 && !((Flag.ofLetter? c).any isSwitch)
  | _ => false

/-- The words that are neither flags nor their values, up to two dashes.  A flag that
takes the last word, or has none to take, ends the search. -/
def words : List String → List String
  | [] => []
  | word :: rest =>
    if word = "--" then []
    else if takesNext word then
      match rest with
      | [] => []
      | [_] => []
      | _ :: rest => words rest
    else if word = "" || isDashed word then words rest
    else word :: words rest

/-- The command line without the first word that names the command. -/
def dropName (name : String) : List String → List String
  | [] => []
  | word :: rest =>
    if word = "--" then word :: rest
    else if takesNext word then
      match rest with
      | [] => [word]
      | value :: rest => word :: value :: dropName name rest
    else if word = name then rest
    else word :: dropName name rest

/-! ## Suggestions -/

/-- The small letter for a character; the dotted capital i and the Kelvin sign have one
among the letters of command names, too. -/
def lowerChar (c : Char) : Char :=
  if c.toNat = 0x130 then 'i' else if c.toNat = 0x212a then 'k' else c.toLower

/-- The bytes of a word in small letters. -/
def lowerBytes (s : String) : List UInt8 :=
  s.toList.flatMap fun c => String.utf8EncodeChar (lowerChar c)

/-- One row of the table of edit distances: {lit}`above` is the row above from the current
column on, {lit}`corner` the entry above the last one, {lit}`left` the last entry. -/
def distanceRow (a : UInt8) (corner left : Nat) : List UInt8 → List Nat → List Nat
  | b :: bs, up :: above =>
    let here := if a = b then corner else min (min up left) corner + 1
    here :: distanceRow a up here bs above
  | _, _ => []

/-- The row of the table for each byte of the first word. -/
def distanceRows (bs : List UInt8) : List UInt8 → List Nat → List Nat
  | [], row => row
  | a :: rest, row =>
    let first := row.headD 0
    distanceRows bs rest ((first + 1) :: distanceRow a first (first + 1) bs row.tail)

/-- The least number of bytes to insert, drop or replace to turn one word into the other. -/
def editDistance (a b : List UInt8) : Nat :=
  (distanceRows b a (List.range (b.length + 1))).getLastD 0

/-- Names at most this far away are suggested. -/
def suggestionDistance : Nat := 2

/-- The commands whose name is near a word or starts with it. -/
def suggestions (word : String) : List Command :=
  all.filter fun c =>
    c != .help && (editDistance (lowerBytes word) (lowerBytes c.name) ≤ suggestionDistance
      || (lowerBytes word).isPrefixOf (lowerBytes c.name))

/-- The advice for a word that names no command. -/
def advice (word : String) : String :=
  match suggestions word with
  | [] => ""
  | found => "\n\nDid you mean this?\n" ++ String.join (found.map fun c => "\t" ++ c.name ++ "\n")

end Command
end WordRanges
