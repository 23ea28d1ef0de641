import WordRanges.Notation.Value

/-!
# Flags of the command line

Words that start with a dash are flags: long ones after two dashes, with their value
after an equals sign or in the next word, and groups of letters after one dash.  Flags
may stand anywhere before a word of two dashes; all other words are arguments.

Main definitions:

- {lit}`Flag`: the flags of all commands.
- {lit}`Options`: what the flags say.
- {lit}`Options.read`: the options and the arguments of a command line.
-/

namespace WordRanges

/-- The flags that every command takes. -/
inductive Flag where
  | width
  | config
  | json
  | pretty
  | verbose
  | help
deriving DecidableEq, Repr

namespace Flag

/-- All flags. -/
def all : List Flag := [.width, .config, .json, .pretty, .verbose, .help]

/-- The long name. -/
def name : Flag → String
  | .width => "width"
  | .config => "config"
  | .json => "json"
  | .pretty => "pretty"
  | .verbose => "verbose"
  | .help => "help"

/-- The letter for use after one dash. -/
def letter? : Flag → Option Char
  | .verbose => some 'v'
  | .help => some 'h'
  | _ => none

/-- The flag needs a value; the other flags are switches. -/
def needsValue : Flag → Bool
  | .width => true
  | .config => true
  | _ => false

/-- The flag with a long name. -/
def ofName? (name : String) : Option Flag :=
  all.find? fun f => f.name == name

/-- The flag with a letter. -/
def ofLetter? (letter : Char) : Option Flag :=
  all.find? fun f => f.letter? == some letter

/-- How messages call a flag. -/
def title (f : Flag) : String :=
  match f.letter? with
  | some letter => "-" ++ letter.toString ++ ", --" ++ f.name
  | none => "--" ++ f.name

end Flag

/-- What the flags of a command line say. -/
structure Options where
  width : Option Int
  config : String
  json : Option Bool
  pretty : Bool
  verbose : Bool
  help : Bool
deriving DecidableEq, Repr

namespace Options

/-- The options of a command line without flags. -/
def default : Options :=
  ⟨none, ".", none, false, false, false⟩

/-- Why a value of a flag is refused. -/
inductive ValueFault where
  | number (fault : ValueText.NumberFault)
  | truth (text : String)
deriving DecidableEq, Repr

/-- The wording of a value that is refused. -/
def ValueFault.message : ValueFault → String
  | .number fault => fault.message
  | .truth text => "strconv.ParseBool: parsing " ++ Text.quoted text ++ ": invalid syntax"

/-- Why a command line is refused. -/
inductive Fault where
  | badForm (word : String)
  | unknownName (name : String)
  /-- A letter that is no flag, and the letters of its group from there on. -/
  | unknownLetter (letters : List Char)
  | missingValue (word : String)
  | badValue (flag : Flag) (text : String) (fault : ValueFault)
deriving DecidableEq, Repr

/-- The first byte of a character's encoding, shown as a character of its own. -/
def firstByte (c : Char) : Char :=
  match (String.utf8EncodeChar c).head? with
  | some b => Char.ofNat b.toNat
  | none => c

/-- The wording of a fault. -/
def Fault.message : Fault → String
  | .badForm word => "bad flag syntax: " ++ word
  | .unknownName name => "unknown flag: --" ++ name
  | .unknownLetter letters =>
    "unknown shorthand flag: " ++ Text.quotedChar (firstByte (letters.headD ' ')) ++ " in -"
      ++ String.ofList letters
  | .missingValue word => "flag needs an argument: " ++ word
  | .badValue flag text fault =>
    "invalid argument " ++ Text.quoted text ++ " for " ++ Text.quoted flag.title ++ " flag: "
      ++ fault.message

/-- The spellings of true and of false. -/
def readTruth (text : String) : Except ValueFault Bool :=
  if text ∈ ["1", "t", "T", "true", "TRUE", "True"] then .ok true
  else if text ∈ ["0", "f", "F", "false", "FALSE", "False"] then .ok false
  else .error (.truth text)

/-- The options with a flag set to a value; of several values the last one counts. -/
def set (o : Options) (flag : Flag) (text : String) : Except Fault Options :=
  let result : Except ValueFault Options :=
    match flag with
    | .width =>
      match ValueText.readNumber 64 .signed text.toList with
      | .ok n => .ok { o with width := some n }
      | .error fault => .error (.number fault)
    | .config => .ok { o with config := text }
    | .json => (readTruth text).map fun b => { o with json := some b }
    | .pretty => (readTruth text).map fun b => { o with pretty := b }
    | .verbose => (readTruth text).map fun b => { o with verbose := b }
    | .help => (readTruth text).map fun b => { o with help := b }
  result.mapError (.badValue flag text)

/-- The options after a group of letters.  All flags with a letter are switches; one may
be given a value after an equals sign.  Groups that start with {lit}`test.` are reserved. -/
def setLetters (o : Options) : List Char → Except Fault Options
  | [] => .ok o
  | c :: cs =>
    if ['t', 'e', 's', 't', '.'].isPrefixOf (c :: cs) then .ok o
    else
      match Flag.ofLetter? c with
      | none => .error (.unknownLetter (c :: cs))
      | some flag =>
        match cs with
        | '=' :: d :: ds => o.set flag (String.ofList (d :: ds))
        | _ => do
          let o ← o.set flag "true"
          setLetters o cs

/-- The options and the arguments of a command line. -/
def readFrom (o : Options) : List String → Except Fault (Options × List String)
  | [] => .ok (o, [])
  | word :: words =>
    match word.toList with
    | ['-', '-'] => .ok (o, words)
    | '-' :: '-' :: cs =>
      let (name, value?) := Text.cut ['='] cs
      if name.isEmpty || name.head? = some '-' then .error (.badForm word)
      else
        match Flag.ofName? (String.ofList name), value? with
        | none, _ => .error (.unknownName (String.ofList name))
        | some flag, some value => do
          let o ← o.set flag (String.ofList value)
          readFrom o words
        | some flag, none =>
          if flag.needsValue then
            match words with
            | [] => .error (.missingValue word)
            | value :: words => do
              let o ← o.set flag value
              readFrom o words
          else do
            let o ← o.set flag "true"
            readFrom o words
    | '-' :: c :: cs => do
      let o ← o.setLetters (c :: cs)
      readFrom o words
    | _ => do
      let (o, arguments) ← readFrom o words
      return (o, word :: arguments)

/-- The options and the arguments of a command line, starting from the defaults. -/
def read (words : List String) : Except Fault (Options × List String) :=
  default.readFrom words

end Options
end WordRanges
