import WordRanges.Domain.Policy
import WordRanges.Notation.Pattern
import WordRanges.Text.Numeral
import WordRanges.Text.Split

/-!
# The notation of values

Values are written as {lit}`lo..hi,ulo..uhi,bits@widen`: a signed range, an unsigned
range, a bit pattern and a widen counter.  The signed range can be a single number or
{lit}`*` for all words; the other parts can be left out; the unsigned range may end with
the letter {lit}`u`.  Numbers are numerals in any base.

A text is a sequence of characters.  Bytes that encode no characters are outside of this notation
and are not modelled as texts.

Main definitions:

- {lit}`ValueText.read`: the constraint and the counter that a text describes.
- {lit}`ValueText.write`: the text of a value.
- {lit}`ValueText.readMember`: a single word in signed or unsigned notation.
-/

namespace WordRanges
namespace ValueText

variable {w : Nat}

/-! ## Faults -/

/-- The two ways of reading a number. -/
inductive Sign where
  | signed
  | unsigned
deriving DecidableEq, Repr

/-- The name under which a failed reading is reported. -/
def Sign.reader : Sign → String
  | .signed => "strconv.ParseInt"
  | .unsigned => "strconv.ParseUint"

/-- A numeral that could not be read. -/
structure NumberFault where
  sign : Sign
  text : String
  fault : Numeral.Fault
deriving DecidableEq, Repr

/-- The wording of a numeral that could not be read. -/
def NumberFault.message (f : NumberFault) : String :=
  f.sign.reader ++ ": parsing " ++ Text.quoted f.text ++ ": " ++ f.fault.message

/-- Why a range is refused. -/
inductive RangeFault where
  | number (fault : NumberFault)
  | inverted (lo hi : Int)
deriving DecidableEq, Repr

/-- The wording of a range that is refused. -/
def RangeFault.message : RangeFault → String
  | .number fault => fault.message
  | .inverted lo hi =>
    "lower bound " ++ lo.repr ++ " is larger than upper bound " ++ hi.repr

/-- Why the text of a value is refused. -/
inductive Cause where
  | badCounter (text : String)
  | tooManyParts
  | signedRange (fault : RangeFault)
  | unsignedRange (fault : RangeFault)
  | pattern (fault : PatternFault)
  | extraPart (text : String)
deriving DecidableEq, Repr

/-- The wording of a cause. -/
def Cause.message : Cause → String
  | .badCounter text => "bad widen counter " ++ Text.quoted text
  | .tooManyParts => "too many components"
  | .signedRange fault => "signed range: " ++ fault.message
  | .unsignedRange fault => "unsigned range: " ++ fault.message
  | .pattern fault => fault.message
  | .extraPart text => "unexpected component " ++ Text.quoted text

/-- A text that describes no value. -/
structure Fault where
  text : String
  cause : Cause
deriving DecidableEq, Repr

/-- The wording of a text that describes no value. -/
def Fault.message (f : Fault) : String :=
  "invalid value " ++ Text.quoted f.text ++ ": " ++ f.cause.message

/-! ## Reading -/

/-- A number of a word, read in one of the two ways. -/
def readNumber (w : Nat) (sign : Sign) (cs : List Char) : Except NumberFault Int :=
  let result :=
    match sign with
    | .signed => Numeral.readSigned w cs
    | .unsigned => (Numeral.readUnsigned (Nat.pow 2 w - 1) cs).map Int.ofNat
  result.mapError fun fault => ⟨sign, String.ofList cs, fault⟩

/-- A range {lit}`lo..hi`, or a single number for a range of one. -/
def readRange (w : Nat) (sign : Sign) (cs : List Char) : Except RangeFault (Bounds w) := do
  let (loText, hiText?) := Text.cut ['.', '.'] cs
  let lo ← (readNumber w sign loText).mapError .number
  let hi ← (readNumber w sign (hiText?.getD loText)).mapError .number
  if hi < lo then
    .error (.inverted lo hi)
  else
    .ok ⟨BitVec.ofInt w lo, BitVec.ofInt w hi⟩

/-- The signed range of a value, or a star for all words. -/
def readSignedPart (w : Nat) (part : List Char) : Except Cause (Bounds w) :=
  if part = ['*'] then .ok (.fullSigned w)
  else (readRange w .signed part).mapError .signedRange

/-- The unsigned range and the parts after it; a part without dots is no range. -/
def readUnsignedPart (w : Nat) (parts : List (List Char)) :
    Except Cause (Bounds w × List (List Char)) :=
  match parts with
  | part :: others =>
    if (Text.cut ['.', '.'] part).2.isSome then
      match readRange w .unsigned (Text.dropFinal 'u' part) with
      | .error fault => .error (.unsignedRange fault)
      | .ok bounds => .ok (bounds, others)
    else
      .ok (.fullUnsigned w, parts)
  | [] => .ok (.fullUnsigned w, parts)

/-- The bit pattern and the parts after it. -/
def readPatternPart (w : Nat) (parts : List (List Char)) :
    Except Cause (KnownBits w × List (List Char)) :=
  match parts with
  | part :: others =>
    match KnownBits.ofPattern w (String.ofList part) with
    | .error fault => .error (.pattern fault)
    | .ok bits => .ok (bits, others)
  | [] => .ok (.unknown w, [])

/-- The constraint described by the parts between commas. -/
def readParts (w : Nat) (first : List Char) (others : List (List Char)) :
    Except Cause (Constraint w) := do
  if 2 < others.length then
    throw .tooManyParts
  let signed ← readSignedPart w first
  let (unsigned, others) ← readUnsignedPart w others
  let (bits, others) ← readPatternPart w others
  match others with
  | part :: _ => throw (.extraPart (String.ofList part))
  | [] => return ⟨signed, unsigned, bits⟩

/-- The widen counter after the at sign, which must not be negative. -/
def readCounter (text : Option (List Char)) : Except Cause Int :=
  match text with
  | none => .ok 0
  | some cs =>
    match Numeral.readDecimal cs with
    | .ok n => if n < 0 then .error (.badCounter (String.ofList cs)) else .ok n
    | .error _ => .error (.badCounter (String.ofList cs))

/-- What a text describes. -/
structure Reading (w : Nat) where
  constraint : Constraint w
  widen : Int
deriving DecidableEq, Repr

/-- The constraint and the counter that a text describes.  The counter is read first. -/
def read (w : Nat) (text : String) : Except Fault (Reading w) :=
  let (body, counter?) := Text.cut ['@'] text.toList
  let parts := Text.splitParts ',' body
  let result : Except Cause (Reading w) := do
    let widen ← readCounter counter?
    let constraint ← readParts w parts.1 parts.2
    return ⟨constraint, widen⟩
  result.mapError fun cause => ⟨text, cause⟩

/-! ## Writing -/

/-- The text of a value, with all parts; the counter only if it is positive. -/
def write (v : Value w) : String :=
  v.constraint.signed.signedText ++ "," ++ v.constraint.unsigned.unsignedText ++ ","
    ++ v.bits.pattern ++ (if 0 < v.widen then "@" ++ v.widen.repr else "")

/-! ## Single words -/

/-- A word and the way in which it was written. -/
structure Member (w : Nat) where
  word : BitVec w
  sign : Sign
deriving DecidableEq, Repr

/-- A text that is no word. -/
structure MemberFault where
  text : String
  fault : NumberFault
deriving DecidableEq, Repr

/-- The wording of a text that is no word. -/
def MemberFault.message (f : MemberFault) : String :=
  "invalid integer " ++ Text.quoted f.text ++ ": " ++ f.fault.message

/-- A word in signed notation or, if it is none, in unsigned notation. -/
def readMember (w : Nat) (text : String) : Except MemberFault (Member w) :=
  match readNumber w .signed text.toList with
  | .ok n => .ok ⟨BitVec.ofInt w n, .signed⟩
  | .error _ =>
    match readNumber w .unsigned text.toList with
    | .ok n => .ok ⟨BitVec.ofInt w n, .unsigned⟩
    | .error fault => .error ⟨text, fault⟩

end ValueText
end WordRanges
