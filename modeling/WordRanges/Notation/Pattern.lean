import WordRanges.Domain.KnownBits
import WordRanges.Text.Quoted

/-!
# Reading bit patterns

A bit pattern has exactly one byte for each bit of a word: {lit}`0`, {lit}`1` or {lit}`*`,
most significant bit first.  The bytes are those of a text; sequences of bytes that encode no
characters, none of which is a pattern, are not modelled.

Main definitions:

- {lit}`KnownBits.ofPattern`: the known bits that a pattern describes.
-/

namespace WordRanges

/-- Why a pattern is refused. -/
inductive PatternFault where
  /-- The pattern has the wrong number of bytes. -/
  | wrongLength (text : String) (width : Nat)
  /-- A byte of the pattern is none of the three that are allowed. -/
  | badByte (text : String) (byte : UInt8)
deriving DecidableEq, Repr

/-- The wording of a fault.  A byte is shown as the character of that number. -/
def PatternFault.message : PatternFault → String
  | .wrongLength text width =>
    "bits pattern " ++ Text.quoted text ++ " has " ++ text.utf8ByteSize.repr
      ++ " characters, want " ++ width.repr
  | .badByte text byte =>
    "bits pattern " ++ Text.quoted text ++ " contains " ++ Text.quotedChar (Char.ofNat byte.toNat)
      ++ ", want '0', '1' or '*'"

namespace KnownBits

variable {w : Nat}

/-- The byte of a known zero. -/
def zeroByte : UInt8 := 48

/-- The byte of a known one. -/
def oneByte : UInt8 := 49

/-- The byte of an unknown bit. -/
def unknownByte : UInt8 := 42

/-- The mask of the positions at which a byte occurs, the last byte being position zero. -/
def maskOf (w : Nat) (byte : UInt8) (bytes : List UInt8) : BitVec w :=
  bytes.foldl (fun mask b => mask <<< 1 ||| (if b = byte then 1 else 0)) 0

/-- The bits that a pattern describes. -/
def ofPattern (w : Nat) (text : String) : Except PatternFault (KnownBits w) :=
  let bytes := text.toUTF8.toList
  if bytes.length ≠ w then
    .error (.wrongLength text w)
  else
    match bytes.find? fun b => b ≠ zeroByte ∧ b ≠ oneByte ∧ b ≠ unknownByte with
    | some byte => .error (.badByte text byte)
    | none => .ok ⟨maskOf w zeroByte bytes, maskOf w oneByte bytes⟩

end KnownBits
end WordRanges
