import WordRanges.Source.Constant
import WordRanges.Source.Lexer

/-!
# The constants of literals

Numbers, characters and texts as they are written in source code.  A character stands for
its code point, and a text is the sequence of the bytes of its encoding; escapes of
characters stand for the bytes of their encoding, and numeric escapes for single bytes.

Main definitions:

- {lit}`literalValue?`: the constant of a literal.
-/

namespace WordRanges
namespace Source

/-- A character or a byte between quotes. -/
inductive QuotedPart where
  | char (c : Char)
  | byte (b : Nat)

/-- The code point or the byte. -/
def QuotedPart.code : QuotedPart → Nat
  | .char c => c.toNat
  | .byte b => b

/-- The bytes of the encoding. -/
def QuotedPart.bytes : QuotedPart → List UInt8
  | .char c => (String.singleton c).toUTF8.toList
  | .byte b => [UInt8.ofNat b]

/-- The part that an escape stands for, given the characters after the backslash. -/
def escapedPart (cs : List Char) : QuotedPart :=
  let number (base : Nat) (ds : List Char) : Nat :=
    Constant.digitsValue base (ds.filterMap Numeral.digit?)
  match cs with
  | ['a'] => .char '\x07'
  | ['b'] => .char '\x08'
  | ['f'] => .char '\x0c'
  | ['n'] => .char '\n'
  | ['r'] => .char '\r'
  | ['t'] => .char '\t'
  | ['v'] => .char '\x0b'
  | [c] => .char c
  | 'x' :: ds => .byte (number 16 ds)
  | 'u' :: ds => .char (Char.ofNat (number 16 ds))
  | 'U' :: ds => .char (Char.ofNat (number 16 ds))
  | ds => .byte (number 8 ds)

/-- The parts of a text between quotes without the quotes; {lit}`fuel` bounds their number. -/
def quotedParts (quote : Char) : Nat → List Char → List QuotedPart
  | 0, _ => []
  | _ + 1, [] => []
  | fuel + 1, '\\' :: cs =>
    match escapeLength? quote cs with
    | some n => escapedPart (cs.take n) :: quotedParts quote fuel (cs.drop n)
    | none => []
  | fuel + 1, c :: cs => .char c :: quotedParts quote fuel cs

/-- The parts of a literal in quotes. -/
def partsOfLiteral (cs : List Char) : List QuotedPart :=
  let body := (cs.drop 1).dropLast
  quotedParts (cs.headD '"') body.length body

/-- The constant of a literal. -/
def literalValue? (kind : Token) (text : String) : Option Constant :=
  let cs := text.toList
  match kind with
  | .int => (Constant.readInt? cs).map .int
  | .float => (Constant.readFloat? cs).map .number
  | .imag => (Constant.readFloat? cs.dropLast).map (.complex (.int 0))
  | .char => (partsOfLiteral cs).head?.map fun p => .int p.code
  | .string =>
    if cs.head? = some '\x60' then
      some (.string (String.ofList ((cs.drop 1).dropLast)).toUTF8.toList)
    else some (.string ((partsOfLiteral cs).flatMap QuotedPart.bytes))
  | _ => none

end Source
end WordRanges
