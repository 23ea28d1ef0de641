import WordRanges.Text.Printable

/-!
# Quoted text

Text between quotes, with a backslash before the quote and the backslash themselves and
in the names of characters that cannot be shown: the seven control characters that have
a letter, other ASCII control characters by two hexadecimal digits, and all other
unprintable characters by four or eight.

Main definitions:

- {lit}`quoted`: text in double quotes.
- {lit}`quotedChar`: one character in single quotes.
- {lit}`quotedBytes`: encoded text in double quotes.
-/

namespace WordRanges
namespace Text

/-- The last {lit}`digits` hexadecimal digits of a number, most significant first. -/
def hexDigits (digits n : Nat) : List Char :=
  (List.range digits).reverse.map fun i => Nat.digitChar (n / Nat.pow 16 i % 16)

/-- The letter that names a control character. -/
def controlLetter? (c : Char) : Option Char :=
  match c.toNat with
  | 0x7 => some 'a'
  | 0x8 => some 'b'
  | 0x9 => some 't'
  | 0xa => some 'n'
  | 0xb => some 'v'
  | 0xc => some 'f'
  | 0xd => some 'r'
  | _ => none

/-- How a character is written between quotes. -/
def escapeChar (quote c : Char) : List Char :=
  if c = quote ∨ c = '\\' then ['\\', c]
  else if isPrintable c then [c]
  else
    match controlLetter? c with
    | some letter => ['\\', letter]
    | none =>
      if c.toNat < 0x80 then '\\' :: 'x' :: hexDigits 2 c.toNat
      else if c.toNat < 0x10000 then '\\' :: 'u' :: hexDigits 4 c.toNat
      else '\\' :: 'U' :: hexDigits 8 c.toNat

/-- Text in double quotes. -/
def quoted (s : String) : String :=
  String.ofList ('"' :: s.toList.flatMap (escapeChar '"') ++ ['"'])

/-- The first character of encoded text, with the number of its bytes. -/
def firstChar? (bytes : List UInt8) : Option (Char × Nat) :=
  [1, 2, 3, 4].findSome? fun n =>
    match String.fromUTF8? (ByteArray.mk (bytes.take n).toArray) with
    | some s => s.toList.head?.map fun c => (c, n)
    | none => none

/-- How encoded text is written between quotes; a byte that belongs to no character is written
by its two hexadecimal digits, and {lit}`fuel` bounds the number of bytes. -/
def escapeBytes (quote : Char) : Nat → List UInt8 → List Char
  | 0, _ => []
  | _ + 1, [] => []
  | fuel + 1, b :: bs =>
    match firstChar? (b :: bs) with
    | some (c, n) => escapeChar quote c ++ escapeBytes quote fuel ((b :: bs).drop n)
    | none => '\\' :: 'x' :: hexDigits 2 b.toNat ++ escapeBytes quote fuel bs

/-- Encoded text in double quotes. -/
def quotedBytes (bytes : List UInt8) : String :=
  String.ofList ('"' :: escapeBytes '"' bytes.length bytes ++ ['"'])

/-- A character in single quotes. -/
def quotedChar (c : Char) : String :=
  String.ofList ('\'' :: escapeChar '\'' c ++ ['\''])

end Text
end WordRanges
