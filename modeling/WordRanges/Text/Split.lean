/-!
# Cutting text

Cutting a text at the first separator and splitting it at all of them, over lists of
characters.

Main definitions:

- {lit}`cut`: the parts before and after the first separator.
- {lit}`splitAll`: the parts between all separators.
-/

namespace WordRanges
namespace Text

/-- The text after a given beginning. -/
def afterStart? : List Char → List Char → Option (List Char)
  | [], cs => some cs
  | _ :: _, [] => none
  | d :: ds, c :: cs => if c = d then afterStart? ds cs else none

/-- The text before the first separator, and the text after it if there is one. -/
def cut (separator : List Char) : List Char → List Char × Option (List Char)
  | [] => ([], afterStart? separator [])
  | c :: cs =>
    match afterStart? separator (c :: cs) with
    | some rest => ([], some rest)
    | none =>
      let (before, after) := cut separator cs
      (c :: before, after)

/-- The first part of a text split at every separator character, and the other parts. -/
def splitParts (separator : Char) : List Char → List Char × List (List Char)
  | [] => ([], [])
  | c :: cs =>
    let (first, others) := splitParts separator cs
    if c = separator then ([], first :: others) else (c :: first, others)

/-- The parts of a text between separator characters; there is always at least one. -/
def splitAll (separator : Char) (cs : List Char) : List (List Char) :=
  (splitParts separator cs).1 :: (splitParts separator cs).2

/-- The text without a given last character, if it ends with that. -/
def dropFinal (final : Char) (cs : List Char) : List Char :=
  if cs.getLast? = some final then cs.dropLast else cs

end Text
end WordRanges
