import WordRanges.Text.Letter
import WordRanges.Text.Numeral
import WordRanges.Text.Split

/-!
# Conditions on builds

A comment {lit}`//go:build condition` before the package clause tells when a file belongs to a
package.  If the condition holds only from some version of the language on, which a tag such
as {lit}`go1.21` stands for, then the file is written in that version.

Main definitions:

- {lit}`BuildCondition`, {lit}`BuildCondition.read?`: conditions, and how they are written.
- {lit}`BuildCondition.version?`: the least version for which a condition can hold.
-/

namespace WordRanges
namespace Source

/-- A condition on the tags of a build. -/
inductive BuildCondition where
  | tag (name : String)
  | not (x : BuildCondition)
  | and (x y : BuildCondition)
  | or (x y : BuildCondition)
deriving DecidableEq, Repr

namespace BuildCondition

/-! ## Reading -/

/-- The parts that a condition is written with. -/
inductive Part where
  | opening | closing | not | and | or
  | tag (name : String)
deriving DecidableEq, Repr

/-- A character of a tag. -/
def isTagChar (c : Char) : Bool :=
  Text.isLetter c || Text.isDigit c || c == '_' || c == '.'

/-- The tag at the beginning of a text, and the rest. -/
def splitTag : List Char → List Char × List Char
  | [] => ([], [])
  | c :: cs =>
    if isTagChar c then
      let (word, rest) := splitTag cs
      (c :: word, rest)
    else ([], c :: cs)

/-- The parts of a text; {lit}`fuel` bounds their number. -/
def partsWithin : Nat → List Char → Option (List Part)
  | 0, _ => none
  | _ + 1, [] => some []
  | fuel + 1, '(' :: cs => (partsWithin fuel cs).map (.opening :: ·)
  | fuel + 1, ')' :: cs => (partsWithin fuel cs).map (.closing :: ·)
  | fuel + 1, '!' :: cs => (partsWithin fuel cs).map (.not :: ·)
  | fuel + 1, '&' :: '&' :: cs => (partsWithin fuel cs).map (.and :: ·)
  | fuel + 1, '|' :: '|' :: cs => (partsWithin fuel cs).map (.or :: ·)
  | fuel + 1, c :: cs =>
    if c == ' ' || c == '\t' then partsWithin fuel cs
    else if isTagChar c then
      let (word, rest) := splitTag (c :: cs)
      (partsWithin fuel rest).map (.tag (String.ofList word) :: ·)
    else none

/-- What a condition can be made of at some place. -/
inductive Level where
  /-- Alternatives. -/
  | any
  /-- Parts that all have to hold. -/
  | all
  /-- A tag or a condition in parentheses, which may be negated. -/
  | literal
  /-- A tag or a condition in parentheses. -/
  | atom

/-- Read a condition of a level; {lit}`fuel` bounds the depth. -/
def readWithin : Nat → Level → List Part → Option (BuildCondition × List Part)
  | 0, _, _ => none
  | fuel + 1, .any, ps => do
    match ← readWithin fuel .all ps with
    | (x, .or :: ps) =>
      let (y, ps) ← readWithin fuel .any ps
      return (.or x y, ps)
    | r => return r
  | fuel + 1, .all, ps => do
    match ← readWithin fuel .literal ps with
    | (x, .and :: ps) =>
      let (y, ps) ← readWithin fuel .all ps
      return (.and x y, ps)
    | r => return r
  | fuel + 1, .literal, .not :: ps => do
    let (x, ps) ← readWithin fuel .atom ps
    return (.not x, ps)
  | fuel + 1, .literal, ps => readWithin fuel .atom ps
  | fuel + 1, .atom, .opening :: ps => do
    match ← readWithin fuel .any ps with
    | (x, .closing :: ps) => return (x, ps)
    | _ => none
  | _ + 1, .atom, .tag name :: ps => some (.tag name, ps)
  | _ + 1, .atom, _ => none

/-- What comments with a condition start with. -/
def commentStart : String := "//go:build"

/-- The condition of a comment; nothing if it has none. -/
def read? (comment : String) : Option BuildCondition := do
  let rest ← Text.afterStart? commentStart.toList comment.toList
  let rest := (rest.reverse.dropWhile Text.isBlank).reverse
  let separated :=
    match rest with
    | [] => true
    | c :: _ => Text.isBlank c
  if !separated then none
  let ps ← partsWithin (rest.length + 1) (rest.dropWhile Text.isBlank)
  match ← readWithin (4 * ps.length + 4) .any ps with
  | (x, []) => return x
  | _ => none

/-! ## Versions -/

/-- The version that a tag stands for. -/
def tagVersion? (name : String) : Option Nat :=
  if name == "go1" then some 0
  else
    match Text.cut "go1.".toList name.toList with
    | (_, some (c :: cs)) => (Numeral.readDigits 10 (Nat.pow 2 63 - 1) false 0 (c :: cs)).toOption
    | _ => none

/-- The larger of two versions; nothing is less than any version. -/
def later? : Option Nat → Option Nat → Option Nat
  | some m, some n => some (max m n)
  | none, v => v
  | v, none => v

/-- The smaller of two versions; nothing is less than any version. -/
def earlier? : Option Nat → Option Nat → Option Nat
  | some m, some n => some (min m n)
  | _, _ => none

/-- The least version for which a condition, or its negation unless {lit}`positive`, can hold. -/
def leastVersion? : BuildCondition → Bool → Option Nat
  | .tag name, positive => if positive then tagVersion? name else none
  | .not x, positive => x.leastVersion? !positive
  | .and x y, true => later? (x.leastVersion? true) (y.leastVersion? true)
  | .and x y, false => earlier? (x.leastVersion? false) (y.leastVersion? false)
  | .or x y, true => earlier? (x.leastVersion? true) (y.leastVersion? true)
  | .or x y, false => later? (x.leastVersion? false) (y.leastVersion? false)

/-- The least version for which a condition can hold. -/
def version? (x : BuildCondition) : Option Nat :=
  x.leastVersion? true

end BuildCondition
end Source
end WordRanges
