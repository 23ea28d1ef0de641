import WordRanges.Text.Split

/-!
# File names in source code

A file name is brought to its shortest form by its text alone: empty parts and single
dots go away, and two dots take the part before them with them.

Main definitions:

- {lit}`cleanPath`: the shortest form of a file name.
- {lit}`joinPath`: a file name seen from a directory.
- {lit}`extension`: the part of a file name from its last dot on.
-/

namespace WordRanges
namespace Text

/-- The parts of a clean path, in reverse, after one more part. -/
def cleanStep (rooted : Bool) (parts : List String) (part : String) : List String :=
  if part = "" ∨ part = "." then parts
  else if part = ".." then
    match parts with
    | [] => if rooted then [] else [".."]
    | last :: rest => if last = ".." then ".." :: parts else rest
  else part :: parts

/-- The shortest form of a file name. -/
def cleanPath (name : String) : String :=
  let cs := name.toList
  let rooted := cs.head? == some '/'
  let parts := ((splitAll '/' cs).map String.ofList).foldl (cleanStep rooted) []
  let body := "/".intercalate parts.reverse
  if rooted then "/" ++ body else if body = "" then "." else body

/-- The directory part of a file name, with its final slash. -/
def directoryOf (name : String) : String :=
  String.ofList (name.toList.reverse.dropWhile (· != '/')).reverse

/-- A file name seen from a directory. -/
def joinPath (directory name : String) : String :=
  if directory = "" then (if name = "" then "" else cleanPath name)
  else cleanPath (directory ++ "/" ++ name)

/-- The part of a file name from its last dot on, or nothing if it has no dot. -/
def extension (name : String) : String :=
  let last := (name.toList.reverse.takeWhile (· != '/'))
  if last.contains '.' then String.ofList ('.' :: (last.takeWhile (· != '.')).reverse) else ""

end Text
end WordRanges
