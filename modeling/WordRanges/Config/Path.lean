import WordRanges.Text.Split

/-!
# Paths

An absolute path is the list of names from the root of the file system.  Paths are
compared and resolved by their names alone, without looking at any file.

Main definitions:

- {lit}`Path.parent`: the directory above a path.
- {lit}`Path.resolve`: the path that a text names, seen from a directory.
- {lit}`Path.ancestors`: a directory and all directories above it.
-/

namespace WordRanges

/-- The names on the way from the root. -/
abbrev Path := List String

namespace Path

/-- The directory above a path; the root is above itself. -/
def parent (path : Path) : Path :=
  path.dropLast

/-- A path that is not above itself is longer than its parent. -/
theorem length_parent_lt {path : Path} (h : ¬ path.parent = path) :
    path.parent.length < path.length := by
  cases path with
  | nil => exact absurd rfl h
  | cons name names => simp [parent]

/-- The path after one more name of a text: an empty name and a single dot stay, two dots
go up. -/
def step (path : Path) (name : String) : Path :=
  if name = "" ∨ name = "." then path
  else if name = ".." then path.parent
  else path ++ [name]

/-- The path that a text names, seen from the directory {lit}`base`. -/
def resolve (base : Path) (text : String) : Path :=
  let start : Path := if text.toList.head? = some '/' then [] else base
  ((Text.splitAll '/' text.toList).map String.ofList).foldl step start

/-- The text of a path. -/
def text (path : Path) : String :=
  "/" ++ "/".intercalate path

/-- A directory and all directories above it, the nearest first. -/
def ancestors (path : Path) : List Path :=
  (List.range (path.length + 1)).map fun up => path.take (path.length - up)

end Path
end WordRanges
