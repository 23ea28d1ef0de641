import WordRanges.Config.Path

/-!
# Files

What opening a path can give, and a tree of files in which paths are opened.

Main definitions:

- {lit}`File` and {lit}`Opened`: what can stand at a path, and the outcome of opening it.
- {lit}`FileTree.openPath`: opening a path in a tree.
-/

namespace WordRanges

/-- What stands at a path that can be opened. -/
inductive File where
  | directory
  /-- A file that holds no text. -/
  | garbled
  | text (content : String)
deriving DecidableEq, Repr

/-- What opening a path gives. -/
inductive Opened where
  /-- There is nothing at the path. -/
  | missing
  /-- The path cannot be opened, for a reason other than a missing name. -/
  | refused (reason : String)
  | found (file : File)
deriving DecidableEq, Repr

/-- A tree of files, given by its files and by directories that may be empty. -/
structure FileTree where
  files : List (Path × String)
  directories : List Path

namespace FileTree

/-- The path is a directory of the tree: it is given as one, or leads to a file or to a
directory. -/
def isDirectory (t : FileTree) (path : Path) : Bool :=
  path.isEmpty || t.directories.any path.isPrefixOf
    || t.files.any fun file => path.isPrefixOf file.1 && path != file.1

/-- What stands at a path, if its parents are directories. -/
def entry (t : FileTree) (path : Path) : Opened :=
  match t.files.lookup path with
  | some content => .found (.text content)
  | none => if t.isDirectory path then .found .directory else .missing

/-- The longest name that a file can have, in bytes. -/
def longestName : Nat := 255

/-- Follow the remaining names from a directory. -/
def follow (t : FileTree) (here : Path) : List String → Opened
  | [] => t.entry here
  | name :: names =>
    if longestName < name.utf8ByteSize then .refused "file name too long"
    else
      match t.entry (here ++ [name]) with
      | .missing => .missing
      | .found (.text content) =>
        if names.isEmpty then .found (.text content) else .refused "not a directory"
      | _ => follow t (here ++ [name]) names

/-- Open a path in the tree.  A name cannot hold the null character. -/
def openPath (t : FileTree) (path : Path) : Opened :=
  if path.any fun name => name.toList.contains '\x00' then .refused "invalid argument"
  else t.follow [] path

end FileTree
end WordRanges
