/-!
# Version texts

Main definitions:

- {lit}`Version.line`: the version of a program without a release number.
- {lit}`Version.Component.text`: a component that a program was built from.
-/

namespace WordRanges
namespace Version

/-- The version of a program without a release number. -/
def line (program : String) : String :=
  program ++ " (no version)\n"

/-- A component that a program was built from. -/
structure Component where
  path : String
  version : String
  /-- The checksum, empty if there is none. -/
  sum : String
  /-- The path of a component used in its place. -/
  replacement : Option String
deriving DecidableEq, Repr

/-- The line of a component: its path, its version if it is a released one, its checksum
and its replacement. -/
def Component.text (c : Component) : String :=
  "\t" ++ c.path
    ++ (if c.version = "(devel)" then "" else "@" ++ c.version)
    ++ (if c.sum = "" then "" else " (sum: " ++ c.sum ++ ")")
    ++ (match c.replacement with
      | some path => " (replace: " ++ path ++ ")"
      | none => "")
    ++ "\n"

end Version
end WordRanges
