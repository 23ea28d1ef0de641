import WordRanges.Command.Run

/-!
# The program

The configuration files that a command line can look at are opened first; all else is
{lit}`Command.run`.  Results go to the standard output, notes and faults to the standard
error.

Main definitions:

- {lit}`openFile`: open a file of the machine.
- {lit}`main`: the program.
-/

namespace WordRanges

/-- What a failure to open or to read a file means.  A directory can be opened but not read; the
failure to read it names no file. -/
def openedOfFailure : IO.Error → Opened
  | .noFileOrDirectory .. => .missing
  | .inappropriateType none _ _ => .found .directory
  | .inappropriateType (some _) _ reason => .refused reason
  | .permissionDenied _ _ reason => .refused reason
  | failure => .refused failure.toString

/-- Open a file of the machine. -/
def openFile (path : Path) : IO Opened := do
  try
    let bytes ← IO.FS.readBinFile path.text
    return .found ((String.fromUTF8? bytes).elim .garbled .text)
  catch failure => return openedOfFailure failure

/-- Open the files that a command line can look at. -/
def openFiles : List Path → IO (List (Path × Opened))
  | [] => return []
  | path :: paths => do
    let opened ← openFile path
    return (path, opened) :: (← openFiles paths)

/-- Run a command line, and give the exit code. -/
def runLine (line : List String) : IO UInt32 := do
  let directory := Path.resolve [] (← IO.currentDir).toString
  let files ← openFiles (Command.settingsFiles directory line)
  let outcome := Command.run ⟨directory, fun path => (files.lookup path).getD .missing⟩ line
  for note in outcome.log do
    IO.eprintln ("debug: " ++ note)
  IO.print outcome.out
  match outcome.fault with
  | none => return 0
  | some fault =>
    IO.eprintln ("error: " ++ fault.message)
    return 1

end WordRanges

/-- The program. -/
def main (line : List String) : IO UInt32 :=
  WordRanges.runLine line
