import PottsOracle.Command.Run
import PottsOracle.Synthetic.Given

/-!
# The program

Everything that talks to the outside: arguments, files and the two output channels.  Draws come from
a fixed source, in which all of them are one half, so that every run on the same settings gives the
same result.
-/

namespace PottsOracle

/-- A text as a string; half a surrogate pair becomes a question mark. -/
def Text.toString (t : Text) : String :=
  String.ofList (t.map fun c => if 0xD800 ≤ c ∧ c < 0xE000 then '?' else Char.ofNat c)

/-- What a path leads to in the file system.  What is there but cannot be read as a text counts as
a directory. -/
def Path.lookUp (path : Path) : IO Found := do
  try
    let content ← IO.FS.readFile (Text.toString path.toText)
    return .file (Text.ofString content)
  catch
    | .noFileOrDirectory .. => return .nothing
    | _ => return .directory

end PottsOracle

open PottsOracle in
/-- Looks for settings if the arguments name any, runs the command and prints what it says. -/
def main (arguments : List String) : IO UInt32 := do
  let arguments := arguments.map Text.ofString
  let found ← match Arguments.read arguments with
    | .run ⟨some (.path path), _, _⟩ => (Path.ofText path).lookUp
    | _ => pure .nothing
  match Command.run arguments (fun _ => found) (.ok Draws.halves) (Text.ofString "0.0") with
  | .exited code output errors =>
    IO.print (Text.toString output)
    IO.eprint (Text.toString errors)
    return code.toUInt32
  | .explained code =>
    IO.println "usage: [-h] [--config CONFIG] [--dry-run] [--verbose]"
    return code.toUInt32
  | .failed _ =>
    IO.eprintln "The settings cannot be used."
    return 1
