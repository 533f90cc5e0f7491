import ScriptLab.CommandLine.Response

/-!
# The command

Reads what the arguments ask for, and prints the response to them.
-/

open ScriptLab.Files (Obstacle)
open ScriptLab.CommandLine

/-- The text of a file. -/
def readFile (path : String) : IO (Except Obstacle String) := do
  try
    return .ok (← IO.FS.readFile path)
  catch
    | .inappropriateType .. => return .error .isFolder
    | _ => return .error .missing

/-- Whether a program is given as input. -/
def takesInput : Command → Bool
  | .versions => false
  | .check program _ => program == "-"
  | .run program .. => program == "-"

def main (arguments : List String) : IO UInt32 := do
  let invocation := Invocation.ofArguments? arguments
  let paths := (invocation.map Invocation.paths).getD []
  let texts ← paths.mapM fun path => return (path, ← readFile path)
  let input ←
    if invocation.any fun i => takesInput i.command then (← IO.getStdin).readToEnd else pure ""
  let sources : Sources := ⟨fun path => (texts.lookup path).getD (.error .missing), input⟩
  let response := respond sources arguments
  IO.print (linesText response.output)
  IO.eprint (linesText response.errors)
  return response.code.toUInt32
