import ScriptLab.CommandLine.Arguments
import ScriptLab.Number.Reading

/-!
# Commands

What a command line asks for: to list the versions, to check a program, or to run one.
-/

namespace ScriptLab.CommandLine

/-- What a command line asks for. A program is a path, or `-` for what is given as input. -/
inductive Command where
  | versions
  | check (program : String) (version : Option String)
  | run (program : String) (version : Option String) (timeoutMillis : Option Nat) (report : Bool)
deriving DecidableEq

/-- A command with the path of a configuration. -/
structure Invocation where
  config : Option String
  command : Command
deriving DecidableEq

/-- A natural number of 64 bits in decimal digits. -/
def readWord? (text : String) : Option Nat :=
  let digits := match text.toList with
    | '+' :: digits => digits
    | digits => digits
  let n := Number.ofDigits digits
  if digits.isEmpty || !digits.all Char.isDigit || UInt64.size ≤ n then none else some n

/-- A path must not be empty. -/
def readPath? (text : String) : Option String :=
  if text.isEmpty then none else some text

namespace Command

/-- The option for the version of a program. -/
def versionSwitch : Switch := { name := "engine", letter := some 'e' }

/-- The options of a command. -/
def switches : String → List Switch
  | "check" => [versionSwitch]
  | "run" => [versionSwitch, { name := "timeout-ms" }, { name := "json", valued := false }]
  | _ => []

/-- A command by its name, its options and its operands. -/
def ofParts (name : String) (options : List (String × String)) (operands : List String) :
    Option Command :=
  match name, operands with
  | "versions", [] => some .versions
  | "check", [program] => do
    return .check (← readPath? program) (options.lookup "engine")
  | "run", [program] => do
    let timeout ← match options.lookup "timeout-ms" with
      | some text => some <$> readWord? text
      | none => some none
    return .run (← readPath? program) (options.lookup "engine") timeout
      (options.lookup "json").isSome
  | _, _ => none

end Command

namespace Invocation

/-- The options in front of a command. -/
def switches : List Switch :=
  [{ name := "config", letter := some 'c' }]

/-- What arguments ask for. No option may be repeated. -/
def ofArguments? (arguments : List String) : Option Invocation := do
  let (options, rest) ← readOptions switches arguments.length arguments
  let config ← match options with
    | [] => some none
    | [(_, path)] => some <$> readPath? path
    | _ => none
  match rest with
  | [] => none
  | name :: rest =>
    let (options, operands) ← readAll (Command.switches name) rest.length rest
    if (options.map Prod.fst).Nodup then
      return { config, command := ← Command.ofParts name options operands }
    else none

end Invocation

end ScriptLab.CommandLine
