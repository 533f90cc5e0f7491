/-!
# Arguments

The arguments of a command line are options and operands. An option has a long name behind two
dashes, and some have a letter behind one dash. Its value is joined to it or is the next argument.
-/

namespace ScriptLab.CommandLine

/-- An option that a command takes. -/
structure Switch where
  name : String
  letter : Option Char := none
  valued : Bool := true

/-- One part of a command line. -/
inductive Argument where
  | option (name value : String)
  | operand (text : String)
deriving DecidableEq

/-- Whether an argument starts an option. A single dash is an operand. -/
def isOption (text : String) : Bool :=
  match text.toList with
  | '-' :: _ :: _ => true
  | _ => false

/-- The option that a switch gives with the value joined to it, if any, and the arguments behind. -/
def takeValue (switch : Switch) (joined : Option (List Char)) (rest : List String) :
    Option (Argument × List String) :=
  match switch.valued, joined, rest with
  | true, some value, rest => some (.option switch.name (String.ofList value), rest)
  | true, none, value :: rest =>
    if isOption value then none else some (.option switch.name value, rest)
  | true, none, [] => none
  | false, none, rest => some (.option switch.name "", rest)
  | false, some _, _ => none

/-- The part of a command line that starts with an argument, and the arguments behind. -/
def readArgument (switches : List Switch) (argument : String) (rest : List String) :
    Option (Argument × List String) :=
  match argument.toList with
  | '-' :: '-' :: text => do
    let (name, value) := text.span (· != '=')
    let switch ← switches.find? fun switch => switch.name == String.ofList name
    takeValue switch (if value.isEmpty then none else some value.tail) rest
  | '-' :: letter :: text => do
    let switch ← switches.find? fun switch => switch.letter == some letter
    let value := match text with
      | [] => none
      | '=' :: value => some value
      | value => some value
    takeValue switch value rest
  | _ => some (.operand argument, rest)

/-- Reads arguments up to the first operand, or to the end. The number bounds their count. -/
def readOptions (switches : List Switch) :
    Nat → List String → Option (List (String × String) × List String)
  | _, [] => some ([], [])
  | 0, _ => none
  | n + 1, argument :: rest => do
    match ← readArgument switches argument rest with
    | (.operand _, _) => return ([], argument :: rest)
    | (.option name value, rest) =>
      let (options, rest) ← readOptions switches n rest
      return ((name, value) :: options, rest)

/-- Reads options and operands in any order. Two dashes alone end the options. -/
def readAll (switches : List Switch) :
    Nat → List String → Option (List (String × String) × List String)
  | _, [] => some ([], [])
  | 0, _ => none
  | n + 1, argument :: rest =>
    if argument = "--" then some ([], rest)
    else do
      let (first, rest) ← readArgument switches argument rest
      let (options, operands) ← readAll switches n rest
      match first with
      | .operand text => return (options, text :: operands)
      | .option name value => return ((name, value) :: options, operands)

end ScriptLab.CommandLine
