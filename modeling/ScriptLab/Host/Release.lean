import ScriptLab.Program.Parser

/-!
# Releases

A release of the language fixes the dialect of its programs and the names that it gives to faults
and to the ends of a run. Nothing else differs between releases.
-/

namespace ScriptLab.Host

open Program

/-- A release of the language. -/
inductive Release where
  | v0_14_1
  | v0_16_0
deriving DecidableEq

/-- The name of a kind of fault that all releases share. -/
def kindName : FaultKind → String
  | .malformed => "Syntax"
  | .type => "Type"
  | .runtime => "Runtime"
  | .range => "IndexOutOfRange"
  | .user => "User"

namespace Release

/-- All releases, oldest first. -/
def all : List Release :=
  [v0_14_1, v0_16_0]

/-- The version of a release. -/
def version : Release → String
  | v0_14_1 => "0.14.1"
  | v0_16_0 => "0.16.0"

/-- The release with a version. -/
def ofVersion? (version : String) : Option Release :=
  all.find? fun release => release.version == version

/-- The dialect of the programs of a release. -/
def dialect : Release → Dialect
  | v0_14_1 => .legacy
  | v0_16_0 => .modern

/-- The name of a release for a kind of fault. -/
def faultName : Release → FaultKind → String
  | v0_14_1, .malformed => "SyntaxError"
  | v0_14_1, .type => "TypeError"
  | v0_14_1, .runtime => "RuntimeError"
  | v0_14_1, .range => "IndexOutOfRangeError"
  | v0_14_1, .user => "AiScriptError"
  | v0_16_0, .malformed => "AiScriptSyntaxError"
  | v0_16_0, .type => "AiScriptTypeError"
  | v0_16_0, .runtime => "AiScriptRuntimeError"
  | v0_16_0, .range => "AiScriptIndexOutOfRangeError"
  | v0_16_0, .user => "AiScriptUserError"

/-- What a release writes before the message of a fault. -/
def faultHeading : Release → FaultKind → String
  | v0_14_1, kind => faultName v0_14_1 kind
  | v0_16_0, .malformed => "Syntax"
  | v0_16_0, .type => "Type"
  | v0_16_0, .runtime => "Runtime"
  | v0_16_0, .range => "Index out of range"
  | v0_16_0, .user => "User"

/-- The message of a fault as a release shows it. -/
def faultMessage (release : Release) (fault : Fault) : String :=
  release.faultHeading fault.kind ++ ": " ++ fault.message

/-- The name of a release for a run that came to its end. -/
def endedName : Release → String
  | v0_14_1 => "Done"
  | v0_16_0 => "Finished"

/-- The name of a release for a run that was cut short. -/
def abortedName : Release → String
  | v0_14_1 => "Aborted"
  | v0_16_0 => "Stopped"

/-- Parses a program of a release. -/
def parse (release : Release) (code : String) : Except Fault (List Stmt) :=
  Program.parse release.dialect code

end Release

end ScriptLab.Host
