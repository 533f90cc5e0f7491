import ScriptLab.CommandLine.Command
import ScriptLab.Host.ConfigFile
import ScriptLab.Host.Playground

/-!
# Responses

What a command answers: lines of output, lines of errors, and a code that tells success from failure.
The texts of a program are lines of output; a report on it is one of the errors.
-/

namespace ScriptLab.CommandLine

open Files (Obstacle)
open Host

/-- What a command answers. -/
structure Response where
  code : Nat
  output : List String := []
  errors : List String := []

/-- What a command can read. -/
structure Sources where
  read : String → Except Obstacle String
  input : String

/-- Why a command was given up. -/
structure Complaint where
  message : String
  cause : Option String := none

namespace Complaint

/-- The complaint about a configuration. -/
def ofConfigFault (fault : ConfigFault) : Complaint :=
  match fault with
  | .unread _ obstacle => ⟨fault.message, some obstacle.message⟩
  | _ => ⟨fault.message, none⟩

/-- The complaint about a request. -/
def ofRefusal (refusal : Refusal) : Complaint :=
  ⟨refusal.message, none⟩

/-- The complaint about a program that cannot be read. -/
def ofUnreadProgram (path : String) (obstacle : Obstacle) : Complaint :=
  ⟨"Failed to read program: " ++ Text.quoted path, some obstacle.message⟩

/-- The text of a complaint. -/
def text (complaint : Complaint) : String :=
  "Error: " ++ complaint.message ++
    match complaint.cause with
    | some cause => "\n\nCaused by:\n    " ++ cause
    | none => ""

end Complaint

/-! ## Reports -/

/-- The JSON value of a verdict. -/
def verdictJson : Verdict → Json
  | .ended outcome => .obj [("status", .str outcome.text)]
  | .failed stage label message =>
    .obj [("status", .str "failed"), ("stage", .str stage.text),
      ("label", .ofString? (label.map Label.text)), ("message", .str message)]

/-- The JSON value of a report. -/
def reportJson (report : Report) : Json :=
  .obj [("version", .str report.version),
    ("metadata", .arr (report.metadata.map fun (name, value) =>
      .obj [("name", .ofString? name), ("value", value)])),
    ("outcome", verdictJson report.verdict)]

/-- The line about a failure. -/
def failureLine (label : Option Label) (message : String) : String :=
  (label.map Label.text).getD "Unknown" ++ ": " ++ message

/-! ## Commands -/

/-- The text of a program. -/
def programText (sources : Sources) (program : String) : Except Complaint String :=
  if program = "-" then .ok sources.input
  else (sources.read program).mapError (Complaint.ofUnreadProgram program)

/-- The known versions, with a mark at the default one. -/
def listVersions (p : Playground) : Response :=
  { code := 0
    output := p.registry.versions.map fun version =>
      if version = p.defaultVersion then version ++ " (default)" else version }

/-- Parses a program. -/
def check (sources : Sources) (p : Playground) (program : String) (version : Option String) :
    Except Complaint Response := do
  let code ← programText sources program
  let version := version.getD p.defaultVersion
  let runner ← (p.registry.create version p.limits).mapError Complaint.ofRefusal
  match runner.parse code with
  | .ok (_, metadata) =>
    return { code := 0
             output := ("OK (" ++ version ++ ")") :: metadata.map fun (name, value) =>
               "### " ++ name.getD "-" ++ " " ++ value.compact }
  | .error failure =>
    return { code := 1, errors := [failureLine (runner.classify failure) failure.message] }

/-- The code and the line of errors for the end of a run. -/
def closing : Verdict → Nat × List String
  | .ended .completed => (0, [])
  | .ended .aborted => (1, ["aborted"])
  | .failed _ label message => (1, [failureLine label message])

/-- Runs a program in a session of its own, which is aborted when its time has passed. -/
def run (sources : Sources) (p : Playground) (program : String) (version : Option String)
    (timeoutMillis : Option Nat) (withReport : Bool) : Except Complaint Response := do
  let code ← programText sources program
  let (p, session) ← (p.openSession version).mapError Complaint.ofRefusal
  let interlude := timeoutMillis.map fun millis =>
    { cue := .deadline (1000 * millis), requests := [.abort session] : Interlude }
  let result := p.run session code interlude
  let report ← result.report.mapError Complaint.ofRefusal
  let (code, errors) := closing report.verdict
  return { code
           output := result.texts.map Prod.snd
           errors := (if withReport then [(reportJson report).pretty] else []) ++ errors }

/-- Answers an invocation, or complains. -/
def answer (sources : Sources) (invocation : Invocation) : Except Complaint Response := do
  let config ← match invocation.config with
    | some path => (Config.ofFile path (sources.read path)).mapError Complaint.ofConfigFault
    | none => .ok {}
  let p ← (Playground.create Registry.builtin config.defaultVersion config.limits).mapError
    Complaint.ofRefusal
  match invocation.command with
  | .versions => return listVersions p
  | .check program version => check sources p program version
  | .run program version timeoutMillis report =>
    run sources p program version timeoutMillis report

/-- How the command is used. -/
def usage : String :=
  "Usage: [--config <FILE>] versions | check <FILE> [--engine <VERSION>] | " ++
    "run <FILE> [--engine <VERSION>] [--timeout-ms <MILLIS>] [--json]"

/-- Responds to arguments. -/
def respond (sources : Sources) (arguments : List String) : Response :=
  match Invocation.ofArguments? arguments with
  | none => { code := 2, errors := [usage] }
  | some invocation =>
    match answer sources invocation with
    | .ok response => response
    | .error complaint => { code := 1, errors := [complaint.text] }

/-- The paths that an invocation may read. -/
def Invocation.paths (invocation : Invocation) : List String :=
  invocation.config.toList ++
    match invocation.command with
    | .versions => []
    | .check program _ => [program]
    | .run program .. => [program]

/-- Lines as one text, each with a line break behind it. -/
def linesText (lines : List String) : String :=
  String.join (lines.map (· ++ "\n"))

end ScriptLab.CommandLine
