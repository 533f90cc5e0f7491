import ScriptLab.Json.Document
import ScriptLab.Json.Printer
import ScriptLab.Machine.Limits

/-!
# Configurations

A configuration says how a playground is set up. It is kept as a JSON text. What the text does not
say has its default, and what it says beside that is passed over.
-/

namespace ScriptLab.Host

open Machine (Limits)
open Json (Document)

/-- How a playground is set up. -/
structure Config where
  /-- The version of new sessions; the latest one if absent. -/
  defaultVersion : Option String := none
  limits : Limits := {}
  debug : Bool := false
deriving DecidableEq

/-- A natural number or `null`. -/
def jsonNatural? : Option Nat → Json
  | some n => .int n
  | none => .null

/-- The JSON value of limits. -/
def limitsJson (limits : Limits) : Json :=
  .obj [("max_step", jsonNatural? limits.maxSteps), ("max_call_depth", .int limits.maxCalls),
    ("yield_interval", .int limits.yieldInterval)]

/-- The limits that a document gives. -/
def readLimits (document : Document) : Option Limits := do
  let fields ← document.fields? ["max_step", "max_call_depth", "yield_interval"]
  let default : Limits := {}
  return {
    maxSteps := ←
      Document.field? fields "max_step" default.maxSteps (Document.optional? Document.word?)
    maxCalls := ← Document.field? fields "max_call_depth" default.maxCalls Document.word?
    yieldInterval := ←
      Document.field? fields "yield_interval" default.yieldInterval Document.word? }

namespace Config

/-- The JSON value of a configuration. -/
def json (config : Config) : Json :=
  .obj [("default_version", .ofString? config.defaultVersion),
    ("limits", limitsJson config.limits), ("debug", .bool config.debug)]

/-- The text that a configuration is kept as. -/
def text (config : Config) : String :=
  config.json.pretty

/-- The configuration that a document gives. -/
def ofDocument (document : Document) : Option Config := do
  let fields ← document.fields? ["default_version", "limits", "debug"]
  let default : Config := {}
  return {
    defaultVersion := ←
      Document.field? fields "default_version" default.defaultVersion
        (Document.optional? Document.text?)
    limits := ← Document.field? fields "limits" default.limits readLimits
    debug := ← Document.field? fields "debug" default.debug Document.bool? }

/-- Reads the text of a configuration. -/
def read? (text : String) : Option Config := do
  ofDocument (← Document.read? text)

end Config

end ScriptLab.Host
