import ScriptLab.Host.Runner

/-!
# Registries

A registry says which release each version name stands for. The last name that was added is the
latest.
-/

namespace ScriptLab.Host

open Machine (Limits)

/-- Why a host refused a request. -/
inductive Refusal where
  | unknownVersion (name : String)
  | unknownSession (name : String)
  | noVersions
deriving DecidableEq

namespace Refusal

/-- The name of a refusal. -/
def name : Refusal → String
  | unknownVersion _ => "UnknownVersion"
  | unknownSession _ => "UnknownSession"
  | noVersions => "NoVersions"

/-- The message of a refusal. -/
def message : Refusal → String
  | unknownVersion name => "Unknown AiScript version '" ++ name ++ "'"
  | unknownSession name => "Session '" ++ name ++ "' not found"
  | noVersions => "No AiScript versions registered"

end Refusal

/-- Version names with their releases, oldest first. -/
abbrev Registry := Entries String Release

namespace Registry

/-- The registry of all releases under their own versions. -/
def builtin : Registry :=
  Release.all.map fun release => (release.version, release)

/-- Adds a name, or gives a known one another release. -/
def register (r : Registry) (name : String) (release : Release) : Registry :=
  Entries.put r name release

/-- The names, oldest first. -/
def versions (r : Registry) : List String :=
  r.map Prod.fst

/-- The latest name. -/
def latest? (r : Registry) : Option String :=
  r.versions.getLast?

/-- Whether a name is known. -/
def contains (r : Registry) (name : String) : Bool :=
  (Entries.find? r name).isSome

/-- A new runner for the release that a name stands for. -/
def create (r : Registry) (name : String) (limits : Limits) : Except Refusal Runner :=
  match Entries.find? r name with
  | some release => .ok { release, limits }
  | none => .error (.unknownVersion name)

end Registry

end ScriptLab.Host
