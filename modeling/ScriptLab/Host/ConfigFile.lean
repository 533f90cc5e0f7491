import ScriptLab.Files.Tree
import ScriptLab.Host.Config
import ScriptLab.Text.Quoted

/-!
# Files of configurations

A configuration is saved under a temporary name beside its own, which is then given its own name, so
that a file never holds half of a configuration.
-/

namespace ScriptLab.Host

open Files (Obstacle Tree)

/-- Why a configuration was not loaded or saved. -/
inductive ConfigFault where
  | unread (path : String) (obstacle : Obstacle)
  | malformed (path : String)
  | notCreated (path : String)
  | notWritten
  | notSynced
  | notRenamed (source target : String)
deriving DecidableEq

/-- The message of a fault. -/
def ConfigFault.message : ConfigFault → String
  | unread path _ => "Failed to read config: " ++ Text.quoted path
  | malformed path => "Failed to deserialize config: " ++ Text.quoted path
  | notCreated path => "Failed to create temp file: " ++ Text.quoted path
  | notWritten => "Failed to write config"
  | notSynced => "Failed to sync config"
  | notRenamed source target =>
    "Failed to rename " ++ Text.quoted source ++ " to " ++ Text.quoted target

namespace Config

/-- The configuration in the text of a file, or why there is none. -/
def ofFile (path : String) : Except Obstacle String → Except ConfigFault Config
  | .error obstacle => .error (.unread path obstacle)
  | .ok text =>
    match read? text with
    | some config => .ok config
    | none => .error (.malformed path)

/-- Loads a configuration. -/
def load (tree : Tree) (path : String) : Except ConfigFault Config :=
  ofFile path (tree.read path)

/-- The name under which a configuration is written before it is given its own. -/
def temporary (path : String) : String :=
  Files.withExtension path "tmp"

/-- A step of saving at which the system fails, though nothing in the tree is in its way. When the
writing fails, a part of the text may have arrived. -/
inductive Breakdown where
  | creating
  | writing (arrived : String)
  | syncing
  | renaming
deriving DecidableEq

/-- What is in the temporary file when it is closed. -/
def arrival (breakdown : Option Breakdown) (text : String) : String :=
  match breakdown with
  | some (.writing arrived) => arrived
  | _ => text

/-- Saves a configuration while the system may fail. The tree is the one afterwards, in which the
temporary file is left if it could not be filled or renamed. -/
def saveUnder (breakdown : Option Breakdown) (config : Config) (path : String) (tree : Tree) :
    Except ConfigFault Unit × Tree :=
  match breakdown, tree.write (temporary path) (arrival breakdown config.text) with
  | some .creating, _ => (.error (.notCreated (temporary path)), tree)
  | _, .error _ => (.error (.notCreated (temporary path)), tree)
  | some (.writing _), .ok begun => (.error .notWritten, begun)
  | some .syncing, .ok written => (.error .notSynced, written)
  | some .renaming, .ok written => (.error (.notRenamed (temporary path) path), written)
  | none, .ok written =>
    match written.rename (temporary path) path with
    | .error _ => (.error (.notRenamed (temporary path) path), written)
    | .ok renamed => (.ok (), renamed)

/-- Saves a configuration. -/
def save (config : Config) (path : String) (tree : Tree) : Except ConfigFault Unit × Tree :=
  saveUnder none config path tree

end Config

end ScriptLab.Host
