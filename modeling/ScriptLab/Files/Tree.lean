import ScriptLab.Entries
import ScriptLab.Files.Path

/-!
# Trees of files

A tree holds files with their texts, and folders. Every node has a place: the names that lead to it
from the root, which is a folder and its own parent. Paths start at the root.
-/

namespace ScriptLab.Files

/-- What stands at a place. -/
inductive Node where
  | file (text : String)
  | folder
deriving DecidableEq

/-- The names on the way from the root. -/
abbrev Place := List String

/-- Why a path cannot be used. -/
inductive Obstacle where
  | missing
  | notFolder
  | isFolder
deriving DecidableEq

/-- The message of an obstacle, with the number that the system gives it. -/
def Obstacle.message : Obstacle → String
  | missing => "No such file or directory (os error 2)"
  | notFolder => "Not a directory (os error 20)"
  | isFolder => "Is a directory (os error 21)"

/-- The nodes of a tree by their places, without the root. -/
structure Tree where
  nodes : Entries Place Node := []

namespace Tree

/-- What stands at a place. -/
def node? (t : Tree) (place : Place) : Option Node :=
  if place = [] then some .folder else t.nodes.find? place

/-- The place that names lead to from another one. All but the last step must lead to a folder. -/
def walk (t : Tree) : Place → List (List Char) → Except Obstacle Place
  | here, [] => .ok here
  | here, name :: rest =>
    match t.node? here with
    | none => .error .missing
    | some (.file _) => .error .notFolder
    | some .folder =>
      if name = [] ∨ name = ['.'] then walk t here rest
      else if name = ['.', '.'] then walk t here.dropLast rest
      else if name.contains '\x00' then .error .missing
      else walk t (here ++ [String.ofList name]) rest

/-- The place that a path leads to. Nothing needs to stand there. -/
def locate (t : Tree) (path : String) : Except Obstacle Place :=
  match path.toList with
  | [] => .error .missing
  | '/' :: _ => .error .missing
  | cs => t.walk [] (segments cs)

/-- The text of a file. -/
def read (t : Tree) (path : String) : Except Obstacle String := do
  match t.node? (← t.locate path) with
  | some (.file text) => return text
  | some .folder => throw .isFolder
  | none => throw .missing

/-- Makes a file with a text, or replaces the text of one. -/
def write (t : Tree) (path text : String) : Except Obstacle Tree := do
  let place ← t.locate path
  match t.node? place with
  | some .folder => throw .isFolder
  | _ => return { t with nodes := t.nodes.put place (.file text) }

/-- Makes a folder, unless there is one. -/
def makeFolder (t : Tree) (path : String) : Except Obstacle Tree := do
  let place ← t.locate path
  match t.node? place with
  | some (.file _) => throw .notFolder
  | some .folder => return t
  | none => return { t with nodes := t.nodes.put place .folder }

/-- Moves a file, onto another one if there is one. -/
def rename (t : Tree) (source target : String) : Except Obstacle Tree := do
  let text ← t.read source
  let source ← t.locate source
  let target ← t.locate target
  match t.node? target with
  | some .folder => throw .isFolder
  | _ => return { t with nodes := (t.nodes.erase source).put target (.file text) }

/-- The names in the root, in ascending order. -/
def names (t : Tree) : List String :=
  let found := t.nodes.filterMap fun (place, _) =>
    match place with
    | [name] => some name
    | _ => none
  found.mergeSort fun a b => decide (a ≤ b)

end Tree

end ScriptLab.Files
