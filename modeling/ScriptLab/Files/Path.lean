/-!
# Paths

A path is a text of names that are divided by slashes. The last name may end in an extension.
-/

namespace ScriptLab.Files

/-- The texts between the slashes. There is at least one. -/
def segments : List Char → List (List Char)
  | [] => [[]]
  | c :: rest =>
    if c = '/' then [] :: segments rest
    else
      match segments rest with
      | [] => [[c]]
      | first :: others => (c :: first) :: others

/-- Leaves out slashes and empty steps at the end of a path that is given backwards. -/
def trimEnd : List Char → List Char
  | '/' :: rest => trimEnd rest
  | '.' :: '/' :: rest => trimEnd rest
  | cs => cs

/-- A name without its extension: what stands before its last point, but a point in front does not
divide the name. The name and the result are given backwards. -/
def stem (name : List Char) : List Char :=
  match name.dropWhile (· != '.') with
  | [] => name
  | ['.'] => name
  | _ :: front => front

/-- The path with another extension. A path that does not end in a name stays as it is. -/
def withExtension (path extension : String) : String :=
  let (name, folder) := (trimEnd path.toList.reverse).span (· != '/')
  if name = [] ∨ name = ['.'] ∨ name = ['.', '.'] then path
  else
    String.ofList (folder.reverse ++ (stem name).reverse ++ '.' :: extension.toList)

end ScriptLab.Files
