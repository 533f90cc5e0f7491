/-!
# Positions in a text

Lines and columns, both counted from one. A column counts Unicode scalar values, and only a line
feed ends a line.
-/

namespace ScriptLab.Text

/-- A place in a text: the line and the column of a character. -/
structure Pos where
  line : Nat
  column : Nat
deriving DecidableEq, Inhabited

namespace Pos

/-- The place of the first character of a text. -/
def start : Pos := ⟨1, 1⟩

/-- The place behind a character that stands at `p`. -/
def next (p : Pos) (c : Char) : Pos :=
  if c = '\n' then ⟨p.line + 1, 1⟩ else ⟨p.line, p.column + 1⟩

/-- The place behind a stretch of text that starts at `p`. -/
def after (p : Pos) (cs : List Char) : Pos :=
  cs.foldl next p

theorem after_nil (p : Pos) : p.after [] = p := rfl

theorem after_cons (p : Pos) (c : Char) (cs : List Char) :
    p.after (c :: cs) = (p.next c).after cs := rfl

theorem after_append (p : Pos) (cs ds : List Char) :
    p.after (cs ++ ds) = (p.after cs).after ds :=
  List.foldl_append

/-- A place as `line:column`. -/
def text (p : Pos) : String :=
  Nat.repr p.line ++ ":" ++ Nat.repr p.column

end Pos

end ScriptLab.Text
