import ScriptLab.Proofs.Program.Lexing
import ScriptLab.Proofs.Text.Position

/-!
# Tokens across a line break

A text, a line feed and another text are cut into the tokens of the one text, without the mark of its
end, and those of the other one. No gap or lexeme of the first text goes on behind it: a comment that
ends with the text ends with the line, and no lexeme but a string holds a line feed.
-/

namespace ScriptLab.Program

open Text (Pos)

variable {dialect : Dialect}

/-! ## Gaps -/

/-- A mode behind characters that a gap starts with. -/
def GapMode.behind (first : List Char) : GapMode → GapMode
  | .block before => .block (before ++ first)
  | mode => mode

/-- The lexeme with a line behind what it leaves. -/
def Lexeme.line (lexeme : Lexeme) (ds : List Char) : Lexeme :=
  { lexeme with rest := lexeme.rest ++ '\n' :: ds }

namespace Token

/-- The token with its position changed. -/
def mapPos (f : Pos → Pos) (t : Token) : Token :=
  { t with pos := f t.pos }

/-- The token at the start of a line. -/
def onNewLine (t : Token) : Token :=
  { t with afterBreak := true }

/-- The tokens of which the first one starts a line. -/
def startLine : List Token → List Token
  | [] => []
  | t :: ts => t.onNewLine :: ts

theorem startLine_append {ts : List Token} (h : ts ≠ []) (us : List Token) :
    startLine (ts ++ us) = startLine ts ++ us := by
  cases ts with
  | nil => exact absurd rfl h
  | cons t ts => rfl

end Token

end ScriptLab.Program
