import ScriptLab.Number.Reading
import ScriptLab.Program.Fault
import ScriptLab.Text.CharClass

/-!
# Cutting a program into tokens

A text is cut from the left into gaps and lexemes in turn. A gap is white space and comments; a
lexeme is the longest name, literal or symbol that the rest of the text begins with. Nothing of the
text is lost: a gap or a lexeme and what is left behind it make up what was there before.
-/

namespace ScriptLab.Program

open Text (Pos)

/-! ## Gaps -/

/-- Where a gap has got to. Inside a block comment it remembers the characters before the comment. -/
inductive GapMode where
  | blank
  | line
  | block (before : List Char)

/-- Cuts off the longest gap. The characters already seen are given in reverse. A comment that is
not closed gives the characters before it. -/
def cutGap : GapMode → List Char → List Char → Except (List Char) (List Char × List Char)
  | .block _, seen, '*' :: '/' :: cs => cutGap .blank ('/' :: '*' :: seen) cs
  | .block before, seen, c :: cs => cutGap (.block before) (c :: seen) cs
  | .block before, _, [] => .error before.reverse
  | .line, seen, '\n' :: cs => cutGap .blank ('\n' :: seen) cs
  | .line, seen, c :: cs => cutGap .line (c :: seen) cs
  | .blank, seen, '/' :: '/' :: cs => cutGap .line ('/' :: '/' :: seen) cs
  | .blank, seen, '/' :: '*' :: cs => cutGap (.block seen) ('*' :: '/' :: seen) cs
  | .blank, seen, c :: cs =>
    if Text.isBlank c then cutGap .blank (c :: seen) cs else .ok (seen.reverse, c :: cs)
  | _, seen, [] => .ok (seen.reverse, [])

/-! ## Lexemes -/

/-- Whether a name can start with the character. -/
def isNameStart (c : Char) : Bool :=
  Text.isLetter c || c == '_'

/-- Whether a name can go on with the character. -/
def isNamePart (c : Char) : Bool :=
  Text.isLetter c || Text.isNumeral c || c == '_'

/-- Cuts off the rest of a name. A colon glued between two segments belongs to the name if the
segment before it starts with a capital ASCII letter, which `capital` tells of the current one. -/
def cutName : Bool → List Char → List Char → List Char × List Char
  | capital, seen, ':' :: c :: cs =>
    if capital && isNameStart c then cutName c.isUpper (c :: ':' :: seen) cs
    else (seen.reverse, ':' :: c :: cs)
  | capital, seen, c :: cs =>
    if isNamePart c then cutName capital (c :: seen) cs else (seen.reverse, c :: cs)
  | _, seen, [] => (seen.reverse, [])

/-- The character that an escape stands for. -/
def unescape : Char → Char
  | 'n' => '\n'
  | 't' => '\t'
  | 'r' => '\r'
  | c => c

/-- Cuts off a string up to its closing quote: the characters it denotes, its lexeme and the rest.
The first two are built up in reverse. -/
def cutString : List Char → List Char → List Char → Option (List Char × List Char × List Char)
  | value, seen, '"' :: cs => some (value.reverse, ('"' :: seen).reverse, cs)
  | value, seen, '\\' :: c :: cs => cutString (unescape c :: value) (c :: '\\' :: seen) cs
  | value, seen, c :: cs => cutString (c :: value) (c :: seen) cs
  | _, _, [] => none

/-- A token kind, the characters it was cut from, and the rest of the text. -/
structure Lexeme where
  kind : TokenKind
  chars : List Char
  rest : List Char

/-- A word is a keyword of the dialect or a name. -/
def wordKind (dialect : Dialect) (word : List Char) : TokenKind :=
  match dialect.keyword? (String.ofList word) with
  | some keyword => .keyword keyword
  | none => .name (String.ofList word)

/-- Cuts off a number: digits, and a point with digits if a digit follows the point. -/
def cutNumber (cs : List Char) : Lexeme :=
  let whole := cs.takeWhile Char.isDigit
  match cs.dropWhile Char.isDigit with
  | '.' :: rest =>
    let places := rest.takeWhile Char.isDigit
    if places.isEmpty then ⟨.number (Number.ofPlaces whole []), whole, '.' :: rest⟩
    else
      ⟨.number (Number.ofPlaces whole places), whole ++ '.' :: places, rest.dropWhile Char.isDigit⟩
  | rest => ⟨.number (Number.ofPlaces whole []), whole, rest⟩

/-- The first symbol of a list whose spelling the text begins with. -/
def cutSymbol? (symbols : List Symbol) (cs : List Char) : Option Lexeme :=
  match symbols with
  | [] => none
  | s :: rest =>
    let spelling := s.spelling.toList
    if spelling.isPrefixOf cs then some ⟨.symbol s, spelling, cs.drop spelling.length⟩
    else cutSymbol? rest cs

/-- Cuts off the lexeme that a text starts with, given as its first character and the others. -/
def cutLexeme (dialect : Dialect) (c : Char) (cs : List Char) : Except Cause Lexeme :=
  if isNameStart c then
    let (word, rest) := cutName c.isUpper [c] cs
    .ok ⟨wordKind dialect word, word, rest⟩
  else if c.isDigit then .ok (cutNumber (c :: cs))
  else if c = '"' then
    match cutString [] ['"'] cs with
    | some (value, chars, rest) => .ok ⟨.text (String.ofList value), chars, rest⟩
    | none => .error .openString
  else
    match cutSymbol? (Symbol.ofDialect dialect) (c :: cs) with
    | some lexeme => .ok lexeme
    | none => .error (.strayChar c)

/-! ## Nothing is lost -/

theorem cutGap_append {mode : GapMode} {seen cs gap rest : List Char}
    (h : cutGap mode seen cs = .ok (gap, rest)) : gap ++ rest = seen.reverse ++ cs := by
  fun_induction cutGap mode seen cs <;> simp_all

theorem cutName_append (capital : Bool) (seen cs : List Char) :
    (cutName capital seen cs).1 ++ (cutName capital seen cs).2 = seen.reverse ++ cs := by
  fun_induction cutName capital seen cs <;> simp_all

theorem cutString_append {value seen cs v chars rest : List Char}
    (h : cutString value seen cs = some (v, chars, rest)) :
    chars ++ rest = seen.reverse ++ cs := by
  fun_induction cutString value seen cs with
  | case1 => simp only [Option.some.injEq, Prod.mk.injEq] at h; simp [← h.2.1, ← h.2.2]
  | case2 _ _ _ _ ih => simpa using ih h
  | case3 _ _ _ _ _ _ ih => simpa using ih h
  | case4 => simp at h

theorem cutNumber_append (cs : List Char) :
    (cutNumber cs).chars ++ (cutNumber cs).rest = cs := by
  have h := List.takeWhile_append_dropWhile (p := Char.isDigit) (l := cs)
  unfold cutNumber
  split
  next rest heq =>
    rw [heq] at h
    have h' := List.takeWhile_append_dropWhile (p := Char.isDigit) (l := rest)
    by_cases hp : (rest.takeWhile Char.isDigit).isEmpty
    · simpa [hp] using h
    · simp [hp, h, h']
  next => exact h

theorem cutSymbol?_append {symbols : List Symbol} {cs : List Char} {lexeme : Lexeme}
    (h : cutSymbol? symbols cs = some lexeme) : lexeme.chars ++ lexeme.rest = cs := by
  induction symbols with
  | nil => simp [cutSymbol?] at h
  | cons s rest ih =>
    simp only [cutSymbol?] at h
    split at h
    next hp =>
      obtain ⟨t, rfl⟩ := List.isPrefixOf_iff_prefix.1 hp
      cases h
      simp
    next => exact ih h

/-- A lexeme and what is left behind it are the text that it was cut from. -/
theorem cutLexeme_append {dialect : Dialect} {c : Char} {cs : List Char} {lexeme : Lexeme}
    (h : cutLexeme dialect c cs = .ok lexeme) : lexeme.chars ++ lexeme.rest = c :: cs := by
  unfold cutLexeme at h
  split at h
  · cases h
    simpa using cutName_append c.isUpper [c] cs
  · split at h
    · cases h
      exact cutNumber_append (c :: cs)
    · split at h
      next hq =>
        split at h
        next heq =>
          cases h
          simpa [hq] using cutString_append heq
        next => cases h
      next =>
        split at h
        next heq =>
          cases h
          exact cutSymbol?_append heq
        next => cases h

/-! ## Every lexeme has a character -/

theorem cutName_ne_nil {capital : Bool} {seen cs : List Char} (h : seen ≠ []) :
    (cutName capital seen cs).1 ≠ [] := by
  fun_induction cutName capital seen cs <;> simp_all

theorem cutString_ne_nil {value seen cs v chars rest : List Char}
    (h : cutString value seen cs = some (v, chars, rest)) : chars ≠ [] := by
  fun_induction cutString value seen cs with
  | case1 => simp only [Option.some.injEq, Prod.mk.injEq] at h; simp [← h.2.1]
  | case2 _ _ _ _ ih => exact ih h
  | case3 _ _ _ _ _ _ ih => exact ih h
  | case4 => simp at h

theorem cutNumber_ne_nil {c : Char} (cs : List Char) (h : c.isDigit) :
    (cutNumber (c :: cs)).chars ≠ [] := by
  unfold cutNumber
  split
  next rest _ =>
    by_cases hp : (rest.takeWhile Char.isDigit).isEmpty <;> simp [hp, h]
  next => simp [h]

theorem Symbol.spelling_ne_nil (s : Symbol) : s.spelling.toList ≠ [] := by
  cases s <;> decide

theorem cutSymbol?_ne_nil {symbols : List Symbol} {cs : List Char} {lexeme : Lexeme}
    (h : cutSymbol? symbols cs = some lexeme) : lexeme.chars ≠ [] := by
  induction symbols with
  | nil => simp [cutSymbol?] at h
  | cons s rest ih =>
    simp only [cutSymbol?] at h
    split at h
    next => cases h; exact s.spelling_ne_nil
    next => exact ih h

theorem cutLexeme_ne_nil {dialect : Dialect} {c : Char} {cs : List Char} {lexeme : Lexeme}
    (h : cutLexeme dialect c cs = .ok lexeme) : lexeme.chars ≠ [] := by
  unfold cutLexeme at h
  split at h
  · cases h
    exact cutName_ne_nil (by simp)
  · split at h
    next hd =>
      cases h
      exact cutNumber_ne_nil cs hd
    next =>
      split at h
      · split at h
        next heq =>
          cases h
          exact cutString_ne_nil heq
        next => cases h
      · split at h
        next heq =>
          cases h
          exact cutSymbol?_ne_nil heq
        next => cases h

theorem cutLexeme_rest_length {dialect : Dialect} {c : Char} {cs : List Char} {lexeme : Lexeme}
    (h : cutLexeme dialect c cs = .ok lexeme) : lexeme.rest.length ≤ cs.length := by
  have hl := congrArg List.length (cutLexeme_append h)
  have hp := List.length_pos_iff.2 (cutLexeme_ne_nil h)
  simp only [List.length_append, List.length_cons] at hl
  omega

theorem cutGap_rest_length {cs gap rest : List Char}
    (h : cutGap .blank [] cs = .ok (gap, rest)) : rest.length ≤ cs.length := by
  have hl := congrArg List.length (cutGap_append h)
  simp only [List.length_append, List.reverse_nil, List.nil_append] at hl
  omega

/-! ## Tokens -/

set_option linter.unusedVariables false in
/-- Cuts the text from a place on into tokens, behind those already cut, which are in reverse. -/
def cutTokens (dialect : Dialect) (pos : Pos) (cut : List Token) (cs : List Char) :
    Except Fault (List Token) :=
  match hg : cutGap .blank [] cs with
  | .error before => .error ⟨.openComment, pos.after before⟩
  | .ok (gap, []) => .ok (⟨.done, pos.after gap, gap.contains '\n'⟩ :: cut).reverse
  | .ok (gap, c :: rest) =>
    match hl : cutLexeme dialect c rest with
    | .error cause => .error ⟨cause, pos.after gap⟩
    | .ok lexeme =>
      cutTokens dialect ((pos.after gap).after lexeme.chars)
        (⟨lexeme.kind, pos.after gap, gap.contains '\n'⟩ :: cut) lexeme.rest
termination_by cs.length
decreasing_by
  have h := cutGap_rest_length hg
  have h' := cutLexeme_rest_length hl
  simp only [List.length_cons] at h
  omega

/-- The tokens of a program. The last one, and no other, marks the end of the text. -/
def tokens (dialect : Dialect) (code : String) : Except Fault (List Token) :=
  cutTokens dialect .start [] code.toList

end ScriptLab.Program
