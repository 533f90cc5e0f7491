import ScriptLab.Proofs.Program.Joining
import ScriptLab.Proofs.Program.Steady

/-!
# Parsing the same tokens in other places

Two lists of tokens may differ in nothing but where the tokens stand. Every rule then reads the same from
both: trees that are equal up to positions, or a fault for the same cause.
-/

namespace ScriptLab.Program

open ScriptLab.Program.Parser
open Text (Pos)

variable {α α' β β' : Type} {dialect : Dialect}

/-! ## Tokens and trees elsewhere -/

/-- Tokens that differ in nothing but where they stand. -/
structure Token.Matches (t t' : Token) : Prop where
  kind : t.kind = t'.kind
  afterBreak : t.afterBreak = t'.afterBreak

/-- Cursors at tokens that match. -/
structure Cursor.Matches (c c' : Cursor) : Prop where
  next : c.next.Matches c'.next
  rest : List.Forall₂ Token.Matches c.rest c'.rest
  depth : c.depth = c'.depth

/-- Expressions that are equal up to positions. -/
def Expr.Matches (e e' : Expr) : Prop :=
  e.mapPos erase = e'.mapPos erase

/-- Statements that are equal up to positions. -/
def Stmt.Matches (s s' : Stmt) : Prop :=
  s.mapPos erase = s'.mapPos erase

theorem Token.Matches.binaryOp? {t t' : Token} (h : t.Matches t') : t.binaryOp? = t'.binaryOp? := by
  rw [Token.binaryOp?, Token.binaryOp?, h.kind, h.afterBreak]

theorem Token.Matches.unaryOp? {t t' : Token} (h : t.Matches t') : t.unaryOp? = t'.unaryOp? := by
  rw [Token.unaryOp?, Token.unaryOp?, h.kind]

theorem Token.Matches.assignOp? {t t' : Token} (h : t.Matches t') :
    t.assignOp? dialect = t'.assignOp? dialect := by
  unfold Token.assignOp?
  rw [h.kind]

namespace Cursor.Matches

variable {c c' : Cursor}

theorem advance (h : c.Matches c') : c.advance.Matches c'.advance := by
  obtain ⟨t, ts, depth⟩ := c
  obtain ⟨t', ts', depth'⟩ := c'
  cases h.rest with
  | nil => exact h
  | cons hnext hrest => exact ⟨hnext, hrest, h.depth⟩

theorem second (h : c.Matches c') : c.second.Matches c'.second := by
  obtain ⟨t, ts, depth⟩ := c
  obtain ⟨t', ts', depth'⟩ := c'
  cases h.rest with
  | nil => exact h.next
  | cons hnext _ => exact hnext

theorem deeper (h : c.Matches c') : c.deeper.Matches c'.deeper :=
  ⟨h.next, h.rest, congrArg (· + 1) h.depth⟩

end Cursor.Matches

theorem Cursor.skip_matches (symbol : Symbol) {t t' : Token} {ts ts' : List Token} (h : t.Matches t')
    (hs : List.Forall₂ Token.Matches ts ts') :
    (Cursor.skip symbol t ts).1.Matches (Cursor.skip symbol t' ts').1 ∧
      List.Forall₂ Token.Matches (Cursor.skip symbol t ts).2 (Cursor.skip symbol t' ts').2 := by
  induction hs generalizing t t' with
  | nil => exact ⟨h, .nil⟩
  | cons hnext hrest ih =>
      rw [Cursor.skip, Cursor.skip, h.kind]
      split
      · exact ih hnext
      · exact ⟨h, .cons hnext hrest⟩

section

variable {items items' : List Expr}

theorem mapPosExprs_of_matches (h : List.Forall₂ Expr.Matches items items') :
    mapPosExprs erase items = mapPosExprs erase items' := by
  induction h with
  | nil => rfl
  | cons h _ ih => rw [mapPosExprs, mapPosExprs, h, ih]

/-- Entries with the same key and values that are equal up to positions. -/
def EntryMatches (entry entry' : String × Expr) : Prop :=
  entry.1 = entry'.1 ∧ entry.2.Matches entry'.2

theorem mapPosEntries_of_matches {entries entries' : List (String × Expr)}
    (h : List.Forall₂ EntryMatches entries entries') :
    mapPosEntries erase entries = mapPosEntries erase entries' := by
  induction h with
  | nil => rfl
  | @cons entry entry' _ _ h _ ih =>
      obtain ⟨key, e⟩ := entry
      obtain ⟨key', e'⟩ := entry'
      obtain ⟨rfl, he⟩ := h
      rw [mapPosEntries, mapPosEntries, he, ih]

theorem sameShape_of_matches {body body' : List Stmt} (h : List.Forall₂ Stmt.Matches body body') :
    SameShape body body' := by
  induction h with
  | nil => rfl
  | cons h _ ih => rw [SameShape, mapPosStmts, mapPosStmts, h, ih]

/-- Arms that are equal up to positions. -/
def ArmMatches (arm arm' : Expr × List Stmt) : Prop :=
  arm.1.Matches arm'.1 ∧ SameShape arm.2 arm'.2

theorem mapPosArms_of_matches {arms arms' : List (Expr × List Stmt)}
    (h : List.Forall₂ ArmMatches arms arms') : mapPosArms erase arms = mapPosArms erase arms' := by
  induction h with
  | nil => rfl
  | @cons arm arm' _ _ h _ ih =>
      obtain ⟨cond, body⟩ := arm
      obtain ⟨cond', body'⟩ := arm'
      rw [mapPosArms, mapPosArms, h.1, h.2, ih]

end

/-! ## Parsers that read the same -/

/-- Results that are a value each, in a relation, and cursors at matching tokens, or faults for the same
cause. -/
inductive Agrees (R : α → α' → Prop) :
    Except Fault (α × Cursor) → Except Fault (α' × Cursor) → Prop
  | ok {a a' c c'} (ha : R a a') (hc : Cursor.Matches c c') : Agrees R (.ok (a, c)) (.ok (a', c'))
  | error {cause pos pos'} : Agrees R (.error ⟨cause, pos⟩) (.error ⟨cause, pos'⟩)

/-- Parsers that read the same from matching tokens. -/
def Matching (R : α → α' → Prop) (p : Parser α) (p' : Parser α') : Prop :=
  ∀ ⦃c c'⦄, Cursor.Matches c c' → Agrees R (p c) (p' c')

namespace Matching

variable {R : α → α' → Prop} {S : β → β' → Prop}

theorem pure {a : α} {a' : α'} (h : R a a') : Matching R (pure a) (pure a') :=
  fun _ _ hc => .ok h hc

theorem fail (cause : Cause) (pos pos' : Pos) : Matching R (fail cause pos) (Parser.fail cause pos') :=
  fun _ _ _ => .error

theorem bind {p : Parser α} {p' : Parser α'} {f : α → Parser β} {f' : α' → Parser β'}
    (hp : Matching R p p') (hf : ∀ a a', R a a' → Matching S (f a) (f' a')) :
    Matching S (p >>= f) (p' >>= f') := by
  intro c c' hc
  have h := hp hc
  rw [bind_apply, bind_apply]
  generalize p c = r at h
  generalize p' c' = r' at h
  cases h with
  | ok ha hc => exact hf _ _ ha hc
  | error => exact .error

/-! ## Single tokens -/

theorem get : Matching Cursor.Matches get get :=
  fun _ _ hc => .ok hc hc

theorem peek : Matching Token.Matches peek peek :=
  fun _ _ hc => .ok hc.next hc

theorem take : Matching Token.Matches take take :=
  fun _ _ hc => .ok hc.next hc.advance

theorem rounds : Matching Eq rounds rounds :=
  fun _ _ hc => .ok (congrArg (· + 1) hc.rest.length_eq) hc

theorem eat (kind : TokenKind) : Matching Eq (eat kind) (eat kind) := by
  intro c c' hc
  rw [eat_apply, eat_apply, hc.next.kind]
  split
  · exact .ok rfl hc.advance
  · exact .ok rfl hc

theorem at? (kind : TokenKind) : Matching Eq (at? kind) (at? kind) :=
  fun _ _ hc => .ok (congrArg (fun found => decide (found = kind)) hc.next.kind) hc

theorem expect (kind : TokenKind) : Matching (fun _ _ => True) (expect kind) (expect kind) := by
  intro c c' hc
  unfold Parser.expect
  rw [bind_of_ok (get_apply c), bind_of_ok (get_apply c'), hc.next.kind]
  split
  · exact .ok trivial hc.advance
  · exact .error

theorem name : Matching Eq name name := by
  refine bind take fun t t' ht => ?_
  rw [ht.kind]
  cases t'.kind with
  | name word => exact pure rfl
  | _ => exact fail _ _ _

theorem skipSemicolons : Matching (fun _ _ => True) skipSemicolons skipSemicolons := by
  intro c c' hc
  obtain ⟨hnext, hrest⟩ := Cursor.skip_matches .semicolon hc.next hc.rest
  exact .ok trivial ⟨hnext, hrest, hc.depth⟩

theorem atEnd : Matching Eq atEnd atEnd := by
  refine bind peek fun t t' ht => ?_
  rw [ht.kind, ht.afterBreak]
  exact pure rfl

theorem expectSeparator (close : TokenKind) :
    Matching (fun _ _ => True) (expectSeparator close) (expectSeparator close) := by
  refine bind peek fun t t' ht => ?_
  rw [ht.kind, ht.afterBreak]
  split
  · exact pure trivial
  · exact fail _ _ _

/-! ## Levels and sequences -/

theorem nested {p : Parser α} {p' : Parser α'} (h : Matching R p p') :
    Matching R (nested p) (nested p') := by
  intro c c' hc
  rw [nested_apply, nested_apply, hc.depth]
  split
  · exact .error
  · have h := h hc.deeper
    generalize p c.deeper = r at h
    generalize p' c'.deeper = r' at h
    cases h with
    | ok ha hc => exact .ok ha ⟨hc.next, hc.rest, congrArg (· - 1) hc.depth⟩
    | error => exact .error

theorem itemsFrom (close : Symbol) {p : Parser α} {p' : Parser α'} (h : Matching R p p') (n : Nat)
    {made : List α} {made' : List α'} (hmade : List.Forall₂ R made made') :
    Matching (List.Forall₂ R) (itemsFrom close p n made) (itemsFrom close p' n made') := by
  induction n generalizing made made' with
  | zero =>
      refine bind peek fun t t' ht => ?_
      rw [ht.kind]
      exact fail _ _ _
  | succ n ih =>
      refine bind (eat _) ?_
      rintro closed _ rfl
      cases closed with
      | true => exact pure (List.rel_reverse hmade)
      | false =>
          refine bind h fun a a' ha => bind (eat _) ?_
          rintro more _ rfl
          cases more with
          | true => exact ih (.cons ha hmade)
          | false => exact bind (expect _) fun _ _ _ => pure (List.rel_reverse (.cons ha hmade))

theorem items (close : Symbol) {p : Parser α} {p' : Parser α'} (h : Matching R p p') :
    Matching (List.Forall₂ R) (items close p) (items close p') := by
  refine bind rounds ?_
  rintro n _ rfl
  exact itemsFrom close h n .nil

theorem statementsFrom (close : TokenKind) {p p' : Parser Stmt} (h : Matching Stmt.Matches p p') (n : Nat)
    {made made' : List Stmt} (hmade : List.Forall₂ Stmt.Matches made made') :
    Matching SameShape (statementsFrom close p n made) (statementsFrom close p' n made') := by
  induction n generalizing made made' with
  | zero =>
      refine bind peek fun t t' ht => ?_
      rw [ht.kind]
      exact fail _ _ _
  | succ n ih =>
      refine bind skipSemicolons fun _ _ _ => bind (eat _) ?_
      rintro closed _ rfl
      cases closed with
      | true => exact pure (sameShape_of_matches (List.rel_reverse hmade))
      | false => exact bind h fun s s' hs => bind (expectSeparator _) fun _ _ _ => ih (.cons hs hmade)

theorem statements (close : TokenKind) {p p' : Parser Stmt} (h : Matching Stmt.Matches p p') :
    Matching SameShape (statements close p) (statements close p') := by
  refine bind rounds ?_
  rintro n _ rfl
  exact statementsFrom close h n .nil

/-! ## Expressions -/

section

variable {expression expression' : Parser Expr} {block block' : Parser (List Stmt)} {pos pos' : Pos}

theorem function (hblock : Matching SameShape block block') :
    Matching Expr.Matches (Rules.function block pos) (Rules.function block' pos') := by
  refine bind (expect _) fun _ _ _ => bind (items _ name) fun params params' hparams =>
    bind hblock fun body body' hbody => pure ?_
  obtain rfl : params = params' := List.forall₂_eq_eq_eq ▸ hparams
  rw [Expr.Matches, Expr.mapPos, Expr.mapPos, hbody]
  rfl

theorem armsFrom (hexpr : Matching Expr.Matches expression expression')
    (hblock : Matching SameShape block block') (n : Nat) {arms arms' : List (Expr × List Stmt)}
    (harms : List.Forall₂ ArmMatches arms arms') :
    Matching Expr.Matches (Rules.armsFrom expression block pos n arms)
      (Rules.armsFrom expression' block' pos' n arms') := by
  induction n generalizing arms arms' with
  | zero =>
      refine bind peek fun t t' ht => ?_
      rw [ht.kind]
      exact fail _ _ _
  | succ n ih =>
      have hreverse := mapPosArms_of_matches (List.rel_reverse harms)
      refine bind (eat _) ?_
      rintro another _ rfl
      cases another with
      | true =>
          exact bind hexpr fun cond cond' hcond => bind hblock fun body body' hbody =>
            ih (.cons ⟨hcond, hbody⟩ harms)
      | false =>
          refine bind (eat _) ?_
          rintro last _ rfl
          cases last with
          | true =>
              refine bind hblock fun body body' hbody => pure ?_
              rw [Expr.Matches, Expr.mapPos, Expr.mapPos, hreverse, hbody]
              rfl
          | false =>
              refine pure ?_
              rw [Expr.Matches, Expr.mapPos, Expr.mapPos, hreverse]
              rfl

theorem conditional (hexpr : Matching Expr.Matches expression expression')
    (hblock : Matching SameShape block block') :
    Matching Expr.Matches (Rules.conditional expression block pos)
      (Rules.conditional expression' block' pos') := by
  refine bind hexpr fun cond cond' hcond => bind hblock fun body body' hbody => bind rounds ?_
  rintro n _ rfl
  exact armsFrom hexpr hblock n (.cons ⟨hcond, hbody⟩ .nil)

theorem entry (hexpr : Matching Expr.Matches expression expression') :
    Matching EntryMatches (Rules.entry expression) (Rules.entry expression') := by
  have hvalue (key : String) : Matching EntryMatches
      (do Parser.expect (.symbol .colon); return (key, ← expression))
      (do Parser.expect (.symbol .colon); return (key, ← expression')) :=
    bind (expect _) fun _ _ _ => bind hexpr fun _ _ he => pure ⟨rfl, he⟩
  refine bind take fun t t' ht => ?_
  rw [ht.kind]
  cases t'.kind with
  | name word => exact hvalue word
  | text value => exact hvalue value
  | _ =>
      refine bind (fail _ _ _ : Matching Eq _ _) ?_
      rintro key _ rfl
      exact hvalue key

theorem primary (hexpr : Matching Expr.Matches expression expression')
    (hblock : Matching SameShape block block') :
    Matching Expr.Matches (Rules.primary expression block) (Rules.primary expression' block') := by
  refine bind take fun t t' ht => ?_
  dsimp only
  rw [ht.kind]
  cases t'.kind with
  | number | text | name => exact pure rfl
  | done => exact fail _ _ _
  | keyword word =>
      cases word with
      | litTrue | litFalse | litNull => exact pure rfl
      | ifThen => exact conditional hexpr hblock
      | _ => exact fail _ _ _
  | symbol s =>
      cases s with
      | atSign => exact function hblock
      | leftParen => exact bind hexpr fun _ _ he => bind (expect _) fun _ _ _ => pure he
      | leftBracket =>
          refine bind (items _ hexpr) fun made made' hmade => pure ?_
          rw [Expr.Matches, Expr.mapPos, Expr.mapPos, mapPosExprs_of_matches hmade]
          rfl
      | leftBrace =>
          refine bind (items _ (entry hexpr)) fun made made' hmade => pure ?_
          rw [Expr.Matches, Expr.mapPos, Expr.mapPos, mapPosEntries_of_matches hmade]
          rfl
      | _ => exact fail _ _ _

end

end Matching

/-- Sets of rules that read the same from matching tokens. -/
structure Rules.Matching (r r' : Rules) : Prop where
  expression : Program.Matching Expr.Matches r.expression r'.expression
  binary : ∀ least, Program.Matching Expr.Matches (r.binary least) (r'.binary least)
  operators : ∀ least {left left'}, Expr.Matches left left' →
    Program.Matching Expr.Matches (r.operators least left) (r'.operators least left')
  unary : Program.Matching Expr.Matches r.unary r'.unary
  links : ∀ {target target'}, Expr.Matches target target' →
    Program.Matching Expr.Matches (r.links target) (r'.links target')
  block : Program.Matching SameShape r.block r'.block
  statement : Program.Matching Stmt.Matches r.statement r'.statement

namespace Matching

section

variable {inner inner' : Rules} (h : inner.Matching inner')
include h

theorem call {target target' : Expr} (ht : target.Matches target') :
    Matching Expr.Matches
      (do
        let _ ← Parser.take
        let args ← Parser.items .rightParen inner.expression
        inner.links (.call target.pos target args))
      (do
        let _ ← Parser.take
        let args ← Parser.items .rightParen inner'.expression
        inner'.links (.call target'.pos target' args)) := by
  refine bind take fun _ _ _ => bind (items _ h.expression) fun args args' hargs => h.links ?_
  rw [Expr.Matches, Expr.mapPos, Expr.mapPos, ht, mapPosExprs_of_matches hargs]
  rfl

theorem index {target target' : Expr} (ht : target.Matches target') :
    Matching Expr.Matches
      (do
        let _ ← Parser.take
        let index ← inner.expression
        Parser.expect (.symbol .rightBracket)
        inner.links (.index target.pos target index))
      (do
        let _ ← Parser.take
        let index ← inner'.expression
        Parser.expect (.symbol .rightBracket)
        inner'.links (.index target'.pos target' index)) := by
  refine bind take fun _ _ _ => bind h.expression fun index index' hindex =>
    bind (expect _) fun _ _ _ => h.links ?_
  rw [Expr.Matches, Expr.mapPos, Expr.mapPos, ht, hindex]
  rfl

theorem property {target target' : Expr} (ht : target.Matches target') :
    Matching Expr.Matches
      (do
        let _ ← Parser.take
        let word ← Parser.name
        inner.links (.prop target.pos target word))
      (do
        let _ ← Parser.take
        let word ← Parser.name
        inner'.links (.prop target'.pos target' word)) := by
  refine bind take fun _ _ _ => bind name ?_
  rintro word _ rfl
  refine h.links ?_
  rw [Expr.Matches, Expr.mapPos, Expr.mapPos, ht]
  rfl

theorem operation (least : Nat) (op : BinaryOp) {left left' : Expr} (hl : left.Matches left') :
    Matching Expr.Matches
      (do
        let right ← inner.binary op.precedence
        inner.operators least (.binary left.pos op left right))
      (do
        let right ← inner'.binary op.precedence
        inner'.operators least (.binary left'.pos op left' right)) := by
  refine bind (h.binary _) fun right right' hr => h.operators least ?_
  rw [Expr.Matches, Expr.mapPos, Expr.mapPos, hl, hr]
  rfl

theorem body :
    Matching SameShape (Parser.statements (.symbol .rightBrace) (inBlock inner.statement))
      (Parser.statements (.symbol .rightBrace) (inBlock inner'.statement)) := by
  refine statements _ (bind peek fun t t' ht => ?_)
  rw [ht.kind]
  split
  · exact bind (fail _ _ _ : Matching Eq _ _) fun _ _ _ => h.statement
  · exact h.statement

theorem linksRule {target target' : Expr} (ht : target.Matches target') :
    Matching Expr.Matches (Rules.linksRule inner target) (Rules.linksRule inner' target') := by
  refine bind peek fun t t' htoken => ?_
  rw [htoken.kind, htoken.afterBreak]
  cases t'.kind with
  | symbol s =>
      cases s with
      | leftParen =>
          cases t'.afterBreak with
          | true => exact pure ht
          | false => exact nested (call h ht)
      | leftBracket =>
          cases t'.afterBreak with
          | true => exact pure ht
          | false => exact nested (index h ht)
      | dot => exact nested (property h ht)
      | _ => exact pure ht
  | _ => exact pure ht

theorem unaryRule {p p' : Parser Expr} (hp : Matching Expr.Matches p p') :
    Matching Expr.Matches (Rules.unaryRule inner p) (Rules.unaryRule inner' p') := by
  refine bind peek fun t t' ht => ?_
  rw [ht.unaryOp?]
  cases t'.unaryOp? with
  | none => exact hp
  | some op =>
      refine bind take fun _ _ _ => bind (nested h.unary) fun operand operand' ho => pure ?_
      rw [Expr.Matches, Expr.mapPos, Expr.mapPos, ho]
      rfl

theorem operatorsRule (least : Nat) {left left' : Expr} (hl : left.Matches left') :
    Matching Expr.Matches (Rules.operatorsRule inner least left)
      (Rules.operatorsRule inner' least left') := by
  refine bind peek fun t t' ht => ?_
  rw [ht.binaryOp?]
  cases t'.binaryOp? with
  | none => exact pure hl
  | some op =>
      dsimp only
      split
      · exact pure hl
      · exact bind take fun _ _ _ => nested (operation h least op hl)

theorem blockRule : Matching SameShape (Rules.blockRule inner) (Rules.blockRule inner') :=
  bind (expect _) fun _ _ _ => nested (body h)

end

/-! ## Statements -/

section

variable {expression expression' : Parser Expr} {block block' : Parser (List Stmt)} {pos pos' : Pos}

theorem definition (hexpr : Matching Expr.Matches expression expression') (isMutable : Bool)
    (mark : Symbol) :
    Matching Stmt.Matches (Rules.definition expression pos isMutable mark)
      (Rules.definition expression' pos' isMutable mark) := by
  refine bind name ?_
  rintro word _ rfl
  refine bind (expect _) fun _ _ _ => bind hexpr fun value value' hvalue => pure ?_
  rw [Stmt.Matches, Stmt.mapPos, Stmt.mapPos, hvalue]
  rfl

theorem loopVariable : Matching Eq (Rules.loopVariable dialect) (Rules.loopVariable dialect) := by
  unfold Rules.loopVariable
  cases dialect <;> exact bind (expect _) fun _ _ _ => name

/-- The head of a loop and its body. -/
theorem loopParts (hexpr : Matching Expr.Matches expression expression')
    (hblock : Matching SameShape block block') {f f' : String → Expr → List Stmt → Stmt}
    (hf : ∀ var {items items' body body'}, Expr.Matches items items' → SameShape body body' →
      (f var items body).Matches (f' var items' body')) :
    Matching Stmt.Matches
      (do
        let var ← Rules.loopVariable dialect
        Parser.expect (.symbol .comma)
        let items ← expression
        return f var items (← block))
      (do
        let var ← Rules.loopVariable dialect
        Parser.expect (.symbol .comma)
        let items ← expression'
        return f' var items (← block')) := by
  refine bind loopVariable ?_
  rintro var _ rfl
  exact bind (expect _) fun _ _ _ => bind hexpr fun _ _ hitems => bind hblock fun _ _ hbody =>
    pure (hf var hitems hbody)

theorem evaluation (hexpr : Matching Expr.Matches expression expression') :
    Matching Stmt.Matches (Rules.evaluation dialect expression)
      (Rules.evaluation dialect expression') := by
  refine bind hexpr fun target target' htarget => bind peek fun t t' ht => ?_
  have hplace : target.isPlace = target'.isPlace := by
    rw [← target.isPlace_mapPos erase, htarget, target'.isPlace_mapPos erase]
  rw [ht.assignOp?, hplace]
  cases t'.assignOp? dialect with
  | none =>
      refine pure ?_
      rw [Stmt.Matches, Stmt.mapPos, Stmt.mapPos, htarget]
      rfl
  | some op =>
      dsimp only
      split
      · refine bind take fun _ _ _ => bind hexpr fun value value' hvalue => pure ?_
        rw [Stmt.Matches, Stmt.mapPos, Stmt.mapPos, htarget, hvalue]
        rfl
      · exact fail _ _ _

theorem statementRule (hexpr : Matching Expr.Matches expression expression')
    (hblock : Matching SameShape block block') :
    Matching Stmt.Matches (Rules.statementRule dialect expression block)
      (Rules.statementRule dialect expression' block') := by
  have heval : Matching Stmt.Matches (Rules.evaluation dialect expression)
      (Rules.evaluation dialect expression') := evaluation hexpr
  refine bind get fun c c' hc => ?_
  dsimp only
  rw [hc.next.kind, hc.second.kind]
  cases c'.next.kind with
  | keyword word =>
      cases word with
      | constDef | varDef => exact bind take fun _ _ _ => definition hexpr _ _
      | returnBack =>
          refine bind take fun _ _ _ => bind atEnd ?_
          rintro ended _ rfl
          cases ended with
          | true => exact pure rfl
          | false =>
              refine bind hexpr fun value value' hvalue => pure ?_
              rw [Stmt.Matches, Stmt.mapPos, Stmt.mapPos, hvalue]
              rfl
      | breakOut | continueOn => exact bind take fun _ _ _ => pure rfl
      | loop =>
          refine bind take fun _ _ _ => bind hblock fun body body' hbody => pure ?_
          rw [Stmt.Matches, Stmt.mapPos, Stmt.mapPos, hbody]
          rfl
      | each =>
          refine bind take fun _ _ _ => loopParts hexpr hblock fun var _ _ _ _ hitems hbody => ?_
          rw [Stmt.Matches, Stmt.mapPos, Stmt.mapPos, hitems, hbody]
          rfl
      | forCount =>
          refine bind take fun _ _ _ => loopParts hexpr hblock fun var _ _ _ _ hitems hbody => ?_
          rw [Stmt.Matches, Stmt.mapPos, Stmt.mapPos, hitems, hbody]
          rfl
      | _ => exact heval
  | symbol s =>
      cases s with
      | out =>
          refine bind take fun _ _ _ => bind hexpr fun value value' hvalue => pure ?_
          rw [Stmt.Matches, Stmt.mapPos, Stmt.mapPos, hvalue]
          rfl
      | hash | dollar => exact bind take fun _ _ _ => definition hexpr _ _
      | atSign =>
          cases c'.second.kind with
          | name word =>
              refine bind take fun _ _ _ => bind take fun _ _ _ =>
                bind (function hblock) fun f f' hf => pure ?_
              rw [Stmt.Matches, Stmt.mapPos, Stmt.mapPos, hf]
              rfl
          | symbol s => exact heval
          | _ => exact heval
      | _ => exact heval
  | _ => exact heval

theorem metadata (hexpr : Matching Expr.Matches expression expression') :
    Matching Stmt.Matches (Program.metadata expression) (Program.metadata expression') := by
  have hvalue (pos pos' : Pos) (name? : Option String) : Matching Stmt.Matches
      (do
        let value ← expression
        if value.isStatic then return Stmt.metadata pos name? value
        else Parser.fail .metadataNotLiteral value.pos)
      (do
        let value ← expression'
        if value.isStatic then return Stmt.metadata pos' name? value
        else Parser.fail .metadataNotLiteral value.pos) := by
    refine bind hexpr fun value value' hvalue => ?_
    have hstatic : value.isStatic = value'.isStatic := by
      rw [← value.isStatic_mapPos erase, hvalue, value'.isStatic_mapPos erase]
    rw [hstatic]
    split
    · refine pure ?_
      rw [Stmt.Matches, Stmt.mapPos, Stmt.mapPos, hvalue]
      rfl
    · exact fail _ _ _
  refine bind take fun t t' _ => bind peek fun u u' hu => ?_
  rw [hu.kind]
  cases u'.kind with
  | name word => exact bind take fun _ _ _ => hvalue t.pos t'.pos (some word)
  | _ => exact hvalue t.pos t'.pos none

theorem topStatement {rules rules' : Rules} (h : rules.Matching rules') :
    Matching Stmt.Matches (Program.topStatement rules) (Program.topStatement rules') := by
  refine bind (at? _) ?_
  rintro isMetadata _ rfl
  cases isMetadata with
  | true => exact metadata h.expression
  | false => exact h.statement

end

end Matching

/-! ## All rules -/

namespace Rules.Matching

theorem around {inner inner' : Rules} (h : inner.Matching inner') :
    (Rules.around dialect inner).Matching (Rules.around dialect inner') := by
  have hexpr : Program.Matching Expr.Matches (nested (inner.binary 0)) (nested (inner'.binary 0)) :=
    .nested (h.binary 0)
  have hblock := Program.Matching.blockRule h
  have hunary := Program.Matching.unaryRule h
    (.bind (.primary hexpr hblock) fun _ _ ht => .linksRule h ht)
  exact {
    expression := hexpr
    binary := fun least => .bind hunary fun _ _ hl => .operatorsRule h least hl
    operators := fun least _ _ hl => .operatorsRule h least hl
    unary := hunary
    links := fun ht => .linksRule h ht
    block := hblock
    statement := .statementRule hexpr hblock }

theorem withRoom (n : Nat) :
    (Rules.withRoom dialect n).Matching (Rules.withRoom dialect n) := by
  induction n with
  | zero =>
      have hrefuse {α : Type} {R : α → α → Prop} : Program.Matching R
          (do fail .nestedTooDeep (← peek).pos) (do fail .nestedTooDeep (← peek).pos) :=
        .bind .peek fun _ _ _ => .fail _ _ _
      exact ⟨hrefuse, fun _ => hrefuse, fun _ _ _ _ => hrefuse, hrefuse, fun _ => hrefuse, hrefuse,
        hrefuse⟩
  | succ n ih => exact around ih

end Rules.Matching

/-! ## Programs -/

/-- Programs that are equal up to positions, or faults for the same cause. -/
inductive SameParse : Except Fault (List Stmt) → Except Fault (List Stmt) → Prop
  | ok {program program'} (h : SameShape program program') : SameParse (.ok program) (.ok program')
  | error {cause pos pos'} : SameParse (.error ⟨cause, pos⟩) (.error ⟨cause, pos'⟩)

theorem parseTokens_matches {ts ts' : List Token} (h : List.Forall₂ Token.Matches ts ts') :
    SameParse (parseTokens dialect ts) (parseTokens dialect ts') := by
  cases h with
  | nil => exact .ok rfl
  | @cons t t' us us' ht hs =>
      have hall : Matching SameShape (statements .done (topStatement (Rules.ofDialect dialect)))
          (statements .done (topStatement (Rules.ofDialect dialect))) :=
        .statements _ (.topStatement (.withRoom _))
      have hresult := @hall ⟨t, us, 0⟩ ⟨t', us', 0⟩ ⟨ht, hs, rfl⟩
      change SameParse
        (statements .done (topStatement (Rules.ofDialect dialect)) ⟨t, us, 0⟩ >>= fun r => .ok r.1)
        (statements .done (topStatement (Rules.ofDialect dialect)) ⟨t', us', 0⟩ >>= fun r => .ok r.1)
      generalize statements .done (topStatement (Rules.ofDialect dialect)) ⟨t, us, 0⟩ = r at hresult ⊢
      generalize statements .done (topStatement (Rules.ofDialect dialect)) ⟨t', us', 0⟩ = r'
        at hresult ⊢
      cases hresult with
      | ok h _ => exact .ok h
      | error => exact .error

/-- Programs that are equal up to positions are both too deep or both not. -/
theorem SameShape.firstTooDeep {program program' : List Stmt} (h : SameShape program program') :
    firstTooDeep program = none ↔ firstTooDeep program' = none := by
  rw [← firstTooDeep_mapPos erase, h, firstTooDeep_mapPos]

/-- Texts with tokens that match are parsed the same. -/
theorem parse_matches {code code' : String} {ts ts' : List Token} (hts : tokens dialect code = .ok ts)
    (hts' : tokens dialect code' = .ok ts') (h : List.Forall₂ Token.Matches ts ts') :
    SameParse (parse dialect code) (parse dialect code') := by
  have hparse : SameParse (parseTokens dialect ts) (parseTokens dialect ts') := parseTokens_matches h
  simp only [parse, hts, hts', bind, Except.bind]
  generalize parseTokens dialect ts = r at hparse ⊢
  generalize parseTokens dialect ts' = r' at hparse ⊢
  cases hparse with
  | error => exact .error
  | @ok program program' hshape =>
      have hdeep := hshape.firstTooDeep
      dsimp only
      cases h : firstTooDeep program with
      | none =>
          rw [hdeep.1 h]
          exact .ok hshape
      | some pos =>
          cases h' : firstTooDeep program' with
          | none => exact absurd (hdeep.2 h') (by rw [h]; exact Option.some_ne_none pos)
          | some pos' => exact .error

end ScriptLab.Program
