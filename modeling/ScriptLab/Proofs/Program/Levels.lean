import ScriptLab.Proofs.Program.Totality

/-!
# Open levels

A parser refuses a program by a counter, which it moves up where a level of nesting is opened and down
where it is closed. Beside it stands a parser that knows the levels that are open, decides by them alone,
and watches the counter in each of its rules. Both come to the same for all tokens.
-/

namespace ScriptLab.Program

open ScriptLab.Program.Parser
open Text (Pos)

variable {α β : Type}

/-! ## Watching the counter -/

/-- What a level of nesting is open for. A chain of operators, and one of calls, indexings and properties,
has a level for each of its links. -/
inductive Level where
  | block
  | expression
  | operand
  | operator
  | link

namespace Parser

/-- Runs a parser under a watch: the counter must stand at `count` when the parser starts and when it
succeeds. Otherwise the answer is `astray`. -/
def watched (astray : Fault) (count : Nat) (p : Parser α) : Parser α := do
  if (← get).depth ≠ count then throw astray
  let a ← p
  if (← get).depth ≠ count then throw astray
  return a

/-- Opens the first of some levels for a parser, which is watched, and closes it. -/
def opened (astray : Fault) (levels : List Level) (p : Parser α) : Parser α := do
  modify fun c => { c with depth := c.depth + 1 }
  let a ← watched astray levels.length p
  modify fun c => { c with depth := c.depth - 1 }
  return a

/-- Refuses to open a level. -/
def refused : Parser α := do
  fail .nestedTooDeep (← peek).pos

end Parser

/-- How rules are run, and how they open levels. -/
structure Manner where
  rule : {α : Type} → Parser α → Parser α
  level : {α : Type} → Level → Parser α → Parser α

namespace Rules

/-! ## Rules in a manner

The same rules, for any manner in which they are run. Those inside may differ from level to level. -/

section

variable (m : Manner) (inner : Rules)

def linksIn (target : Expr) : Parser Expr := do
  let token ← peek
  match token.kind, token.afterBreak with
  | .symbol .leftParen, false => m.level .link do
    let _ ← take
    let args ← items .rightParen inner.expression
    inner.links (.call target.pos target args)
  | .symbol .leftBracket, false => m.level .link do
    let _ ← take
    let index ← inner.expression
    expect (.symbol .rightBracket)
    inner.links (.index target.pos target index)
  | .symbol .dot, _ => m.level .link do
    let _ ← take
    let word ← name
    inner.links (.prop target.pos target word)
  | _, _ => return target

def unaryIn (postfixed : Parser Expr) : Parser Expr := do
  let token ← peek
  match token.unaryOp? with
  | some op =>
    let _ ← take
    let operand ← m.level .operand inner.unary
    return .unary token.pos op operand
  | .none => postfixed

def operatorsIn (least : Nat) (left : Expr) : Parser Expr := do
  let token ← peek
  match token.binaryOp? with
  | some op =>
    if op.precedence ≤ least then return left
    else
      let _ ← take
      m.level .operator do
        let right ← inner.binary op.precedence
        inner.operators least (.binary left.pos op left right)
  | .none => return left

def blockIn : Parser (List Stmt) := do
  expect (.symbol .leftBrace)
  m.level .block do
    statements (.symbol .rightBrace) do
      let token ← peek
      if token.kind = .symbol .metadata then fail .metadataInBlock token.pos
      inner.statement

end

/-- The rules in a manner, from those inside a further level of each kind. -/
def aroundIn (m : Manner) (dialect : Dialect) (inner : Level → Rules) : Rules :=
  let expression := m.rule (m.level .expression ((inner .expression).binary 0))
  let block := m.rule (blockIn m (inner .block))
  let links := fun target => m.rule (linksIn m (inner .link) target)
  let operators := fun least left => m.rule (operatorsIn m (inner .operator) least left)
  let unary := m.rule (unaryIn m (inner .operand) (m.rule (primary expression block) >>= links))
  { expression, block, links, operators, unary
    binary := fun least => m.rule (unary >>= operators least)
    statement := m.rule (statementRule dialect expression block) }

/-- Rules run as they are, with levels that are opened by the counter. -/
def byCounter : Manner where
  rule p := p
  level _ p := nested p

theorem aroundIn_byCounter (dialect : Dialect) (inner : Rules) :
    aroundIn byCounter dialect (fun _ => inner) = around dialect inner := rfl

/-- The rules reach those further in through a level only: where levels are not entered, it makes no
difference which rules are there. -/
theorem aroundIn_closed (rule : {α : Type} → Parser α → Parser α) (stop : {α : Type} → Level → Parser α)
    (dialect : Dialect) (inner inner' : Level → Rules) :
    aroundIn ⟨rule, fun level _ => stop level⟩ dialect inner =
      aroundIn ⟨rule, fun level _ => stop level⟩ dialect inner' := rfl

/-- The rules where some levels are open, innermost first, and a number of further levels may be opened.
They do not ask the counter whether a level may be opened, but each of them watches it: it must stand at
the number of the open levels. -/
def tracked (dialect : Dialect) (astray : Fault) : Nat → List Level → Rules
  | 0, levels =>
    aroundIn ⟨watched astray levels.length, fun _ _ => refused⟩ dialect fun _ => none
  | room + 1, levels =>
    aroundIn ⟨watched astray levels.length, fun level => opened astray (level :: levels)⟩ dialect
      fun level => tracked dialect astray room (level :: levels)

end Rules

/-- Parses the tokens of a program with at most a number of levels open, by the rules that know them. -/
def parseTracked (dialect : Dialect) (astray : Fault) (room : Nat) :
    List Token → Except Fault (List Stmt)
  | [] => .ok []
  | next :: rest =>
    (statements .done (topStatement (Rules.tracked dialect astray room [])) ⟨next, rest, 0⟩).map Prod.fst

/-! ## Parsers on one level -/

/-- A parser behind which as many levels are open as in front of it. -/
def Keeps (p : Parser α) : Prop :=
  ∀ ⦃c a c'⦄, p c = .ok (a, c') → c'.depth = c.depth

namespace Keeps

theorem pure (a : α) : Keeps (pure a) := by
  intro c b c' h
  cases h
  rfl

theorem fail (cause : Cause) (pos : Pos) : Keeps (fail cause pos : Parser α) := by
  intro c a c' h
  cases h

theorem get : Keeps get := by
  intro c a c' h
  cases h
  rfl

theorem peek : Keeps peek := by
  intro c a c' h
  cases h
  rfl

theorem take : Keeps take := by
  intro c a c' h
  cases h
  exact c.advance_depth

theorem rounds : Keeps rounds := by
  intro c a c' h
  cases h
  rfl

theorem at? (kind : TokenKind) : Keeps (at? kind) := by
  intro c a c' h
  cases h
  rfl

theorem eat (kind : TokenKind) : Keeps (eat kind) := by
  intro c a c' h
  rcases eat_ok h with ⟨-, -, rfl⟩ | ⟨-, -, rfl⟩
  · exact c.advance_depth
  · rfl

theorem expect (kind : TokenKind) : Keeps (expect kind) := by
  intro c a c' h
  unfold Parser.expect at h
  rw [bind_of_ok (get_apply c)] at h
  split at h
  · cases h
    exact c.advance_depth
  · cases h

theorem name : Keeps name := by
  intro c a c' h
  unfold Parser.name at h
  rw [bind_of_ok (take_apply c)] at h
  cases hk : c.next.kind with
  | name word =>
      rw [hk] at h
      cases h
      exact c.advance_depth
  | _ =>
      rw [hk] at h
      cases h

theorem skipSemicolons : Keeps skipSemicolons := by
  intro c a c' h
  cases h
  rfl

theorem atEnd : Keeps atEnd := by
  intro c a c' h
  cases h
  rfl

theorem expectSeparator (close : TokenKind) : Keeps (expectSeparator close) := by
  intro c a c' h
  obtain ⟨rfl, -⟩ := expectSeparator_ok h
  rfl

end Keeps

/-- A parser and another one that come to the same where `d` levels are open, and leave as many open. If
the second one has more room than there is, the first one may refuse what it accepts, as too deep. -/
def Tracks (limit d : Nat) (p q : Parser α) : Prop :=
  ∀ ⦃c⦄, c.depth = d →
    (∀ ⦃a c'⦄, p c = .ok (a, c') → c'.depth = d) ∧
    (p c = q c ∨ maxDepth < limit ∧ ∃ pos, p c = .error ⟨.nestedTooDeep, pos⟩)

variable {limit d : Nat} {dialect : Dialect} {astray : Fault}

namespace Tracks

theorem same {p : Parser α} (h : Keeps p) : Tracks limit d p p :=
  fun _ hc => ⟨fun _ _ hp => (h hp).trans hc, .inl rfl⟩

theorem bind {p q : Parser α} {f g : α → Parser β} (hp : Tracks limit d p q)
    (hf : ∀ a, Tracks limit d (f a) (g a)) : Tracks limit d (p >>= f) (q >>= g) := by
  intro c hc
  obtain ⟨hkeeps, hsame⟩ := hp hc
  rw [bind_apply, bind_apply]
  rcases hsame with heq | ⟨hlimit, pos, herror⟩
  · rw [← heq]
    cases h : p c with
    | error fault => exact ⟨nofun, .inl rfl⟩
    | ok r => exact hf r.1 (hkeeps h)
  · rw [herror]
    exact ⟨nofun, .inr ⟨hlimit, pos, rfl⟩⟩

theorem pure (a : α) : Tracks limit d (pure a) (Pure.pure a) :=
  .same (.pure a)

theorem fail (cause : Cause) (pos : Pos) :
    Tracks limit d (fail cause pos : Parser α) (Parser.fail cause pos) :=
  .same (.fail cause pos)

/-! ### Levels -/

/-- Where the counter is right the watch has nothing to say. -/
theorem watched {p q : Parser α} (h : Tracks limit d p q) :
    Tracks limit d p (watched astray d q) := by
  intro c hc
  obtain ⟨hkeeps, hsame⟩ := h hc
  refine ⟨hkeeps, hsame.imp_left fun heq => ?_⟩
  unfold Parser.watched
  rw [bind_of_ok (get_apply c)]
  dsimp only
  rw [if_neg (not_not_intro hc)]
  rw [bind_apply, ← heq]
  cases hp : p c with
  | error fault => rfl
  | ok r =>
      dsimp only
      rw [bind_of_ok (get_apply r.2), if_neg (not_not_intro (hkeeps hp))]
      rfl

/-- A level that the counter has room for is opened, and else it is refused. -/
theorem level {p q r : Parser α} (hpq : d < maxDepth → Tracks limit (d + 1) p q)
    (hopen : d < maxDepth → ∀ c, c.depth = d → r c = match q c.deeper with
      | .ok (a, c') => .ok (a, { c' with depth := c'.depth - 1 })
      | .error fault => .error fault)
    (hrefuse : maxDepth ≤ d →
      maxDepth < limit ∨ ∀ c, c.depth = d → r c = .error ⟨.nestedTooDeep, c.next.pos⟩) :
    Tracks limit d (nested p) r := by
  intro c hc
  rw [nested_apply]
  by_cases hroom : maxDepth < c.depth + 1
  · rw [if_pos hroom]
    refine ⟨nofun, (hrefuse (by omega)).symm.imp (fun h => (h c hc).symm) fun h => ⟨h, _, rfl⟩⟩
  · rw [if_neg hroom, hopen (by omega) c hc]
    obtain ⟨hkeeps, hsame⟩ := hpq (by omega) (c := c.deeper) (by rw [Cursor.deeper_depth, hc])
    rcases hsame with heq | ⟨hlimit, pos, herror⟩
    · rw [← heq]
      cases h : p c.deeper with
      | error fault => exact ⟨nofun, .inl rfl⟩
      | ok s =>
          refine ⟨?_, .inl rfl⟩
          rintro a c' ⟨⟩
          rw [hkeeps h]
          rfl
    · rw [herror]
      exact ⟨nofun, .inr ⟨hlimit, pos, rfl⟩⟩

theorem nested {p q : Parser α} (h : d < maxDepth → Tracks limit (d + 1) p q) :
    Tracks limit d (nested p) (Parser.nested q) := by
  refine level h (fun hd c hc => ?_) fun hd => .inr fun c hc => ?_
  · rw [nested_apply]
    exact (if_neg (by omega)).trans (by cases q c.deeper <;> rfl)
  · rw [nested_apply, if_pos (by omega)]

theorem opened {p q : Parser α} {levels : List Level} (hlevels : levels.length = d + 1)
    (hlimit : d < limit) (h : d < maxDepth → Tracks limit (d + 1) p q) :
    Tracks limit d (Parser.nested p) (opened astray levels q) := by
  refine level (q := Parser.watched astray (d + 1) q) (fun hd => (h hd).watched) (fun hd c hc => ?_)
    fun hd => .inl (by omega)
  unfold Parser.opened
  rw [hlevels, bind_of_ok (modify_apply _ c), bind_apply]
  rfl

theorem refused {p : Parser α} (hd : maxDepth ≤ d) : Tracks limit d (Parser.nested p) refused :=
  level (q := p) (fun h => absurd h (by omega)) (fun h => absurd h (by omega)) fun _ => .inr fun _ _ => rfl

/-! ### Sequences -/

theorem itemsFrom {p q : Parser α} (close : Symbol) (h : Tracks limit d p q) (n : Nat)
    (made : List α) : Tracks limit d (itemsFrom close p n made) (itemsFrom close q n made) := by
  induction n generalizing made with
  | zero => exact .bind (.same .peek) fun _ => .fail _ _
  | succ n ih =>
      refine .bind (.same (.eat _)) fun closed => ?_
      cases closed with
      | true => exact .pure _
      | false =>
          refine .bind h fun a => .bind (.same (.eat _)) fun more => ?_
          cases more with
          | true => exact ih (a :: made)
          | false => exact .bind (.same (.expect _)) fun _ => .pure _

theorem items {p q : Parser α} (close : Symbol) (h : Tracks limit d p q) :
    Tracks limit d (items close p) (items close q) :=
  .bind (.same .rounds) fun n => itemsFrom close h n []

theorem statementsFrom {p q : Parser Stmt} (close : TokenKind) (h : Tracks limit d p q) (n : Nat)
    (made : List Stmt) :
    Tracks limit d (statementsFrom close p n made) (statementsFrom close q n made) := by
  induction n generalizing made with
  | zero => exact .bind (.same .peek) fun _ => .fail _ _
  | succ n ih =>
      refine .bind (.same .skipSemicolons) fun _ => .bind (.same (.eat _)) fun closed => ?_
      cases closed with
      | true => exact .pure _
      | false =>
          exact .bind h fun s => .bind (.same (.expectSeparator _)) fun _ => ih (s :: made)

theorem statements {p q : Parser Stmt} (close : TokenKind) (h : Tracks limit d p q) :
    Tracks limit d (statements close p) (statements close q) :=
  .bind (.same .rounds) fun n => statementsFrom close h n []

/-! ### Expressions -/

section

variable {expression expression' : Parser Expr} {block block' : Parser (List Stmt)} {pos : Pos}

theorem function (hblock : Tracks limit d block block') :
    Tracks limit d (Rules.function block pos) (Rules.function block' pos) :=
  .bind (.same (.expect _)) fun _ => .bind (items _ (.same .name)) fun _ => .bind hblock fun _ => .pure _

theorem armsFrom (hexpr : Tracks limit d expression expression') (hblock : Tracks limit d block block')
    (n : Nat) (arms : List (Expr × List Stmt)) :
    Tracks limit d (Rules.armsFrom expression block pos n arms)
      (Rules.armsFrom expression' block' pos n arms) := by
  induction n generalizing arms with
  | zero => exact .bind (.same .peek) fun _ => .fail _ _
  | succ n ih =>
      refine .bind (.same (.eat _)) fun another => ?_
      cases another with
      | true => exact .bind hexpr fun cond => .bind hblock fun body => ih ((cond, body) :: arms)
      | false =>
          refine .bind (.same (.eat _)) fun last => ?_
          cases last with
          | true => exact .bind hblock fun _ => .pure _
          | false => exact .pure _

theorem conditional (hexpr : Tracks limit d expression expression')
    (hblock : Tracks limit d block block') :
    Tracks limit d (Rules.conditional expression block pos) (Rules.conditional expression' block' pos) :=
  .bind hexpr fun _ => .bind hblock fun _ => .bind (.same .rounds) fun n => armsFrom hexpr hblock n _

theorem entry (hexpr : Tracks limit d expression expression') :
    Tracks limit d (Rules.entry expression) (Rules.entry expression') := by
  have hvalue (key : String) : Tracks limit d
      (do Parser.expect (.symbol .colon); return (key, ← expression))
      (do Parser.expect (.symbol .colon); return (key, ← expression')) :=
    .bind (.same (.expect _)) fun _ => .bind hexpr fun _ => .pure _
  refine .bind (.same .take) fun t => ?_
  cases t.kind with
  | name word => exact hvalue word
  | text value => exact hvalue value
  | _ => exact .bind (.fail _ _) fun key => hvalue key

theorem primary (hexpr : Tracks limit d expression expression') (hblock : Tracks limit d block block') :
    Tracks limit d (Rules.primary expression block) (Rules.primary expression' block') := by
  refine .bind (.same .take) fun t => ?_
  cases t.kind with
  | number value => exact .pure _
  | text value => exact .pure _
  | name word => exact .pure _
  | done => exact .fail _ _
  | keyword word =>
      cases word with
      | litTrue => exact .pure _
      | litFalse => exact .pure _
      | litNull => exact .pure _
      | ifThen => exact conditional hexpr hblock
      | _ => exact .fail _ _
  | symbol s =>
      cases s with
      | atSign => exact function hblock
      | leftParen => exact .bind hexpr fun _ => .bind (.same (.expect _)) fun _ => .pure _
      | leftBracket => exact .bind (items _ hexpr) fun _ => .pure _
      | leftBrace => exact .bind (items _ (entry hexpr)) fun _ => .pure _
      | _ => exact .fail _ _

/-! ### Statements -/

theorem definition (hexpr : Tracks limit d expression expression') (isMutable : Bool) (mark : Symbol) :
    Tracks limit d (Rules.definition expression pos isMutable mark)
      (Rules.definition expression' pos isMutable mark) :=
  .bind (.same .name) fun _ => .bind (.same (.expect _)) fun _ => .bind hexpr fun _ => .pure _

theorem loopVariable : Tracks limit d (Rules.loopVariable dialect) (Rules.loopVariable dialect) := by
  unfold Rules.loopVariable
  cases dialect <;> exact .bind (.same (.expect _)) fun _ => .same .name

theorem loopParts (hexpr : Tracks limit d expression expression') (hblock : Tracks limit d block block')
    (f : String → Expr → List Stmt → Stmt) :
    Tracks limit d
      (do
        let var ← Rules.loopVariable dialect
        Parser.expect (.symbol .comma)
        let items ← expression
        return f var items (← block))
      (do
        let var ← Rules.loopVariable dialect
        Parser.expect (.symbol .comma)
        let items ← expression'
        return f var items (← block')) :=
  .bind loopVariable fun _ => .bind (.same (.expect _)) fun _ => .bind hexpr fun _ =>
    .bind hblock fun _ => .pure _

theorem evaluation (hexpr : Tracks limit d expression expression') :
    Tracks limit d (Rules.evaluation dialect expression) (Rules.evaluation dialect expression') := by
  refine .bind hexpr fun target => .bind (.same .peek) fun t => ?_
  cases t.assignOp? dialect with
  | none => exact .pure _
  | some op =>
      dsimp only
      split
      · exact .bind (.same .take) fun _ => .bind hexpr fun _ => .pure _
      · exact .fail _ _

theorem statementRule (hexpr : Tracks limit d expression expression')
    (hblock : Tracks limit d block block') :
    Tracks limit d (Rules.statementRule dialect expression block)
      (Rules.statementRule dialect expression' block') := by
  have heval : Tracks limit d (Rules.evaluation dialect expression)
    (Rules.evaluation dialect expression') := evaluation hexpr
  refine .bind (.same .get) fun c => ?_
  cases c.next.kind with
  | keyword word =>
      cases word with
      | constDef | varDef => exact .bind (.same .take) fun _ => definition hexpr _ _
      | returnBack =>
          refine .bind (.same .take) fun _ => .bind (.same .atEnd) fun ended => ?_
          cases ended with
          | true => exact .pure _
          | false => exact .bind hexpr fun _ => .pure _
      | breakOut | continueOn => exact .bind (.same .take) fun _ => .pure _
      | loop => exact .bind (.same .take) fun _ => .bind hblock fun _ => .pure _
      | each => exact .bind (.same .take) fun _ => loopParts hexpr hblock (.each c.next.pos)
      | forCount => exact .bind (.same .take) fun _ => loopParts hexpr hblock (.count c.next.pos)
      | _ => exact heval
  | symbol s =>
      cases s with
      | out => exact .bind (.same .take) fun _ => .bind hexpr fun _ => .pure _
      | hash | dollar => exact .bind (.same .take) fun _ => definition hexpr _ _
      | atSign =>
          cases c.second.kind with
          | name word =>
              exact .bind (.same .take) fun _ => .bind (.same .take) fun _ =>
                .bind (function hblock) fun _ => .pure _
          | _ => exact heval
      | _ => exact heval
  | _ => exact heval

theorem metadata (hexpr : Tracks limit d expression expression') :
    Tracks limit d (Program.metadata expression) (Program.metadata expression') := by
  have hvalue (pos : Pos) (name? : Option String) : Tracks limit d
      (do
        let value ← expression
        if value.isStatic then return Stmt.metadata pos name? value
        else Parser.fail .metadataNotLiteral value.pos)
      (do
        let value ← expression'
        if value.isStatic then return Stmt.metadata pos name? value
        else Parser.fail .metadataNotLiteral value.pos) := by
    refine .bind hexpr fun value => ?_
    split
    · exact .pure _
    · exact .fail _ _
  refine .bind (.same .take) fun t => .bind (.same .peek) fun u => ?_
  cases u.kind with
  | name word => exact .bind (.same .take) fun _ => hvalue t.pos (some word)
  | _ => exact hvalue t.pos none

end

end Tracks

/-! ## Rules on one level -/

/-- Rules that track others, one by one. -/
structure Rules.Tracks (limit d : Nat) (r r' : Rules) : Prop where
  expression : Program.Tracks limit d r.expression r'.expression
  binary : ∀ least, Program.Tracks limit d (r.binary least) (r'.binary least)
  operators : ∀ least left, Program.Tracks limit d (r.operators least left) (r'.operators least left)
  unary : Program.Tracks limit d r.unary r'.unary
  links : ∀ target, Program.Tracks limit d (r.links target) (r'.links target)
  block : Program.Tracks limit d r.block r'.block
  statement : Program.Tracks limit d r.statement r'.statement

/-- A manner that adds nothing where `d` levels are open. -/
structure Manner.Tracks (limit d : Nat) (m : Manner) : Prop where
  rule : ∀ {α : Type} {p q : Parser α}, Program.Tracks limit d p q → Program.Tracks limit d p (m.rule q)
  level : ∀ {α : Type} (level : Level) {p q : Parser α},
    (d < maxDepth → Program.Tracks limit (d + 1) p q) →
      Program.Tracks limit d (nested p) (m.level level q)

section

variable {inner inner' : Rules}

/-! ### One level further in -/

theorem Rules.Tracks.call (h : inner.Tracks limit d inner') (target : Expr) :
    Program.Tracks limit d
      (do
        let _ ← take
        let args ← items .rightParen inner.expression
        inner.links (.call target.pos target args))
      (do
        let _ ← take
        let args ← items .rightParen inner'.expression
        inner'.links (.call target.pos target args)) :=
  .bind (.same .take) fun _ => .bind (.items _ h.expression) fun _ => h.links _

theorem Rules.Tracks.index (h : inner.Tracks limit d inner') (target : Expr) :
    Program.Tracks limit d
      (do
        let _ ← take
        let index ← inner.expression
        expect (.symbol .rightBracket)
        inner.links (.index target.pos target index))
      (do
        let _ ← take
        let index ← inner'.expression
        expect (.symbol .rightBracket)
        inner'.links (.index target.pos target index)) :=
  .bind (.same .take) fun _ => .bind h.expression fun _ => .bind (.same (.expect _)) fun _ => h.links _

theorem Rules.Tracks.property (h : inner.Tracks limit d inner') (target : Expr) :
    Program.Tracks limit d
      (do
        let _ ← take
        let word ← name
        inner.links (.prop target.pos target word))
      (do
        let _ ← take
        let word ← name
        inner'.links (.prop target.pos target word)) :=
  .bind (.same .take) fun _ => .bind (.same .name) fun _ => h.links _

theorem Rules.Tracks.operation (h : inner.Tracks limit d inner') (least : Nat) (op : BinaryOp)
    (left : Expr) :
    Program.Tracks limit d
      (do
        let right ← inner.binary op.precedence
        inner.operators least (.binary left.pos op left right))
      (do
        let right ← inner'.binary op.precedence
        inner'.operators least (.binary left.pos op left right)) :=
  .bind (h.binary _) fun _ => h.operators _ _

theorem Rules.Tracks.body (h : inner.Tracks limit d inner') :
    Program.Tracks limit d (statements (.symbol .rightBrace) (inBlock inner.statement))
      (statements (.symbol .rightBrace) (inBlock inner'.statement)) := by
  refine .statements _ (.bind (.same .peek) fun t => ?_)
  split
  · exact .bind (.fail _ _) fun _ => h.statement
  · exact h.statement

/-! ### The rules around -/

variable {m : Manner}

namespace Tracks

theorem linksRule (hm : m.Tracks limit d) (h : d < maxDepth → inner.Tracks limit (d + 1) inner')
    (target : Expr) : Tracks limit d (Rules.linksRule inner target) (Rules.linksIn m inner' target) := by
  refine .bind (.same .peek) fun t => ?_
  cases t.kind with
  | symbol s =>
      cases s with
      | leftParen =>
          cases t.afterBreak with
          | true => exact .pure _
          | false => exact hm.level _ fun hd => (h hd).call target
      | leftBracket =>
          cases t.afterBreak with
          | true => exact .pure _
          | false => exact hm.level _ fun hd => (h hd).index target
      | dot => exact hm.level _ fun hd => (h hd).property target
      | _ => exact .pure _
  | _ => exact .pure _

theorem unaryRule (hm : m.Tracks limit d) (h : d < maxDepth → inner.Tracks limit (d + 1) inner')
    {p q : Parser Expr} (hpq : Tracks limit d p q) :
    Tracks limit d (Rules.unaryRule inner p) (Rules.unaryIn m inner' q) := by
  refine .bind (.same .peek) fun t => ?_
  cases t.unaryOp? with
  | some op =>
      exact .bind (.same .take) fun _ => .bind (hm.level _ fun hd => (h hd).unary) fun _ => .pure _
  | none => exact hpq

theorem operatorsRule (hm : m.Tracks limit d) (h : d < maxDepth → inner.Tracks limit (d + 1) inner')
    (least : Nat) (left : Expr) :
    Tracks limit d (Rules.operatorsRule inner least left) (Rules.operatorsIn m inner' least left) := by
  refine .bind (.same .peek) fun t => ?_
  cases t.binaryOp? with
  | none => exact .pure _
  | some op =>
      dsimp only
      split
      · exact .pure _
      · exact .bind (.same .take) fun _ => hm.level _ fun hd => (h hd).operation least op left

theorem blockRule (hm : m.Tracks limit d) (h : d < maxDepth → inner.Tracks limit (d + 1) inner') :
    Tracks limit d (Rules.blockRule inner) (Rules.blockIn m inner') :=
  .bind (.same (.expect _)) fun _ => hm.level _ fun hd => (h hd).body

end Tracks

end

namespace Rules.Tracks

/-- Rules track others in any manner that adds nothing, if those one level further in do. -/
theorem around {m : Manner} {inner : Rules} {inner' : Level → Rules} (hm : m.Tracks limit d)
    (h : d < maxDepth → ∀ level, inner.Tracks limit (d + 1) (inner' level)) :
    (Rules.around dialect inner).Tracks limit d (Rules.aroundIn m dialect inner') := by
  have hexpr := hm.rule (hm.level .expression fun hd => (h hd .expression).binary 0)
  have hblock := hm.rule (Program.Tracks.blockRule hm fun hd => h hd .block)
  have hlinks (target : Expr) :=
    hm.rule (Program.Tracks.linksRule hm (fun hd => h hd .link) target)
  have hoperators (least : Nat) (left : Expr) :=
    hm.rule (Program.Tracks.operatorsRule hm (fun hd => h hd .operator) least left)
  have hunary := hm.rule (Program.Tracks.unaryRule hm (fun hd => h hd .operand)
    (.bind (hm.rule (.primary hexpr hblock)) hlinks))
  exact {
    expression := hexpr
    binary := fun least => hm.rule (.bind hunary (hoperators least))
    operators := hoperators
    unary := hunary
    links := hlinks
    block := hblock
    statement := hm.rule (.statementRule hexpr hblock) }

theorem byCounter : Rules.byCounter.Tracks limit d :=
  ⟨id, fun _ _ _ h => .nested h⟩

/-- The rules with any room leave as many levels open as they find. -/
theorem withRoom (n : Nat) : (Rules.withRoom dialect n).Tracks limit d (Rules.withRoom dialect n) := by
  induction n generalizing d with
  | zero =>
      have hrefuse {α : Type} : Program.Tracks limit d (refused : Parser α) refused :=
        .bind (.same .peek) fun _ => .fail _ _
      exact ⟨hrefuse, fun _ => hrefuse, fun _ _ => hrefuse, hrefuse, fun _ => hrefuse, hrefuse, hrefuse⟩
  | succ n ih => exact around byCounter fun _ _ => ih

/-- The rules that count the open levels track those that know them. -/
theorem tracked {n room : Nat} {levels : List Level} (hn : levels.length + n = maxDepth)
    (hroom : levels.length + room = limit) (hlimit : maxDepth ≤ limit) :
    (Rules.withRoom dialect (n + 1)).Tracks limit levels.length
      (Rules.tracked dialect astray room levels) := by
  induction n generalizing room levels with
  | zero =>
      cases room with
      | zero => exact around ⟨.watched, fun _ _ _ _ => .refused (by omega)⟩ fun hd => by omega
      | succ room =>
          exact around ⟨.watched, fun _ _ _ h => .opened rfl (by omega) h⟩ fun hd => by omega
  | succ n ih =>
      obtain ⟨room, rfl⟩ : ∃ k, room = k + 1 := ⟨room - 1, by omega⟩
      refine around ⟨.watched, fun _ _ _ h => .opened rfl (by omega) h⟩ fun hd level => ?_
      exact @ih room (level :: levels) (by simp; omega) (by simp; omega)

end Rules.Tracks

theorem Rules.Tracks.topStatement {r r' : Rules} (h : r.Tracks limit d r') :
    Program.Tracks limit d (Program.topStatement r) (Program.topStatement r') := by
  refine .bind (.same (.at? _)) fun isMetadata => ?_
  cases isMetadata with
  | true => exact .metadata h.expression
  | false => exact h.statement

/-! ## Programs -/

/-- Rules that leave as many levels open as they find. So does what they run one level further in, so that
no level is closed that is not open. -/
structure Rules.Restores (r : Rules) : Prop where
  expression : Keeps r.expression
  binary : ∀ least, Keeps (r.binary least)
  operators : ∀ least left, Keeps (r.operators least left)
  unary : Keeps r.unary
  postfixed : Keeps (primary r.expression r.block >>= r.links)
  links : ∀ target, Keeps (r.links target)
  block : Keeps r.block
  statement : Keeps r.statement
  inside : ∀ {α : Type} {p : Parser α}, r.Inside p → Keeps p

theorem Tracks.keeps {p q : Parser α} (h : ∀ d, Tracks maxDepth d p q) : Keeps p :=
  fun c _ _ hp => (h c.depth rfl).1 hp

theorem Rules.Tracks.inside {r : Rules} (h : r.Tracks limit d r) {p : Parser α} (hp : r.Inside p) :
    Program.Tracks limit d p p := by
  cases hp with
  | expression => exact h.binary 0
  | operand => exact h.unary
  | operation least op left => exact h.operation least op left
  | call target => exact h.call target
  | index target => exact h.index target
  | property target => exact h.property target
  | body => exact h.body

theorem Rules.restores_withRoom (dialect : Dialect) (n : Nat) : (withRoom dialect n).Restores := by
  have h (d : Nat) : (withRoom dialect n).Tracks maxDepth d (withRoom dialect n) := .withRoom n
  exact {
    expression := Tracks.keeps fun d => (h d).expression
    binary := fun least => Tracks.keeps fun d => (h d).binary least
    operators := fun least left => Tracks.keeps fun d => (h d).operators least left
    unary := Tracks.keeps fun d => (h d).unary
    postfixed := Tracks.keeps fun d => .bind (.primary (h d).expression (h d).block) (h d).links
    links := fun target => Tracks.keeps fun d => (h d).links target
    block := Tracks.keeps fun d => (h d).block
    statement := Tracks.keeps fun d => (h d).statement
    inside := fun hp => Tracks.keeps fun d => (h d).inside hp }

theorem parseTokens_tracked (dialect : Dialect) (astray : Fault) (hlimit : maxDepth ≤ limit)
    (ts : List Token) :
    parseTokens dialect ts = parseTracked dialect astray limit ts ∨
      maxDepth < limit ∧ ∃ pos, parseTokens dialect ts = .error ⟨.nestedTooDeep, pos⟩ := by
  cases ts with
  | nil => exact .inl rfl
  | cons t ts =>
      have hrules : (Rules.ofDialect dialect).Tracks limit ([] : List Level).length
          (Rules.tracked dialect astray limit []) :=
        .tracked (Nat.zero_add maxDepth) (Nat.zero_add limit) hlimit
      rw [parseTokens_cons, parseTracked]
      rcases (Tracks.statements .done hrules.topStatement (c := ⟨t, ts, 0⟩) rfl).2 with
        heq | ⟨hless, pos, herror⟩
      · exact .inl (by rw [heq])
      · exact .inr ⟨hless, pos, by rw [herror]; rfl⟩

/-- The counter of nesting is exact. Every rule, and whatever it runs one level further in, leaves the
counter as it found it. The parser, which opens levels by the counter, does for all tokens the same as the
one that opens them as long as fewer than the greatest number are open and whose rules watch the counter:
wherever a rule starts or succeeds, it stands at the number of the blocks, expressions, operands and links
that are open. (What the watch would answer is arbitrary, so that it never answers.) Rules reach one
another inside of a level only: where levels are not entered, it makes no difference which rules are
there. One that has no room is refused. A parser with more room does the same, or what it does is refused
here as too deep. -/
theorem nesting_counted (dialect : Dialect) (ts : List Token) :
    (∀ room, (Rules.withRoom dialect room).Restores) ∧
    (∀ astray, parseTokens dialect ts = parseTracked dialect astray maxDepth ts) ∧
    (∀ astray more, parseTokens dialect ts = parseTracked dialect astray (maxDepth + more) ts ∨
      ∃ pos, parseTokens dialect ts = .error ⟨.nestedTooDeep, pos⟩) ∧
    (∀ inner, Rules.around dialect inner = Rules.aroundIn Rules.byCounter dialect fun _ => inner) ∧
    ∀ (rule : {α : Type} → Parser α → Parser α) (stop : {α : Type} → Level → Parser α)
      (inner inner' : Level → Rules),
      Rules.aroundIn ⟨rule, fun level _ => stop level⟩ dialect inner =
        Rules.aroundIn ⟨rule, fun level _ => stop level⟩ dialect inner' := by
  refine ⟨Rules.restores_withRoom dialect, fun astray => ?_, fun astray more => ?_,
    fun inner => (Rules.aroundIn_byCounter dialect inner).symm,
    fun rule stop => Rules.aroundIn_closed rule stop dialect⟩
  · rcases parseTokens_tracked dialect astray (Nat.le_refl maxDepth) ts with heq | ⟨hless, -⟩
    · exact heq
    · exact absurd hless (Nat.lt_irrefl maxDepth)
  · exact (parseTokens_tracked dialect astray (Nat.le_add_right maxDepth more) ts).imp_right And.right

end ScriptLab.Program
