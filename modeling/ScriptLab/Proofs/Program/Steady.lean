import Mathlib.Logic.Function.Iterate
import ScriptLab.Proofs.Program.Soundness

/-!
# What every parser keeps

From a cursor at the tokens of a text a parser reads some of them and closes the levels of nesting that it
opens, or it refuses the text as malformed, where a token stands. Nothing of this depends on the rules at
the bottom, which lie deeper than a level can be opened. Two sets of rules that differ only there read in
step.
-/

namespace ScriptLab.Program

open ScriptLab.Program.Parser
open Text (Pos)

variable {α β : Type} {dialect : Dialect} {Q : Pos → Prop} {d : Nat}

/-! ## Cursors -/

namespace Cursor

/-- The tokens that are left. -/
def tokens (c : Cursor) : List Token :=
  c.next :: c.rest

theorem tokens_before (c : Cursor) (ts : List Token) : (c.before ts).tokens = ts ++ c.tokens := by
  cases ts <;> rfl

/-- A cursor at tokens in allowed places, up to the mark of the end, with a number of levels open. -/
structure Fit (dialect : Dialect) (Q : Pos → Prop) (d : Nat) (c : Cursor) : Prop where
  proper : c.Proper dialect
  placed : ∀ t ∈ c.tokens, Q t.pos
  depth : c.depth = d

namespace Fit

variable {c c' : Cursor} {ts : List Token}

theorem next (h : c.Fit dialect Q d) : Q c.next.pos :=
  h.placed c.next List.mem_cons_self

theorem reads (h : c.Fit dialect Q d) (hts : Reads dialect c ts c') : c'.Fit dialect Q d := by
  refine ⟨hts.proper, fun t ht => h.placed t ?_, hts.depth.trans h.depth⟩
  rw [hts.start, tokens_before]
  exact List.mem_append_right _ ht

theorem deeper (h : c.Fit dialect Q d) : c.deeper.Fit dialect Q (d + 1) :=
  ⟨h.proper, h.placed, congrArg (· + 1) h.depth⟩

end Fit

/-- Moving on reads a token, or stays at the mark of the end. -/
theorem Proper.advances {c : Cursor} (h : c.Proper dialect) : ∃ ts, Reads dialect c ts c.advance := by
  obtain ⟨t, ts, depth⟩ := c
  cases h with
  | last ht => exact ⟨[], .refl (.last ht)⟩
  | cons ht hd h => exact ⟨[t], .advance (.cons ht hd h) ht⟩

end Cursor

/-! ## Parsers in step -/

/-- What a parser comes to at a cursor. It gives a good value behind tokens that it reads, with as many
levels open as before, or it refuses the text as malformed in an allowed place. -/
structure Settles (dialect : Dialect) (Q : Pos → Prop) (Good : α → Prop) (c : Cursor)
    (result : Except Fault (α × Cursor)) : Prop where
  reads : ∀ {a c'}, result = .ok (a, c') → Good a ∧ ∃ ts, Reads dialect c ts c'
  refuses : ∀ {fault}, result = .error fault → fault.kind = .malformed ∧ Q fault.pos

theorem Settles.ok {Good : α → Prop} {c c' : Cursor} {ts : List Token} {a : α} (ha : Good a)
    (hts : Reads dialect c ts c') : Settles dialect Q Good c (.ok (a, c')) where
  reads := by
    rintro _ _ ⟨⟩
    exact ⟨ha, ts, hts⟩
  refuses := nofun

theorem Settles.error {Good : α → Prop} {c : Cursor} {cause : Cause} {pos : Pos}
    (hcause : cause.kind = .malformed) (hpos : Q pos) :
    Settles dialect Q Good c (.error ⟨cause, pos⟩) where
  reads := nofun
  refuses := by
    rintro _ ⟨⟩
    exact ⟨hcause, hpos⟩

/-- Two parsers that come to the same where so many levels are open. -/
def InStep (dialect : Dialect) (Q : Pos → Prop) (d : Nat) (Good : α → Prop) (p q : Parser α) : Prop :=
  ∀ ⦃c⦄, c.Fit dialect Q d → p c = q c ∧ Settles dialect Q Good c (p c)

/-- A property that all values have. -/
abbrev Any (_ : α) : Prop := True

namespace InStep

variable {Good : α → Prop} {Good' : β → Prop}

theorem pure {a : α} (h : Good a) : InStep dialect Q d Good (pure a) (pure a) :=
  fun _ hc => ⟨rfl, .ok h (.refl hc.proper)⟩

theorem fail {cause : Cause} {pos : Pos} (hcause : cause.kind = .malformed) (hpos : Q pos) :
    InStep dialect Q d Good (fail cause pos) (Parser.fail cause pos) :=
  fun _ _ => ⟨rfl, .error hcause hpos⟩

theorem bind {p q : Parser α} {f g : α → Parser β} (hp : InStep dialect Q d Good p q)
    (hf : ∀ a, Good a → InStep dialect Q d Good' (f a) (g a)) :
    InStep dialect Q d Good' (p >>= f) (q >>= g) := by
  intro c hc
  obtain ⟨heq, hsettles⟩ := hp hc
  rw [bind_apply, bind_apply, ← heq]
  cases h : p c with
  | error fault =>
      obtain ⟨hkind, hpos⟩ := hsettles.refuses h
      exact ⟨rfl, .error hkind hpos⟩
  | ok r =>
      obtain ⟨a, c₁⟩ := r
      obtain ⟨ha, ts, hts⟩ := hsettles.reads h
      obtain ⟨heq', hsettles'⟩ := hf a ha (hc.reads hts)
      refine ⟨heq', fun h' => ?_, hsettles'.refuses⟩
      obtain ⟨hb, us, hus⟩ := hsettles'.reads h'
      exact ⟨hb, ts ++ us, hts.trans hus⟩

/-! ## Single tokens -/

theorem get : InStep dialect Q d (Cursor.Fit dialect Q d) get get :=
  fun _ hc => ⟨rfl, .ok hc (.refl hc.proper)⟩

theorem peek : InStep dialect Q d (fun t => Q t.pos) peek peek :=
  fun _ hc => ⟨rfl, .ok hc.next (.refl hc.proper)⟩

theorem take : InStep dialect Q d (fun t => Q t.pos) take take := by
  intro c hc
  obtain ⟨ts, hts⟩ := hc.proper.advances
  exact ⟨rfl, .ok hc.next hts⟩

theorem rounds : InStep dialect Q d Any rounds rounds :=
  fun _ hc => ⟨rfl, .ok trivial (.refl hc.proper)⟩

theorem eat (kind : TokenKind) : InStep dialect Q d Any (eat kind) (eat kind) := by
  intro c hc
  rw [eat_apply]
  refine ⟨rfl, ?_⟩
  split
  · obtain ⟨ts, hts⟩ := hc.proper.advances
    exact .ok trivial hts
  · exact .ok trivial (.refl hc.proper)

theorem at? (kind : TokenKind) : InStep dialect Q d Any (at? kind) (at? kind) :=
  fun _ hc => ⟨rfl, .ok trivial (.refl hc.proper)⟩

theorem expect (kind : TokenKind) : InStep dialect Q d Any (expect kind) (expect kind) := by
  intro c hc
  unfold Parser.expect
  rw [bind_of_ok (get_apply c)]
  refine ⟨rfl, ?_⟩
  split
  · obtain ⟨ts, hts⟩ := hc.proper.advances
    exact .ok trivial hts
  · exact .error rfl hc.next

theorem name : InStep dialect Q d Any name name := by
  refine .bind take fun t ht => ?_
  cases t.kind with
  | name word => exact .pure trivial
  | _ => exact .fail rfl ht

theorem skipSemicolons : InStep dialect Q d Any skipSemicolons skipSemicolons := by
  intro c hc
  have hskip : Parser.skipSemicolons c = .ok ((), _) := modify_apply _ c
  obtain ⟨ts, -, hts⟩ := skipSemicolons_ok hskip hc.proper
  rw [hskip]
  exact ⟨rfl, .ok trivial hts⟩

theorem atEnd : InStep dialect Q d Any atEnd atEnd :=
  .bind peek fun _ _ => .pure trivial

theorem expectSeparator (close : TokenKind) :
    InStep dialect Q d Any (expectSeparator close) (expectSeparator close) := by
  refine .bind peek fun t ht => ?_
  split
  · exact .pure trivial
  · exact .fail rfl ht

/-! ## Levels -/

/-- A further level is opened only where there is room for it, and closed behind the parser. -/
theorem nested {p q : Parser α} (h : d < maxDepth → InStep dialect Q (d + 1) Good p q) :
    InStep dialect Q d Good (nested p) (nested q) := by
  intro c hc
  rw [nested_apply, nested_apply]
  by_cases hroom : maxDepth < c.depth + 1
  · rw [if_pos hroom, if_pos hroom]
    exact ⟨rfl, .error rfl hc.next⟩
  · rw [if_neg hroom, if_neg hroom]
    obtain ⟨heq, hsettles⟩ := h (by have := hc.depth; omega) hc.deeper
    rw [← heq]
    refine ⟨rfl, ?_⟩
    cases hp : p c.deeper with
    | error fault =>
        obtain ⟨hkind, hpos⟩ := hsettles.refuses hp
        exact .error hkind hpos
    | ok r =>
        obtain ⟨a, c₁⟩ := r
        obtain ⟨ha, ts, hts⟩ := hsettles.reads hp
        exact .ok ha hts.close

/-! ## Sequences -/

theorem itemsFrom {p q : Parser α} (close : Symbol) (h : InStep dialect Q d Good p q) (n : Nat)
    (made : List α) : InStep dialect Q d Any (itemsFrom close p n made) (itemsFrom close q n made) := by
  induction n generalizing made with
  | zero => exact .bind peek fun _ ht => .fail rfl ht
  | succ n ih =>
      refine .bind (eat _) fun closed _ => ?_
      cases closed with
      | true => exact .pure trivial
      | false =>
          refine .bind h fun a _ => .bind (eat _) fun more _ => ?_
          cases more with
          | true => exact ih (a :: made)
          | false => exact .bind (expect _) fun _ _ => .pure trivial

theorem items {p q : Parser α} (close : Symbol) (h : InStep dialect Q d Good p q) :
    InStep dialect Q d Any (items close p) (items close q) :=
  .bind rounds fun n _ => itemsFrom close h n []

theorem statementsFrom {p q : Parser Stmt} (close : TokenKind) (h : InStep dialect Q d Any p q) (n : Nat)
    (made : List Stmt) :
    InStep dialect Q d Any (statementsFrom close p n made) (statementsFrom close q n made) := by
  induction n generalizing made with
  | zero => exact .bind peek fun _ ht => .fail rfl ht
  | succ n ih =>
      refine .bind skipSemicolons fun _ _ => .bind (eat _) fun closed _ => ?_
      cases closed with
      | true => exact .pure trivial
      | false => exact .bind h fun s _ => .bind (expectSeparator _) fun _ _ => ih (s :: made)

theorem statements {p q : Parser Stmt} (close : TokenKind) (h : InStep dialect Q d Any p q) :
    InStep dialect Q d Any (statements close p) (statements close q) :=
  .bind rounds fun n _ => statementsFrom close h n []

end InStep

/-! ## Expressions -/

/-- An expression that starts in an allowed place. -/
abbrev Placed (Q : Pos → Prop) (e : Expr) : Prop :=
  Q e.pos

namespace InStep

section

variable {expression expression' : Parser Expr} {block block' : Parser (List Stmt)} {pos : Pos}

theorem function (hblock : InStep dialect Q d Any block block') (hpos : Q pos) :
    InStep dialect Q d (Placed Q) (Rules.function block pos) (Rules.function block' pos) :=
  .bind (.expect _) fun _ _ => .bind (.items _ .name) fun _ _ => .bind hblock fun _ _ => .pure hpos

theorem armsFrom (hexpr : InStep dialect Q d (Placed Q) expression expression')
    (hblock : InStep dialect Q d Any block block') (hpos : Q pos) (n : Nat)
    (arms : List (Expr × List Stmt)) :
    InStep dialect Q d (Placed Q) (Rules.armsFrom expression block pos n arms)
      (Rules.armsFrom expression' block' pos n arms) := by
  induction n generalizing arms with
  | zero => exact .bind .peek fun _ ht => .fail rfl ht
  | succ n ih =>
      refine .bind (.eat _) fun another _ => ?_
      cases another with
      | true => exact .bind hexpr fun cond _ => .bind hblock fun body _ => ih ((cond, body) :: arms)
      | false =>
          refine .bind (.eat _) fun last _ => ?_
          cases last with
          | true => exact .bind hblock fun _ _ => .pure hpos
          | false => exact .pure hpos

theorem conditional (hexpr : InStep dialect Q d (Placed Q) expression expression')
    (hblock : InStep dialect Q d Any block block') (hpos : Q pos) :
    InStep dialect Q d (Placed Q) (Rules.conditional expression block pos)
      (Rules.conditional expression' block' pos) :=
  .bind hexpr fun _ _ => .bind hblock fun _ _ => .bind .rounds fun n _ =>
    armsFrom hexpr hblock hpos n _

theorem entry (hexpr : InStep dialect Q d (Placed Q) expression expression') :
    InStep dialect Q d Any (Rules.entry expression) (Rules.entry expression') := by
  have hvalue (key : String) : InStep dialect Q d Any
      (do Parser.expect (.symbol .colon); return (key, ← expression))
      (do Parser.expect (.symbol .colon); return (key, ← expression')) :=
    .bind (.expect _) fun _ _ => .bind hexpr fun _ _ => .pure trivial
  refine .bind .take fun t ht => ?_
  cases t.kind with
  | name word => exact hvalue word
  | text value => exact hvalue value
  | _ => exact .bind (.fail rfl ht : InStep dialect Q d Any _ _) fun key _ => hvalue key

theorem primary (hexpr : InStep dialect Q d (Placed Q) expression expression')
    (hblock : InStep dialect Q d Any block block') :
    InStep dialect Q d (Placed Q) (Rules.primary expression block)
      (Rules.primary expression' block') := by
  refine .bind .take fun t ht => ?_
  cases t.kind with
  | number value => exact .pure ht
  | text value => exact .pure ht
  | name word => exact .pure ht
  | done => exact .fail rfl ht
  | keyword word =>
      cases word with
      | litTrue => exact .pure ht
      | litFalse => exact .pure ht
      | litNull => exact .pure ht
      | ifThen => exact conditional hexpr hblock ht
      | _ => exact .fail rfl ht
  | symbol s =>
      cases s with
      | atSign => exact function hblock ht
      | leftParen => exact .bind hexpr fun _ hinner => .bind (.expect _) fun _ _ => .pure hinner
      | leftBracket => exact .bind (.items _ hexpr) fun _ _ => .pure ht
      | leftBrace => exact .bind (.items _ (.entry hexpr)) fun _ _ => .pure ht
      | _ => exact .fail rfl ht

end

end InStep

/-- Sets of rules that are in step. -/
structure Rules.InStep (dialect : Dialect) (Q : Pos → Prop) (d : Nat) (r r' : Rules) : Prop where
  expression : Program.InStep dialect Q d (Placed Q) r.expression r'.expression
  binary : ∀ least, Program.InStep dialect Q d (Placed Q) (r.binary least) (r'.binary least)
  operators : ∀ least {left}, Placed Q left →
    Program.InStep dialect Q d (Placed Q) (r.operators least left) (r'.operators least left)
  unary : Program.InStep dialect Q d (Placed Q) r.unary r'.unary
  links : ∀ {target}, Placed Q target →
    Program.InStep dialect Q d (Placed Q) (r.links target) (r'.links target)
  block : Program.InStep dialect Q d Any r.block r'.block
  statement : Program.InStep dialect Q d Any r.statement r'.statement

section

variable {inner inner' : Rules}

/-! ### One level further in -/

theorem Rules.InStep.call (h : inner.InStep dialect Q d inner') {target : Expr} (ht : Placed Q target) :
    Program.InStep dialect Q d (Placed Q)
      (do
        let _ ← take
        let args ← items .rightParen inner.expression
        inner.links (.call target.pos target args))
      (do
        let _ ← take
        let args ← items .rightParen inner'.expression
        inner'.links (.call target.pos target args)) :=
  .bind .take fun _ _ => .bind (.items _ h.expression) fun _ _ => h.links ht

theorem Rules.InStep.index (h : inner.InStep dialect Q d inner') {target : Expr} (ht : Placed Q target) :
    Program.InStep dialect Q d (Placed Q)
      (do
        let _ ← take
        let index ← inner.expression
        expect (.symbol .rightBracket)
        inner.links (.index target.pos target index))
      (do
        let _ ← take
        let index ← inner'.expression
        expect (.symbol .rightBracket)
        inner'.links (.index target.pos target index)) :=
  .bind .take fun _ _ => .bind h.expression fun _ _ => .bind (.expect _) fun _ _ => h.links ht

theorem Rules.InStep.property (h : inner.InStep dialect Q d inner') {target : Expr}
    (ht : Placed Q target) :
    Program.InStep dialect Q d (Placed Q)
      (do
        let _ ← take
        let word ← name
        inner.links (.prop target.pos target word))
      (do
        let _ ← take
        let word ← name
        inner'.links (.prop target.pos target word)) :=
  .bind .take fun _ _ => .bind .name fun _ _ => h.links ht

theorem Rules.InStep.operation (h : inner.InStep dialect Q d inner') (least : Nat) (op : BinaryOp)
    {left : Expr} (hl : Placed Q left) :
    Program.InStep dialect Q d (Placed Q)
      (do
        let right ← inner.binary op.precedence
        inner.operators least (.binary left.pos op left right))
      (do
        let right ← inner'.binary op.precedence
        inner'.operators least (.binary left.pos op left right)) :=
  .bind (h.binary _) fun _ _ => h.operators least hl

theorem Rules.InStep.body (h : inner.InStep dialect Q d inner') :
    Program.InStep dialect Q d Any (statements (.symbol .rightBrace) (inBlock inner.statement))
      (statements (.symbol .rightBrace) (inBlock inner'.statement)) := by
  refine .statements _ (.bind .peek fun t ht => ?_)
  split
  · exact .bind (.fail rfl ht : Program.InStep dialect Q d Any _ _) fun _ _ => h.statement
  · exact h.statement

/-! ### The rules around -/

namespace InStep

theorem linksRule (h : d < maxDepth → inner.InStep dialect Q (d + 1) inner') {target : Expr}
    (ht : Placed Q target) :
    InStep dialect Q d (Placed Q) (Rules.linksRule inner target) (Rules.linksRule inner' target) := by
  refine .bind .peek fun t _ => ?_
  cases t.kind with
  | symbol s =>
      cases s with
      | leftParen =>
          cases t.afterBreak with
          | true => exact .pure ht
          | false => exact .nested fun hd => (h hd).call ht
      | leftBracket =>
          cases t.afterBreak with
          | true => exact .pure ht
          | false => exact .nested fun hd => (h hd).index ht
      | dot => exact .nested fun hd => (h hd).property ht
      | _ => exact .pure ht
  | _ => exact .pure ht

theorem unaryRule (h : d < maxDepth → inner.InStep dialect Q (d + 1) inner') {p q : Parser Expr}
    (hp : InStep dialect Q d (Placed Q) p q) :
    InStep dialect Q d (Placed Q) (Rules.unaryRule inner p) (Rules.unaryRule inner' q) := by
  refine .bind .peek fun t ht => ?_
  cases t.unaryOp? with
  | some op => exact .bind .take fun _ _ => .bind (.nested fun hd => (h hd).unary) fun _ _ => .pure ht
  | none => exact hp

theorem operatorsRule (h : d < maxDepth → inner.InStep dialect Q (d + 1) inner') (least : Nat)
    {left : Expr} (hl : Placed Q left) :
    InStep dialect Q d (Placed Q) (Rules.operatorsRule inner least left)
      (Rules.operatorsRule inner' least left) := by
  refine .bind .peek fun t _ => ?_
  cases t.binaryOp? with
  | none => exact .pure hl
  | some op =>
      dsimp only
      split
      · exact .pure hl
      · exact .bind .take fun _ _ => .nested fun hd => (h hd).operation least op hl

theorem blockRule (h : d < maxDepth → inner.InStep dialect Q (d + 1) inner') :
    InStep dialect Q d Any (Rules.blockRule inner) (Rules.blockRule inner') :=
  .bind (.expect _) fun _ _ => .nested fun hd => (h hd).body

end InStep

end

/-! ## Statements -/

namespace InStep

variable {expression expression' : Parser Expr} {block block' : Parser (List Stmt)}

theorem definition (hexpr : InStep dialect Q d (Placed Q) expression expression') (pos : Pos)
    (isMutable : Bool) (mark : Symbol) :
    InStep dialect Q d Any (Rules.definition expression pos isMutable mark)
      (Rules.definition expression' pos isMutable mark) :=
  .bind .name fun _ _ => .bind (.expect _) fun _ _ => .bind hexpr fun _ _ => .pure trivial

theorem loopVariable :
    InStep dialect Q d Any (Rules.loopVariable dialect) (Rules.loopVariable dialect) := by
  unfold Rules.loopVariable
  cases dialect <;> exact .bind (.expect _) fun _ _ => .name

/-- The head of a loop and its body. -/
theorem loopParts (hexpr : InStep dialect Q d (Placed Q) expression expression')
    (hblock : InStep dialect Q d Any block block') (f : String → Expr → List Stmt → Stmt) :
    InStep dialect Q d Any
      (do
        let var ← Rules.loopVariable dialect
        Parser.expect (.symbol .comma)
        let items ← expression
        return f var items (← block))
      (do
        let var ← Rules.loopVariable dialect
        Parser.expect (.symbol .comma)
        let items ← expression'
        return f var items (← block')) :=
  .bind loopVariable fun _ _ => .bind (.expect _) fun _ _ => .bind hexpr fun _ _ =>
    .bind hblock fun _ _ => .pure trivial

theorem evaluation (hexpr : InStep dialect Q d (Placed Q) expression expression') :
    InStep dialect Q d Any (Rules.evaluation dialect expression)
      (Rules.evaluation dialect expression') := by
  refine .bind hexpr fun target ht => .bind .peek fun t _ => ?_
  cases t.assignOp? dialect with
  | none => exact .pure trivial
  | some op =>
      dsimp only
      split
      · exact .bind .take fun _ _ => .bind hexpr fun _ _ => .pure trivial
      · exact .fail rfl ht

theorem statementRule (hexpr : InStep dialect Q d (Placed Q) expression expression')
    (hblock : InStep dialect Q d Any block block') :
    InStep dialect Q d Any (Rules.statementRule dialect expression block)
      (Rules.statementRule dialect expression' block') := by
  have heval := evaluation hexpr
  refine .bind .get fun c hc => ?_
  cases c.next.kind with
  | keyword word =>
      cases word with
      | constDef | varDef => exact .bind .take fun _ _ => definition hexpr _ _ _
      | returnBack =>
          refine .bind .take fun _ _ => .bind .atEnd fun ended _ => ?_
          cases ended with
          | true => exact .pure trivial
          | false => exact .bind hexpr fun _ _ => .pure trivial
      | breakOut | continueOn => exact .bind .take fun _ _ => .pure trivial
      | loop => exact .bind .take fun _ _ => .bind hblock fun _ _ => .pure trivial
      | each => exact .bind .take fun _ _ => loopParts hexpr hblock (.each c.next.pos)
      | forCount => exact .bind .take fun _ _ => loopParts hexpr hblock (.count c.next.pos)
      | _ => exact heval
  | symbol s =>
      cases s with
      | out => exact .bind .take fun _ _ => .bind hexpr fun _ _ => .pure trivial
      | hash | dollar => exact .bind .take fun _ _ => definition hexpr _ _ _
      | atSign =>
          cases c.second.kind with
          | name word =>
              exact .bind .take fun _ _ => .bind .take fun _ _ =>
                .bind (function hblock hc.next) fun _ _ => .pure trivial
          | symbol s => exact heval
          | _ => exact heval
      | _ => exact heval
  | _ => exact heval

theorem metadata (hexpr : InStep dialect Q d (Placed Q) expression expression') :
    InStep dialect Q d Any (Program.metadata expression) (Program.metadata expression') := by
  have hvalue (pos : Pos) (name? : Option String) : InStep dialect Q d Any
      (do
        let value ← expression
        if value.isStatic then return Stmt.metadata pos name? value
        else Parser.fail .metadataNotLiteral value.pos)
      (do
        let value ← expression'
        if value.isStatic then return Stmt.metadata pos name? value
        else Parser.fail .metadataNotLiteral value.pos) := by
    refine .bind hexpr fun value hpos => ?_
    split
    · exact .pure trivial
    · exact .fail rfl hpos
  refine .bind .take fun t _ => .bind .peek fun u _ => ?_
  cases u.kind with
  | name word => exact .bind .take fun _ _ => hvalue t.pos (some word)
  | _ => exact hvalue t.pos none

theorem topStatement {rules rules' : Rules} (h : rules.InStep dialect Q d rules') :
    InStep dialect Q d Any (Program.topStatement rules) (Program.topStatement rules') := by
  refine .bind (.at? _) fun isMetadata _ => ?_
  cases isMetadata with
  | true => exact metadata h.expression
  | false => exact h.statement

end InStep

/-! ## All rules -/

namespace Rules.InStep

variable {inner inner' : Rules}

/-- Rules are in step as soon as those one level further in are, if there is room for these. -/
theorem around (h : d < maxDepth → inner.InStep dialect Q (d + 1) inner') :
    (Rules.around dialect inner).InStep dialect Q d (Rules.around dialect inner') := by
  have hexpr : Program.InStep dialect Q d (Placed Q) (nested (inner.binary 0))
      (nested (inner'.binary 0)) :=
    .nested fun hd => (h hd).binary 0
  have hblock := Program.InStep.blockRule h
  have hunary := Program.InStep.unaryRule h
    (.bind (.primary hexpr hblock) fun _ ht => .linksRule h ht)
  exact {
    expression := hexpr
    binary := fun least => .bind hunary fun _ hl => .operatorsRule h least hl
    operators := fun least _ hl => .operatorsRule h least hl
    unary := hunary
    links := fun ht => .linksRule h ht
    block := hblock
    statement := .statementRule hexpr hblock }

/-- The rules with any room, on any level, keep what every parser keeps. -/
theorem withRoom (n : Nat) :
    (Rules.withRoom dialect n).InStep dialect Q d (Rules.withRoom dialect n) := by
  induction n generalizing d with
  | zero =>
      have hrefuse {α : Type} {Good : α → Prop} : Program.InStep dialect Q d Good
          (do fail .nestedTooDeep (← peek).pos) (do fail .nestedTooDeep (← peek).pos) :=
        .bind .peek fun _ ht => .fail rfl ht
      exact ⟨hrefuse, fun _ => hrefuse, fun _ _ _ => hrefuse, hrefuse, fun _ => hrefuse, hrefuse, hrefuse⟩
  | succ n ih => exact around fun _ => ih

end Rules.InStep

end ScriptLab.Program
