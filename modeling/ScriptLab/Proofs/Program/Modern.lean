import ScriptLab.Proofs.Program.Reading

/-!
# Legacy programs in the modern dialect

A legacy program becomes a modern one when its marks of definitions and assignments are replaced. The
two dialects then read it in step: every rule that succeeds on the legacy tokens succeeds on the
modern ones, with the same tree. Only behind an expression can the modern dialect go on where the
legacy one stops, at a mark of assignment that no legacy program has there.
-/

namespace ScriptLab.Program

open ScriptLab.Program.Parser
open Text (Pos)

variable {α β : Type}

/-! ## Tokens -/

/-- What becomes of a kind of token in the modern dialect. -/
def TokenKind.modern : TokenKind → TokenKind
  | .symbol .hash => .keyword .constDef
  | .symbol .dollar => .keyword .varDef
  | .symbol .leftArrow => .symbol .assign
  | kind => kind

/-- Whether a kind neither is replaced nor replaces another one. -/
def TokenKind.isShared : TokenKind → Bool
  | .symbol .hash | .symbol .dollar | .symbol .leftArrow | .symbol .assign => false
  | .keyword .constDef | .keyword .varDef => false
  | _ => true

theorem TokenKind.modern_eq_iff {kind other : TokenKind} (h : kind.isShared = true) :
    other.modern = kind ↔ other = kind := by
  unfold TokenKind.modern
  split <;> constructor <;> rintro rfl <;> first | rfl | cases h

/-- A token in the modern dialect, where it stands. -/
def Token.modern (t : Token) : Token :=
  { t with kind := t.kind.modern }

@[simp] theorem Token.modern_pos (t : Token) : t.modern.pos = t.pos := rfl

@[simp] theorem Token.modern_afterBreak (t : Token) : t.modern.afterBreak = t.afterBreak := rfl

theorem Token.binaryOp?_modern (t : Token) : t.modern.binaryOp? = t.binaryOp? := by
  obtain ⟨kind, pos, afterBreak⟩ := t
  cases kind with
  | symbol s => cases s <;> cases afterBreak <;> rfl
  | _ => rfl

theorem Token.unaryOp?_modern (t : Token) : t.modern.unaryOp? = t.unaryOp? := by
  obtain ⟨kind, pos, afterBreak⟩ := t
  cases kind with
  | symbol s => cases s <;> rfl
  | _ => rfl

/-- A mark of assignment that only the modern dialect reads behind an expression. -/
def Token.Stray (t : Token) : Prop :=
  t.kind = .symbol .assign ∨ t.kind = .symbol .addAssign ∨ t.kind = .symbol .subAssign

theorem Token.Stray.ne {t : Token} (h : t.Stray) {kind : TokenKind}
    (hkind : kind ≠ .symbol .assign ∧ kind ≠ .symbol .addAssign ∧ kind ≠ .symbol .subAssign) :
    t.kind ≠ kind := by
  rintro rfl
  rcases h with h | h | h
  · exact hkind.1 h
  · exact hkind.2.1 h
  · exact hkind.2.2 h

/-- Both dialects read the same assignment, or the mark is none of the legacy dialect. -/
theorem Token.assignOp?_modern (t : Token) :
    t.Stray ∧ t.assignOp? .legacy = none ∨
      t.modern.assignOp? .modern = t.assignOp? .legacy := by
  obtain ⟨kind, pos, afterBreak⟩ := t
  cases kind with
  | symbol s => cases s <;> simp [Stray, Token.modern, TokenKind.modern, Token.assignOp?]
  | _ => exact .inr rfl

/-! ## Cursors and parsers -/

/-- The cursor at the modern tokens. -/
def Cursor.modern (c : Cursor) : Cursor :=
  ⟨c.next.modern, c.rest.map Token.modern, c.depth⟩

@[simp] theorem Cursor.modern_next (c : Cursor) : c.modern.next = c.next.modern := rfl

@[simp] theorem Cursor.modern_depth (c : Cursor) : c.modern.depth = c.depth := rfl

theorem Cursor.modern_advance (c : Cursor) : c.modern.advance = c.advance.modern := by
  obtain ⟨t, ts, depth⟩ := c
  cases ts <;> rfl

theorem Cursor.modern_second (c : Cursor) : c.modern.second = c.second.modern := by
  obtain ⟨t, ts, depth⟩ := c
  cases ts <;> rfl

theorem Cursor.modern_deeper (c : Cursor) : c.modern.deeper = c.deeper.modern := rfl

/-- What the first parser reads, the second reads from the modern tokens. -/
def Carries (p q : Parser α) : Prop :=
  ∀ ⦃c a c'⦄, p c = .ok (a, c') → q c.modern = .ok (a, c'.modern)

namespace Carries

theorem pure (a : α) : Carries (pure a : Parser α) (pure a) := by
  intro c b c' h
  cases h
  rfl

theorem fail {q : Parser α} (cause : Cause) (pos : Pos) : Carries (fail cause pos) q := by
  intro c a c' h
  cases h

theorem fail_bind {q : Parser β} (cause : Cause) (pos : Pos) (f : α → Parser β) :
    Carries (Parser.fail cause pos >>= f) q := by
  intro c b c' h
  cases h

theorem bind {p q : Parser α} {f g : α → Parser β} (hp : Carries p q)
    (hf : ∀ a, Carries (f a) (g a)) : Carries (p >>= f) (q >>= g) := by
  intro c b c' h
  obtain ⟨a, c₁, ha, hb⟩ := bind_ok h
  rw [bind_of_ok (hp ha)]
  exact hf a hb

/-! ## Single tokens -/

theorem get_bind {f g : Cursor → Parser α} (hf : ∀ c, Carries (f c) (g c.modern)) :
    Carries (get >>= f) (get >>= g) := by
  intro c a c' h
  rw [bind_of_ok (get_apply c)] at h
  rw [bind_of_ok (get_apply c.modern)]
  exact hf c h

theorem peek_bind {f g : Token → Parser α} (hf : ∀ t, Carries (f t) (g t.modern)) :
    Carries (peek >>= f) (peek >>= g) := by
  intro c a c' h
  rw [bind_of_ok (peek_apply c)] at h
  rw [bind_of_ok (peek_apply c.modern)]
  exact hf c.next h

theorem take_bind {f g : Token → Parser α} (hf : ∀ t, Carries (f t) (g t.modern)) :
    Carries (take >>= f) (take >>= g) := by
  intro c a c' h
  rw [bind_of_ok (take_apply c)] at h
  rw [bind_of_ok (take_apply c.modern), Cursor.modern_advance]
  exact hf c.next h

theorem rounds : Carries rounds rounds := by
  intro c a c' h
  cases h
  simp [Cursor.modern]

theorem expect (kind : TokenKind) : Carries (expect kind) (expect kind.modern) := by
  intro c a c' h
  unfold Parser.expect at h ⊢
  rw [bind_of_ok (get_apply c)] at h
  rw [bind_of_ok (get_apply c.modern)]
  by_cases hk : c.next.kind = kind
  · rw [if_pos hk] at h
    cases h
    have hk' : c.modern.next.kind = kind.modern := congrArg TokenKind.modern hk
    rw [if_pos hk', Cursor.modern_advance]
    rfl
  · rw [if_neg hk] at h
    cases h

theorem expect_shared {kind : TokenKind} (hkind : kind.isShared = true) :
    Carries (Parser.expect kind) (Parser.expect kind) := by
  have h := expect kind
  rwa [(TokenKind.modern_eq_iff hkind).2 rfl] at h

theorem eat {kind : TokenKind} (hkind : kind.isShared = true) : Carries (eat kind) (eat kind) := by
  intro c a c' h
  have hiff : c.modern.next.kind = kind ↔ c.next.kind = kind := TokenKind.modern_eq_iff hkind
  rw [eat_apply] at h ⊢
  by_cases hk : c.next.kind = kind
  · rw [if_pos hk] at h
    cases h
    rw [if_pos (hiff.2 hk), Cursor.modern_advance]
  · rw [if_neg hk] at h
    cases h
    rw [if_neg (mt hiff.1 hk)]

theorem name : Carries name name := by
  refine take_bind fun t => ?_
  unfold Token.modern
  cases hk : t.kind with
  | name word => exact pure word
  | _ => exact fail _ _

theorem nested {p q : Parser α} (hp : Carries p q) : Carries (nested p) (nested q) := by
  intro c a c' h
  obtain ⟨hroom, c₁, h₁, rfl⟩ := nested_ok h
  rw [nested_apply, Cursor.modern_depth, if_neg (Nat.not_lt.2 hroom), Cursor.modern_deeper, hp h₁]
  rfl

theorem atEnd : Carries atEnd atEnd := by
  refine peek_bind fun t => ?_
  have hdone : t.modern.kind = .done ↔ t.kind = .done := TokenKind.modern_eq_iff rfl
  have hsemicolon : t.modern.kind = .symbol .semicolon ↔ t.kind = .symbol .semicolon :=
    TokenKind.modern_eq_iff rfl
  have hbrace : t.modern.kind = .symbol .rightBrace ↔ t.kind = .symbol .rightBrace :=
    TokenKind.modern_eq_iff rfl
  simp only [hdone, hsemicolon, hbrace, Token.modern_afterBreak]
  exact pure _

/-! ## Sequences -/

theorem itemsFrom {close : Symbol} (hclose : (TokenKind.symbol close).isShared = true)
    {p q : Parser α} (hp : Carries p q) (n : Nat) (made : List α) :
    Carries (itemsFrom close p n made) (itemsFrom close q n made) := by
  induction n generalizing made with
  | zero => exact peek_bind fun _ => fail _ _
  | succ n ih =>
      refine bind (eat hclose) fun closed => ?_
      cases closed with
      | true => exact pure _
      | false =>
          refine bind hp fun a => bind (eat rfl) fun more => ?_
          cases more with
          | true => exact ih (a :: made)
          | false => exact bind (expect_shared hclose) fun _ => pure _

theorem items {close : Symbol} (hclose : (TokenKind.symbol close).isShared = true)
    {p q : Parser α} (hp : Carries p q) : Carries (items close p) (items close q) :=
  bind rounds fun n => itemsFrom hclose hp n []

theorem skipSemicolons : Carries skipSemicolons skipSemicolons := by
  intro c a c' h
  cases h
  have hskip : ∀ t ts, Cursor.skip .semicolon (Token.modern t) (ts.map Token.modern) =
      ((Cursor.skip .semicolon t ts).1.modern, (Cursor.skip .semicolon t ts).2.map Token.modern) := by
    intro t ts
    induction ts generalizing t with
    | nil => rfl
    | cons u us ih =>
        have hiff : t.modern.kind = .symbol .semicolon ↔ t.kind = .symbol .semicolon :=
          TokenKind.modern_eq_iff rfl
        by_cases hk : t.kind = .symbol .semicolon
        · simp only [List.map_cons, Cursor.skip, hiff, hk, if_true, ih]
        · simp only [List.map_cons, Cursor.skip, hiff, hk, if_false]
  unfold Parser.skipSemicolons
  rw [modify_apply]
  show Except.ok _ = _
  simp only [Cursor.modern, hskip]

theorem expectSeparator {close : TokenKind} (hclose : close.isShared = true) :
    Carries (expectSeparator close) (expectSeparator close) := by
  refine peek_bind fun t => ?_
  have hend : t.modern.kind = close ↔ t.kind = close := TokenKind.modern_eq_iff hclose
  have hsemicolon : t.modern.kind = .symbol .semicolon ↔ t.kind = .symbol .semicolon :=
    TokenKind.modern_eq_iff rfl
  simp only [hend, hsemicolon, Token.modern_afterBreak]
  split
  · exact pure ()
  · exact fail _ _

end Carries

/-! ## Expressions -/

section

variable {expression expression' : Parser Expr} {block block' : Parser (List Stmt)}

theorem Carries.function (hblock : Carries block block') (pos : Pos) :
    Carries (Rules.function block pos) (Rules.function block' pos) :=
  .bind (.expect_shared rfl) fun _ => .bind (.items rfl .name) fun _ => .bind hblock fun _ => .pure _

theorem Carries.armsFrom (hexpr : Carries expression expression') (hblock : Carries block block')
    (pos : Pos) (n : Nat) (arms : List (Expr × List Stmt)) :
    Carries (Rules.armsFrom expression block pos n arms)
      (Rules.armsFrom expression' block' pos n arms) := by
  induction n generalizing arms with
  | zero => exact .peek_bind fun _ => .fail _ _
  | succ n ih =>
      refine .bind (.eat rfl) fun another => ?_
      cases another with
      | true => exact .bind hexpr fun cond => .bind hblock fun body => ih ((cond, body) :: arms)
      | false =>
          refine .bind (.eat rfl) fun last => ?_
          cases last with
          | true => exact .bind hblock fun _ => .pure _
          | false => exact .pure _

theorem Carries.conditional (hexpr : Carries expression expression')
    (hblock : Carries block block') (pos : Pos) :
    Carries (Rules.conditional expression block pos) (Rules.conditional expression' block' pos) :=
  .bind hexpr fun _ => .bind hblock fun _ => .bind .rounds fun n => .armsFrom hexpr hblock pos n _

theorem Carries.entry (hexpr : Carries expression expression') :
    Carries (Rules.entry expression) (Rules.entry expression') := by
  have hvalue : ∀ key : String, Carries
      (do Parser.expect (.symbol .colon); return (key, ← expression) : Parser (String × Expr))
      (do Parser.expect (.symbol .colon); return (key, ← expression')) := fun key =>
    .bind (.expect_shared rfl) fun _ => .bind hexpr fun _ => .pure _
  refine .take_bind fun t => ?_
  unfold Token.modern
  cases hk : t.kind with
  | name word => exact hvalue word
  | text value => exact hvalue value
  | _ => exact .fail_bind _ _ _

theorem Carries.primary (hexpr : Carries expression expression') (hblock : Carries block block') :
    Carries (Rules.primary expression block) (Rules.primary expression' block') := by
  refine .take_bind fun t => ?_
  unfold Token.modern
  cases hk : t.kind with
  | number value => exact .pure _
  | text value => exact .pure _
  | name word => exact .pure _
  | done => exact .fail _ _
  | keyword word =>
      cases word with
      | litTrue => exact .pure _
      | litFalse => exact .pure _
      | litNull => exact .pure _
      | ifThen => exact .conditional hexpr hblock t.pos
      | _ => exact .fail _ _
  | symbol s =>
      cases s with
      | atSign => exact .function hblock t.pos
      | leftParen => exact .bind hexpr fun _ => .bind (.expect_shared rfl) fun _ => .pure _
      | leftBracket => exact .bind (.items rfl hexpr) fun _ => .pure _
      | leftBrace => exact .bind (.items rfl (.entry hexpr)) fun _ => .pure _
      | _ => exact .fail _ _

end

/-! ## All rules -/

/-- A statement carries over, unless a mark of assignment follows that is none of the legacy dialect. -/
def CarriesStmt (p q : Parser Stmt) : Prop :=
  ∀ ⦃c s c'⦄, p c = .ok (s, c') → c'.next.Stray ∨ q c.modern = .ok (s, c'.modern)

theorem CarriesStmt.of_carries {p q : Parser Stmt} (h : Carries p q) : CarriesStmt p q :=
  fun _ _ _ hp => .inr (h hp)

/-- A parser that reads nothing from a stray mark of assignment. -/
def Barred (p : Parser α) : Prop :=
  ∀ ⦃c a c'⦄, c.next.Stray → p c ≠ .ok (a, c')

theorem Barred.bind {p : Parser α} (h : Barred p) (f : α → Parser β) : Barred (p >>= f) := by
  intro c b c' hc hp
  obtain ⟨a, c₁, ha, -⟩ := bind_ok hp
  exact h hc ha

theorem Barred.nested {p : Parser α} (h : Barred p) : Barred (nested p) := by
  intro c a c' hc hp
  obtain ⟨-, c₁, h₁, -⟩ := nested_ok hp
  exact h (c := c.deeper) hc h₁

/-- Rules of the legacy dialect that the modern dialect follows. -/
structure Rules.Followed (r r' : Rules) : Prop where
  expression : Carries r.expression r'.expression
  binary : ∀ least, Carries (r.binary least) (r'.binary least)
  operators : ∀ least left, Carries (r.operators least left) (r'.operators least left)
  unary : Carries r.unary r'.unary
  links : ∀ target, Carries (r.links target) (r'.links target)
  block : Carries r.block r'.block
  statement : CarriesStmt r.statement r'.statement
  barred : Barred r.expression
  barredBinary : ∀ least, Barred (r.binary least)
  barredStatement : Barred r.statement

section

variable {inner inner' : Rules}

theorem Carries.linksRule (h : inner.Followed inner') (target : Expr) :
    Carries (Rules.linksRule inner target) (Rules.linksRule inner' target) := by
  refine .peek_bind fun t => ?_
  unfold Token.modern
  cases hk : t.kind with
  | symbol s =>
      cases s with
      | leftParen =>
          cases t.afterBreak with
          | true => exact .pure _
          | false =>
              exact .nested (.take_bind fun _ => .bind (.items rfl h.expression) fun _ => h.links _)
      | leftBracket =>
          cases t.afterBreak with
          | true => exact .pure _
          | false =>
              exact .nested (.take_bind fun _ => .bind h.expression fun _ =>
                .bind (.expect_shared rfl) fun _ => h.links _)
      | dot => exact .nested (.take_bind fun _ => .bind .name fun _ => h.links _)
      | _ => exact .pure _
  | _ => exact .pure _

theorem Carries.unaryRule (h : inner.Followed inner') {p q : Parser Expr} (hp : Carries p q) :
    Carries (Rules.unaryRule inner p) (Rules.unaryRule inner' q) := by
  refine .peek_bind fun t => ?_
  rw [Token.unaryOp?_modern]
  cases t.unaryOp? with
  | some op => exact .take_bind fun _ => .bind (.nested h.unary) fun _ => .pure _
  | none => exact hp

theorem Carries.operatorsRule (h : inner.Followed inner') (least : Nat) (left : Expr) :
    Carries (Rules.operatorsRule inner least left) (Rules.operatorsRule inner' least left) := by
  refine .peek_bind fun t => ?_
  rw [Token.binaryOp?_modern]
  cases t.binaryOp? with
  | none => exact .pure left
  | some op =>
      by_cases hle : op.precedence ≤ least
      · simp only [hle, if_true]
        exact .pure left
      · simp only [hle, if_false]
        exact .take_bind fun _ => .nested (.bind (h.binary _) fun _ => h.operators _ _)

end

/-! ## Statements -/

section

variable {expression expression' : Parser Expr} {block block' : Parser (List Stmt)}

theorem Carries.definition (hexpr : Carries expression expression') (pos : Pos) (isMutable : Bool)
    {mark mark' : Symbol} (hmark : (TokenKind.symbol mark).modern = .symbol mark') :
    Carries (Rules.definition expression pos isMutable mark)
      (Rules.definition expression' pos isMutable mark') := by
  refine .bind .name fun word => .bind ?_ fun _ => .bind hexpr fun _ => .pure _
  rw [← hmark]
  exact .expect _

theorem Carries.loopVariable : Carries (Rules.loopVariable .legacy) (Rules.loopVariable .modern) :=
  .bind (.expect (.symbol .hash)) fun _ => .name

/-- Behind an expression the dialects go on in the same way, unless a stray mark of assignment stands
there, at which the legacy dialect stops. -/
theorem CarriesStmt.evaluation (hexpr : Carries expression expression') :
    CarriesStmt (Rules.evaluation .legacy expression) (Rules.evaluation .modern expression') := by
  intro c s c' h
  unfold Rules.evaluation at h ⊢
  obtain ⟨target, c₁, htarget, h₁⟩ := bind_ok h
  rw [bind_of_ok (peek_apply c₁)] at h₁
  rw [bind_of_ok (hexpr htarget), bind_of_ok (peek_apply c₁.modern)]
  rcases c₁.next.assignOp?_modern with ⟨hstray, hnone⟩ | hop
  · rw [hnone] at h₁
    cases h₁
    exact .inl hstray
  · refine .inr ?_
    rw [Cursor.modern_next, hop]
    cases hlegacy : c₁.next.assignOp? .legacy with
    | none =>
        rw [hlegacy] at h₁
        cases h₁
        rfl
    | some op =>
        rw [hlegacy] at h₁
        dsimp only at h₁ ⊢
        by_cases hplace : target.isPlace = true
        · rw [if_pos hplace] at h₁ ⊢
          have hrest : Carries
              (do let _ ← take; return Stmt.assign target.pos target op (← expression))
              (do let _ ← take; return Stmt.assign target.pos target op (← expression')) :=
            .take_bind fun _ => .bind hexpr fun _ => .pure _
          exact hrest h₁
        · rw [if_neg hplace] at h₁
          cases h₁

theorem CarriesStmt.get_bind {f g : Cursor → Parser Stmt}
    (hf : ∀ c, CarriesStmt (f c) (g c.modern)) : CarriesStmt (get >>= f) (get >>= g) := by
  intro c s c' h
  rw [bind_of_ok (get_apply c)] at h
  rw [bind_of_ok (get_apply c.modern)]
  exact hf c h

theorem CarriesStmt.statementRule (hexpr : Carries expression expression')
    (hblock : Carries block block') :
    CarriesStmt (Rules.statementRule .legacy expression block)
      (Rules.statementRule .modern expression' block') := by
  have heval := CarriesStmt.evaluation hexpr
  refine .get_bind fun c => ?_
  rw [Cursor.modern_second, Cursor.modern_next]
  unfold Token.modern
  cases hk : c.next.kind with
  | keyword word =>
      cases word with
      | constDef | varDef =>
          exact .of_carries (.take_bind fun _ => .definition hexpr _ _ rfl)
      | returnBack =>
          refine .of_carries (.take_bind fun _ => .bind .atEnd fun ended => ?_)
          cases ended with
          | true => exact .pure _
          | false => exact .bind hexpr fun _ => .pure _
      | breakOut | continueOn => exact .of_carries (.take_bind fun _ => .pure _)
      | loop => exact .of_carries (.take_bind fun _ => .bind hblock fun _ => .pure _)
      | each | forCount =>
          exact .of_carries (.take_bind fun _ => .bind .loopVariable fun _ =>
            .bind (.expect_shared rfl) fun _ => .bind hexpr fun _ => .bind hblock fun _ => .pure _)
      | _ => exact heval
  | symbol s =>
      cases s with
      | out => exact .of_carries (.take_bind fun _ => .bind hexpr fun _ => .pure _)
      | hash | dollar => exact .of_carries (.take_bind fun _ => .definition hexpr _ _ rfl)
      | atSign =>
          cases hsecond : c.second.kind with
          | name word =>
              exact .of_carries (.take_bind fun _ => .take_bind fun _ =>
                .bind (.function hblock _) fun _ => .pure _)
          | symbol s => cases s <;> exact heval
          | _ => exact heval
      | _ => exact heval
  | _ => exact heval

/-! ### Stray marks -/

theorem Barred.primary (c : Cursor) (hc : c.next.Stray) {r : Expr × Cursor} :
    Rules.primary expression block c ≠ .ok r := by
  unfold Rules.primary
  rw [bind_of_ok (take_apply c)]
  rcases hc with hk | hk | hk <;> rw [hk] <;> exact fun h => nomatch h

theorem Barred.statementRule {dialect : Dialect} (h : Barred expression) :
    Barred (Rules.statementRule dialect expression block) := by
  intro c s c' hc
  have heval : Barred (Rules.evaluation dialect expression) := h.bind _
  unfold Rules.statementRule
  rw [bind_of_ok (get_apply c)]
  rcases hc with hk | hk | hk <;> rw [hk] <;> exact heval (by simp [Token.Stray, hk])

end

/-! ### Lists of statements -/

section

variable {p q : Parser Stmt} {close : TokenKind}

theorem skipSemicolons_stray {c : Cursor} (hc : c.next.Stray) : skipSemicolons c = .ok ((), c) := by
  obtain ⟨t, ts, depth⟩ := c
  have hne : t.kind ≠ .symbol .semicolon := hc.ne (by decide)
  cases ts with
  | nil => rfl
  | cons u us => simp [skipSemicolons, Cursor.skip, hne]

/-- A list of statements does not go on at a stray mark. -/
theorem Barred.statementsFrom (hp : Barred p) (hclose : ∀ t : Token, t.Stray → t.kind ≠ close)
    (n : Nat) (made : List Stmt) : Barred (statementsFrom close p n made) := by
  intro c body c' hc h
  cases n with
  | zero => cases h
  | succ n =>
      unfold Parser.statementsFrom at h
      rw [bind_of_ok (skipSemicolons_stray hc)] at h
      have hopen : eat close c = .ok (false, c) := by rw [eat_apply, if_neg (hclose _ hc)]
      rw [bind_of_ok hopen] at h
      obtain ⟨s, c₁, hs, -⟩ := bind_ok h
      exact hp hc hs

theorem expectSeparator_cursor {c c' : Cursor} (h : expectSeparator close c = .ok ((), c')) :
    c' = c := by
  unfold expectSeparator at h
  rw [bind_of_ok (peek_apply c)] at h
  split at h <;> cases h
  rfl

theorem Carries.statementsFrom (hp : CarriesStmt p q) (hbar : Barred p)
    (hshared : close.isShared = true) (hclose : ∀ t : Token, t.Stray → t.kind ≠ close)
    (n : Nat) (made : List Stmt) :
    Carries (statementsFrom close p n made) (statementsFrom close q n made) := by
  induction n generalizing made with
  | zero => exact .peek_bind fun _ => .fail _ _
  | succ n ih =>
      refine .bind .skipSemicolons fun _ => .bind (.eat hshared) fun closed => ?_
      cases closed with
      | true => exact .pure _
      | false =>
          intro c body c' h
          obtain ⟨s, c₁, hs, h₁⟩ := bind_ok h
          rcases hp hs with hstray | hcarry
          · obtain ⟨⟨⟩, c₂, hsep, h₂⟩ := bind_ok h₁
            cases expectSeparator_cursor hsep
            exact absurd h₂ (hbar.statementsFrom hclose n _ hstray)
          · have hrest : Carries
                (do Parser.expectSeparator close; Parser.statementsFrom close p n (s :: made))
                (do Parser.expectSeparator close; Parser.statementsFrom close q n (s :: made)) :=
              .bind (.expectSeparator hshared) fun _ => ih (s :: made)
            rw [if_neg Bool.false_ne_true, bind_of_ok hcarry]
            exact hrest h₁

theorem Carries.statements (hp : CarriesStmt p q) (hbar : Barred p)
    (hshared : close.isShared = true) (hclose : ∀ t : Token, t.Stray → t.kind ≠ close) :
    Carries (statements close p) (statements close q) :=
  .bind .rounds fun n => .statementsFrom hp hbar hshared hclose n []

end

/-! ## All rules -/

section

variable {inner inner' : Rules}

theorem Carries.blockRule (h : inner.Followed inner') :
    Carries (Rules.blockRule inner) (Rules.blockRule inner') := by
  refine .bind (.expect_shared rfl) fun _ => .nested (.statements ?_ ?_ rfl fun t ht => ht.ne (by decide))
  · intro c s c' hs
    rw [bind_of_ok (peek_apply c)] at hs
    rw [bind_of_ok (peek_apply c.modern)]
    have hiff : c.modern.next.kind = .symbol .metadata ↔ c.next.kind = .symbol .metadata :=
      TokenKind.modern_eq_iff rfl
    by_cases hk : c.next.kind = .symbol .metadata
    · rw [if_pos hk] at hs
      cases hs
    · rw [if_neg hk] at hs
      rw [if_neg (mt hiff.1 hk)]
      exact h.statement hs
  · intro c s c' hc hs
    rw [bind_of_ok (peek_apply c), if_neg (hc.ne (by decide))] at hs
    exact h.barredStatement hc hs

theorem Rules.Followed.around (h : inner.Followed inner') :
    (Rules.around .legacy inner).Followed (Rules.around .modern inner') := by
  have hexpr : Carries (Parser.nested (inner.binary 0)) (Parser.nested (inner'.binary 0)) :=
    .nested (h.binary 0)
  have hblock := Carries.blockRule h
  have hunary := Carries.unaryRule h (.bind (.primary hexpr hblock) fun t => .linksRule h t)
  have hbarred : Barred (Parser.nested (inner.binary 0)) := (h.barredBinary 0).nested
  refine ⟨hexpr, fun least => .bind hunary fun _ => .operatorsRule h least _, .operatorsRule h,
    hunary, .linksRule h, hblock, .statementRule hexpr hblock, hbarred, fun least => ?_,
    hbarred.statementRule⟩
  refine Barred.bind ?_ _
  intro c e c' hc hp
  have hop : c.next.unaryOp? = Option.none := by
    rcases hc with hk | hk | hk <;> simp [Token.unaryOp?, hk]
  unfold Rules.unaryRule at hp
  rw [bind_of_ok (peek_apply c), hop] at hp
  obtain ⟨target, c₁, htarget, -⟩ := bind_ok hp
  exact Barred.primary c hc htarget

theorem Rules.Followed.withRoom (n : Nat) :
    (Rules.withRoom .legacy n).Followed (Rules.withRoom .modern n) := by
  induction n with
  | zero =>
      have hrefuse {α : Type} (q : Parser α) :
          Carries (do Parser.fail .nestedTooDeep (← peek).pos : Parser α) q :=
        fun _ _ _ h => nomatch h
      have hbarred {α : Type} : Barred (do Parser.fail .nestedTooDeep (← peek).pos : Parser α) :=
        fun _ _ _ _ h => nomatch h
      exact ⟨hrefuse _, fun _ => hrefuse _, fun _ _ => hrefuse _, hrefuse _, fun _ => hrefuse _,
        hrefuse _, .of_carries (hrefuse _), hbarred, fun _ => hbarred, hbarred⟩
  | succ n ih => exact ih.around

end

/-! ## Programs -/

theorem Carries.metadata {expression expression' : Parser Expr}
    (hexpr : Carries expression expression') :
    Carries (Program.metadata expression) (Program.metadata expression') := by
  have hvalue : ∀ (pos : Pos) (name? : Option String), Carries
      (do
        let value ← expression
        if value.isStatic then return Stmt.metadata pos name? value
        else Parser.fail .metadataNotLiteral value.pos)
      (do
        let value ← expression'
        if value.isStatic then return Stmt.metadata pos name? value
        else Parser.fail .metadataNotLiteral value.pos) := by
    intro pos name?
    refine .bind hexpr fun value => ?_
    by_cases hstatic : value.isStatic = true
    · simp only [hstatic, if_true]
      exact .pure _
    · simp only [hstatic]
      exact .fail _ _
  refine .take_bind fun t => .peek_bind fun u => ?_
  unfold Token.modern
  cases hk : u.kind with
  | name word => exact .take_bind fun _ => hvalue t.pos (some word)
  | symbol s => cases s <;> exact hvalue t.pos none
  | _ => exact hvalue t.pos none

theorem CarriesStmt.topStatement {rules rules' : Rules} (h : rules.Followed rules') :
    CarriesStmt (topStatement rules) (topStatement rules') := by
  intro c s c' hs
  have hiff : c.modern.next.kind = .symbol .metadata ↔ c.next.kind = .symbol .metadata :=
    TokenKind.modern_eq_iff rfl
  have hat : ∀ c : Cursor, at? (.symbol .metadata) c =
      .ok (decide (c.next.kind = .symbol .metadata), c) := fun _ => rfl
  unfold Program.topStatement at hs ⊢
  rw [bind_of_ok (hat c)] at hs
  rw [bind_of_ok (hat c.modern)]
  by_cases hk : c.next.kind = .symbol .metadata
  · rw [if_pos (decide_eq_true hk)] at hs
    rw [if_pos (decide_eq_true (hiff.2 hk))]
    exact .inr (Carries.metadata h.expression hs)
  · rw [decide_eq_false hk] at hs
    rw [decide_eq_false (mt hiff.1 hk)]
    exact h.statement hs

theorem Barred.topStatement {rules rules' : Rules} (h : rules.Followed rules') :
    Barred (topStatement rules) := by
  intro c s c' hc hs
  have hat : at? (.symbol .metadata) c = .ok (false, c) := by
    show Except.ok (decide (c.next.kind = .symbol .metadata), c) = _
    rw [decide_eq_false (hc.ne (by decide))]
  unfold Program.topStatement at hs
  rw [bind_of_ok hat] at hs
  exact h.barredStatement hc hs

/-- The modern dialect reads the modern tokens of a legacy program as the same program. -/
theorem parseTokens_modern {tokens : List Token} {program : List Stmt}
    (h : parseTokens .legacy tokens = .ok program) :
    parseTokens .modern (tokens.map Token.modern) = .ok program := by
  cases tokens with
  | nil => exact h
  | cons t ts =>
      have hfollowed := Rules.Followed.withRoom (maxDepth + 1)
      have hall : Carries (statements .done (topStatement (Rules.ofDialect .legacy)))
          (statements .done (topStatement (Rules.ofDialect .modern))) :=
        .statements (.topStatement hfollowed) (.topStatement hfollowed) rfl
          fun t ht => ht.ne (by decide)
      change (StateT.run (statements .done (topStatement (Rules.ofDialect .legacy))) ⟨t, ts, 0⟩ >>=
        fun r => .ok r.1) = .ok program at h
      change (StateT.run (statements .done (topStatement (Rules.ofDialect .modern)))
        (Cursor.modern ⟨t, ts, 0⟩) >>= fun r => .ok r.1) = .ok program
      cases hrun : statements .done (topStatement (Rules.ofDialect .legacy)) ⟨t, ts, 0⟩ with
      | error fault =>
          rw [StateT.run, hrun] at h
          cases h
      | ok r =>
          rw [StateT.run, hrun] at h
          cases h
          rw [StateT.run, hall (show _ = Except.ok (r.1, r.2) from hrun)]
          rfl

/-! ## Trees that can be run -/

/-- Parses the tokens of a program, and refuses a tree that is too deep to be run. -/
def acceptTokens (dialect : Dialect) (tokens : List Token) : Except Fault (List Stmt) := do
  let program ← parseTokens dialect tokens
  match firstTooDeep program with
  | some pos => .error ⟨.nestedTooDeep, pos⟩
  | none => .ok program

/-- A program is parsed by accepting its tokens. -/
theorem parse_eq_acceptTokens (dialect : Dialect) (code : String) :
    parse dialect code = tokens dialect code >>= acceptTokens dialect := rfl

/-- The modern dialect accepts the modern tokens of a legacy program as the same program. -/
theorem acceptTokens_modern {tokens : List Token} {program : List Stmt}
    (h : acceptTokens .legacy tokens = .ok program) :
    acceptTokens .modern (tokens.map Token.modern) = .ok program := by
  unfold acceptTokens at h ⊢
  cases hparse : parseTokens .legacy tokens with
  | error fault =>
      rw [hparse] at h
      cases h
  | ok parsed =>
      rw [hparse] at h
      rw [parseTokens_modern hparse]
      exact h

end ScriptLab.Program
