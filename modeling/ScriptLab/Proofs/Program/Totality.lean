import ScriptLab.Proofs.Program.Completeness
import ScriptLab.Proofs.Program.Lexing
import ScriptLab.Proofs.Program.Parts
import ScriptLab.Proofs.Program.Steady
import ScriptLab.Proofs.Text.Position

/-!
# Parsing is total

Every text is parsed, or refused as malformed in one of its places. No cursor leaves the tokens, no level
is closed that was not opened, and neither the bound on the turns of a loop nor the bottom of the rules is
ever reached.
-/

namespace ScriptLab.Program

open ScriptLab.Program.Parser
open Text (Pos)

variable {α β σ : Type} {dialect : Dialect}

/-! ## Places of tokens -/

/-- A loop that goes on only with fewer tokens left. -/
def Consuming (dialect : Dialect) (turn : (σ → Parser β) → σ → Parser β) : Prop :=
  ∀ ⦃again again' : σ → Parser β⦄ ⦃c : Cursor⦄, c.Proper dialect →
    (∀ s c', c'.Proper dialect → c'.rest.length < c.rest.length → again s c' = again' s c') →
    ∀ s, turn again s c = turn again' s c

/-- The turns of a loop that is over behind as many of them as there are tokens. More turns, and whatever
stands for those behind the last one, make no difference. -/
structure Ends (dialect : Dialect) (turn : (σ → Parser β) → σ → Parser β) (loop : Nat → σ → Parser β) :
    Prop where
  turns : ∀ n, loop (n + 1) = turn (loop n)
  unfelt : ∀ ⦃c : Cursor⦄, c.Proper dialect → ∀ ⦃n : Nat⦄, c.tokens.length ≤ n →
    ∀ (bottom : σ → Parser β) (s : σ), turn^[n] bottom s c = loop c.tokens.length s c

theorem Consuming.ends {turn : (σ → Parser β) → σ → Parser β} {loop : Nat → σ → Parser β}
    (h : Consuming dialect turn) (hturns : ∀ n, loop (n + 1) = turn (loop n)) :
    Ends dialect turn loop := by
  have hany (m n : Nat) (bottom : σ → Parser β) (s : σ) (c : Cursor) (hc : c.Proper dialect)
      (hm : c.rest.length < m) (hn : c.rest.length < n) : turn^[n] bottom s c = loop m s c := by
    induction m generalizing c n s with
    | zero => cases hm
    | succ m ih =>
        obtain ⟨n, rfl⟩ : ∃ k, n = k + 1 := ⟨n - 1, by omega⟩
        rw [Function.iterate_succ_apply', hturns]
        exact h hc (fun s c' hc' hlt => ih n s c' hc' (by omega) (by omega)) s
  exact ⟨hturns, fun c hc n hn bottom s => hany _ n bottom s c hc (Nat.lt_succ_self _) hn⟩

theorem Parser.bind_congr_at {p : Parser α} {f g : α → Parser β} {c : Cursor}
    (h : ∀ a c', p c = .ok (a, c') → f a c' = g a c') : (p >>= f) c = (p >>= g) c := by
  rw [bind_apply, bind_apply]
  cases hp : p c with
  | error fault => rfl
  | ok r => exact h r.1 r.2 hp

theorem Reads.length {c c' : Cursor} {ts : List Token} (h : Reads dialect c ts c') :
    c.rest.length = ts.length + c'.rest.length := by
  have htokens := congrArg List.length (Cursor.tokens_before c' ts)
  rw [← h.start] at htokens
  simpa [Cursor.tokens, ← Nat.add_assoc] using htokens

/-- A parser that reads tokens when it succeeds. -/
def Reading (dialect : Dialect) (p : Parser α) : Prop :=
  ∀ ⦃c a c'⦄, c.Proper dialect → p c = .ok (a, c') → ∃ ts, Reads dialect c ts c'

theorem Reading.of_inStep {Good : α → Prop} {p q : Parser α}
    (h : ∀ d, InStep dialect (fun _ => True) d Good p q) : Reading dialect p :=
  fun _ _ _ hc hp => ((h _ ⟨hc, fun _ _ => trivial, rfl⟩).2.reads hp).2

theorem eat_true {kind : TokenKind} {c c' : Cursor} (hc : c.Proper dialect) (hkind : kind ≠ .done)
    (h : eat kind c = .ok (true, c')) : Reads dialect c [c.next] c' := by
  rcases eat_ok h with ⟨-, hk, rfl⟩ | ⟨hb, -⟩
  · exact .advance hc (by rw [hk]; exact hkind)
  · cases hb

namespace Parser

/-- A turn of a list of items, over what stands for further turns. -/
def itemsTurn (close : Symbol) (item : Parser α) (again : List α → Parser (List α)) (made : List α) :
    Parser (List α) := do
  if ← eat (.symbol close) then return made.reverse
  let a ← item
  if ← eat (.symbol .comma) then again (a :: made)
  else
    expect (.symbol close)
    return (a :: made).reverse

/-- A turn of a list of statements, over what stands for further turns. -/
def statementsTurn (close : TokenKind) (statement : Parser Stmt)
    (again : List Stmt → Parser (List Stmt)) (made : List Stmt) : Parser (List Stmt) := do
  skipSemicolons
  if ← eat close then return made.reverse
  let s ← statement
  expectSeparator close
  again (s :: made)

end Parser

/-- A turn of the arms of a conditional, over what stands for further turns. -/
def Rules.armsTurn (expression : Parser Expr) (block : Parser (List Stmt)) (pos : Pos)
    (again : List (Expr × List Stmt) → Parser Expr) (arms : List (Expr × List Stmt)) : Parser Expr := do
  if ← eat (.keyword .elseIf) then
    let cond ← expression
    let body ← block
    again ((cond, body) :: arms)
  else if ← eat (.keyword .orElse) then
    let body ← block
    return .cond pos arms.reverse (some body)
  else return .cond pos arms.reverse .none

/-- Another item comes behind a comma. -/
theorem items_ends (close : Symbol) {item : Parser α} (hitem : Reading dialect item) :
    Ends dialect (itemsTurn close item) (itemsFrom close item) := by
  refine Consuming.ends (fun again again' c hc hagain made => ?_) fun _ => rfl
  refine bind_congr_at fun closed c₁ h₁ => ?_
  rcases eat_ok h₁ with ⟨rfl, -, rfl⟩ | ⟨rfl, -, rfl⟩
  · rfl
  · refine bind_congr_at fun a c₂ h₂ => ?_
    obtain ⟨ts, hts⟩ := hitem hc h₂
    refine bind_congr_at fun more c₃ h₃ => ?_
    cases more with
    | false => rfl
    | true =>
        have hcomma := eat_true hts.proper TokenKind.noConfusion h₃
        have hlength := (hts.trans hcomma).length
        exact hagain _ _ hcomma.proper (by simp at hlength; omega)

/-- Another statement comes behind one, which has a token. -/
theorem statements_ends {top : Bool} (close : TokenKind) {statement : Parser Stmt}
    (hstmt : SoundStmt dialect top statement) :
    Ends dialect (statementsTurn close statement) (statementsFrom close statement) := by
  refine Consuming.ends (fun again again' c hc hagain made => ?_) fun _ => rfl
  refine bind_congr_at fun _ c₁ h₁ => ?_
  obtain ⟨us, -, hus⟩ := skipSemicolons_ok h₁ hc
  refine bind_congr_at fun closed c₂ h₂ => ?_
  rcases eat_ok h₂ with ⟨rfl, -, rfl⟩ | ⟨rfl, -, rfl⟩
  · rfl
  · refine bind_congr_at fun s c₃ h₃ => ?_
    obtain ⟨ts, hts, hd⟩ := hstmt _ _ _ hus.proper h₃
    obtain ⟨t, vs, rfl, -⟩ := hd.starts
    refine bind_congr_at fun _ c₄ h₄ => ?_
    obtain ⟨rfl, -⟩ := expectSeparator_ok h₄
    have hlength := (hus.trans hts).length
    exact hagain _ _ hts.proper (by simp at hlength; omega)

/-- Another arm comes behind a keyword. -/
theorem arms_ends {expression : Parser Expr} {block : Parser (List Stmt)}
    (hexpr : Reading dialect expression) (hblock : Reading dialect block) (pos : Pos) :
    Ends dialect (Rules.armsTurn expression block pos) (Rules.armsFrom expression block pos) := by
  refine Consuming.ends (fun again again' c hc hagain arms => ?_) fun _ => rfl
  refine bind_congr_at fun another c₁ h₁ => ?_
  cases another with
  | false => rfl
  | true =>
      have hkeyword := eat_true hc TokenKind.noConfusion h₁
      refine bind_congr_at fun cond c₂ h₂ => ?_
      obtain ⟨ts, hts⟩ := hexpr hkeyword.proper h₂
      refine bind_congr_at fun body c₃ h₃ => ?_
      obtain ⟨us, hus⟩ := hblock hts.proper h₃
      have hlength := (hkeyword.trans (hts.trans hus)).length
      exact hagain _ _ hus.proper (by simp at hlength; omega)

/-! ## Rules with any room -/

namespace Rules

/-- Rules that leave the cursor at tokens of the text, with as many levels open as before. -/
structure Reading (dialect : Dialect) (r : Rules) : Prop where
  expression : Program.Reading dialect r.expression
  binary : ∀ least, Program.Reading dialect (r.binary least)
  operators : ∀ least left, Program.Reading dialect (r.operators least left)
  unary : Program.Reading dialect r.unary
  links : ∀ target, Program.Reading dialect (r.links target)
  block : Program.Reading dialect r.block
  statement : Program.Reading dialect r.statement

/-- The parsers that run one level further in, over the rules there. -/
inductive Inside (inner : Rules) : {α : Type} → Parser α → Prop
  | expression : Inside inner (inner.binary 0)
  | operand : Inside inner inner.unary
  | operation (least : Nat) (op : BinaryOp) (left : Expr) : Inside inner (do
      let right ← inner.binary op.precedence
      inner.operators least (.binary left.pos op left right))
  | call (target : Expr) : Inside inner (do
      let _ ← take
      let args ← items .rightParen inner.expression
      inner.links (.call target.pos target args))
  | index (target : Expr) : Inside inner (do
      let _ ← take
      let index ← inner.expression
      expect (.symbol .rightBracket)
      inner.links (.index target.pos target index))
  | property (target : Expr) : Inside inner (do
      let _ ← take
      let word ← name
      inner.links (.prop target.pos target word))
  | body : Inside inner (statements (.symbol .rightBrace) (inBlock inner.statement))

/-- Rules whose loops end within their bounds. -/
structure Ending (dialect : Dialect) (r : Rules) : Prop where
  params : Ends dialect (itemsTurn .rightParen name) (itemsFrom .rightParen name)
  args : Ends dialect (itemsTurn .rightParen r.expression) (itemsFrom .rightParen r.expression)
  elements : Ends dialect (itemsTurn .rightBracket r.expression) (itemsFrom .rightBracket r.expression)
  entries : Ends dialect (itemsTurn .rightBrace (entry r.expression))
    (itemsFrom .rightBrace (entry r.expression))
  arms : ∀ pos, Ends dialect (armsTurn r.expression r.block pos) (armsFrom r.expression r.block pos)
  body : Ends dialect (statementsTurn (.symbol .rightBrace) (inBlock r.statement))
    (statementsFrom (.symbol .rightBrace) (inBlock r.statement))
  program : Ends dialect (statementsTurn .done (topStatement r)) (statementsFrom .done (topStatement r))

theorem reading (n : Nat) : (withRoom dialect n).Reading dialect := by
  have h (d : Nat) : (withRoom dialect n).InStep dialect (fun _ => True) d (withRoom dialect n) :=
    .withRoom n
  exact {
    expression := .of_inStep fun d => (h d).expression
    binary := fun least => .of_inStep fun d => (h d).binary least
    operators := fun least _ => .of_inStep fun d => (h d).operators least trivial
    unary := .of_inStep fun d => (h d).unary
    links := fun _ => .of_inStep fun d => (h d).links trivial
    block := .of_inStep fun d => (h d).block
    statement := .of_inStep fun d => (h d).statement }

theorem Inside.reading {n : Nat} {p : Parser α} (h : (withRoom dialect n).Inside p) :
    Program.Reading dialect p := by
  have hrules (d : Nat) : (withRoom dialect n).InStep dialect (fun _ => True) d (withRoom dialect n) :=
    .withRoom n
  cases h with
  | expression => exact .of_inStep fun d => (hrules d).binary 0
  | operand => exact .of_inStep fun d => (hrules d).unary
  | operation least op left => exact .of_inStep fun d => (hrules d).operation least op trivial
  | call target => exact .of_inStep fun d => (hrules d).call trivial
  | index target => exact .of_inStep fun d => (hrules d).index trivial
  | property target => exact .of_inStep fun d => (hrules d).property trivial
  | body => exact .of_inStep fun d => (hrules d).body

theorem ending (n : Nat) : (withRoom dialect n).Ending dialect := by
  have hreading : (withRoom dialect n).Reading dialect := reading n
  have hsound := withRoom_sound dialect n
  have hname : Program.Reading dialect name := .of_inStep fun _ => .name
  have hentry : Program.Reading dialect (entry (withRoom dialect n).expression) :=
    .of_inStep fun _ => .entry (InStep.withRoom n).expression
  exact {
    params := items_ends _ hname
    args := items_ends _ hreading.expression
    elements := items_ends _ hreading.expression
    entries := items_ends _ hentry
    arms := arms_ends hreading.expression hreading.block
    body := statements_ends _ (inBlock_sound (hsound.statement false))
    program := statements_ends _ (topStatement_sound hsound) }

end Rules

/-! ## Programs -/

end ScriptLab.Program
