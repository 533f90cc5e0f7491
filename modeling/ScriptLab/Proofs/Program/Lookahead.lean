import ScriptLab.Proofs.Program.Derivation
import ScriptLab.Proofs.Program.Reading

/-!
# What comes first and what may follow

The tokens with which expressions and statements start, and those behind which an expression or a
statement does not go on. None of the first kind goes on with what stands on the line before it.
-/

namespace ScriptLab.Program

open ScriptLab.Program.Parser

variable {dialect : Dialect}

/-! ## Where expressions and statements start -/

namespace TokenKind

/-- Whether an expression can start with a token. -/
def startsExpr : TokenKind → Bool
  | name _ | number _ | text _ => true
  | keyword .ifThen | keyword .litTrue | keyword .litFalse | keyword .litNull => true
  | symbol .leftParen | symbol .leftBracket | symbol .leftBrace | symbol .atSign => true
  | symbol .bang | symbol .minus => true
  | _ => false

/-- Whether a statement can start with a token. -/
def startsStmt : TokenKind → Bool
  | keyword .elseIf | keyword .orElse => false
  | keyword _ => true
  | symbol .out | symbol .metadata | symbol .hash | symbol .dollar => true
  | kind => kind.startsExpr

/-- Whether a token ends an expression behind which it stands on the same line. -/
def endsExpr : TokenKind → Bool
  | symbol .rightParen | symbol .rightBracket | symbol .rightBrace | symbol .leftBrace => true
  | symbol .comma | symbol .semicolon => true
  | symbol .assign | symbol .addAssign | symbol .subAssign | symbol .leftArrow => true
  | done => true
  | _ => false

/-- Whether a token ends a statement behind which it stands on the same line. -/
def endsStmt : TokenKind → Bool
  | symbol .rightBrace | symbol .semicolon | done => true
  | _ => false

theorem startsStmt_of_startsExpr {kind : TokenKind} (h : kind.startsExpr = true) :
    kind.startsStmt = true := by
  cases kind with
  | keyword word => cases word <;> first | rfl | cases h
  | symbol s => cases s <;> first | rfl | cases h
  | _ => exact h

end TokenKind

namespace Token

/-- Whether a token goes on with the arms of a conditional. -/
def startsArm (t : Token) : Bool :=
  match t.kind with
  | .keyword .elseIf | .keyword .orElse => true
  | _ => false

/-- Whether a token goes on with the postfixes of an expression. -/
def startsLink (t : Token) : Bool :=
  match t.kind, t.afterBreak with
  | .symbol .leftParen, false => true
  | .symbol .leftBracket, false => true
  | .symbol .dot, _ => true
  | _, _ => false

theorem startsArm_of_symbol {t : Token} {s : Symbol} (h : t.kind = .symbol s) :
    t.startsArm = false := by
  unfold startsArm
  rw [h]

/-- A token that does not go on with an expression whose outermost operator has the given level. -/
structure Follows (k : Nat) (t : Token) : Prop where
  arm : t.startsArm = false
  link : t.startsLink = false
  below : Below k t

theorem Follows.mono {k k' : Nat} {t : Token} (h : t.Follows k) (hk : k ≤ k') : t.Follows k' :=
  ⟨h.arm, h.link, fun op hop => Nat.le_trans (h.below op hop) hk⟩

theorem Follows.of_endsExpr {k : Nat} {t : Token} (h : t.kind.endsExpr = true) : t.Follows k := by
  have hnone : t.binaryOp? = none := by
    obtain ⟨kind, pos, afterBreak⟩ := t
    cases kind with
    | symbol s => cases afterBreak <;> cases s <;> first | rfl | cases h
    | _ => rfl
  refine ⟨?_, ?_, fun op hop => by rw [hnone] at hop; cases hop⟩
  · obtain ⟨kind, pos, afterBreak⟩ := t
    cases kind with
    | keyword word => cases h
    | _ => rfl
  · obtain ⟨kind, pos, afterBreak⟩ := t
    cases kind with
    | symbol s => cases s <;> first | rfl | cases h
    | _ => rfl

theorem Follows.of_binaryOp? {t : Token} {op : BinaryOp} (h : t.binaryOp? = some op) :
    t.Follows op.precedence := by
  refine ⟨?_, ?_, fun op' hop' => ?_⟩
  · obtain ⟨kind, pos, afterBreak⟩ := t
    cases kind with
    | symbol s => rfl
    | _ => cases h
  · obtain ⟨kind, pos, afterBreak⟩ := t
    cases kind with
    | symbol s =>
        cases afterBreak
        · cases s <;> first | rfl | cases h
        · cases h
    | _ => cases h
  · rw [h] at hop'
    cases hop'
    exact Nat.le_refl _

theorem endsExpr_of_assignOp? {t : Token} {op : AssignOp} (h : t.assignOp? dialect = some op) :
    t.kind.endsExpr = true := by
  obtain ⟨kind, pos, afterBreak⟩ := t
  cases kind with
  | symbol s => cases dialect <;> cases s <;> first | rfl | cases h
  | _ => cases dialect <;> cases h

/-- A token behind a statement: it stands on the same line only if it ends the statement, and it does
not go on with the statement from the line before. -/
structure Closes (t : Token) : Prop where
  apart : t.afterBreak = true ∨ t.kind.endsStmt = true
  fresh : t.kind.startsStmt = true ∨ t.kind.endsStmt = true

theorem Closes.follows {t : Token} (h : t.Closes) : t.Follows 0 := by
  obtain ⟨kind, pos, afterBreak⟩ := t
  obtain ⟨hapart, hfresh⟩ := h
  rcases hapart with hbreak | hends
  · obtain rfl : afterBreak = true := hbreak
    refine ⟨?_, ?_, fun op hop => ?_⟩
    · cases kind with
      | keyword word => cases word <;> first | rfl | (rcases hfresh with h | h <;> cases h)
      | _ => rfl
    · cases kind with
      | symbol s => cases s <;> first | rfl | (rcases hfresh with h | h <;> cases h)
      | _ => rfl
    · cases kind <;> cases hop
  · apply Follows.of_endsExpr
    cases kind with
    | symbol s => cases s <;> first | rfl | cases hends
    | done => rfl
    | _ => cases hends

theorem Closes.assignOp? {t : Token} (h : t.Closes) : t.assignOp? dialect = none := by
  obtain ⟨kind, pos, afterBreak⟩ := t
  obtain ⟨-, hfresh⟩ := h
  cases kind with
  | symbol s => cases dialect <;> cases s <;> first | rfl | (rcases hfresh with h | h <;> cases h)
  | _ => cases dialect <;> rfl

end Token

namespace Parser

theorem atEnd_of_closes {c : Cursor} (h : c.next.Closes) : atEnd c = .ok (true, c) := by
  unfold atEnd
  rw [bind_of_ok (peek_apply c)]
  refine congrArg (fun b => Except.ok (b, c)) ?_
  rcases h.apart with hbreak | hends
  · rw [hbreak]
    rfl
  · generalize c.next.kind = kind at hends ⊢
    cases kind with
    | symbol s => cases s <;> first | (cases c.next.afterBreak <;> rfl) | cases hends
    | done => cases c.next.afterBreak <;> rfl
    | _ => cases hends

theorem atEnd_of_starts {c : Cursor} (h : c.next.kind.startsExpr = true)
    (hbreak : c.next.afterBreak = false) : atEnd c = .ok (false, c) := by
  unfold atEnd
  rw [bind_of_ok (peek_apply c), hbreak]
  refine congrArg (fun b => Except.ok (b, c)) ?_
  generalize c.next.kind = kind at h ⊢
  cases kind with
  | symbol s => cases s <;> first | rfl | cases h
  | done => cases h
  | _ => rfl

end Parser

/-! ## First tokens of derivations -/

/-- Tokens that start as those of an expression, with a parenthesis behind the mark of a function. -/
inductive StartsExpr (k : Nat) : List Token → Prop
  | intro {t ts} (first : t.kind.startsExpr = true) (operator : k = 8 → t.unaryOp? = none)
      (function : t.kind = .symbol .atSign → ∃ u us, ts = u :: us ∧ u.kind = .symbol .leftParen) :
      StartsExpr k (t :: ts)

namespace StartsExpr

variable {k k' : Nat} {t : Token} {ts us : List Token}

theorem of_kind {kind : TokenKind} (ht : t.kind = kind) (hs : kind.startsExpr = true)
    (hat : kind ≠ .symbol .atSign) (hbang : kind ≠ .symbol .bang) (hminus : kind ≠ .symbol .minus) :
    StartsExpr k (t :: ts) := by
  subst ht
  refine ⟨hs, fun _ => ?_, fun h => absurd h hat⟩
  obtain ⟨kind, pos, afterBreak⟩ := t
  cases kind with
  | symbol s => cases s <;> first | rfl | exact absurd rfl hbang | exact absurd rfl hminus
  | _ => rfl

theorem of_unaryOp? {op : UnaryOp} (ht : t.unaryOp? = some op) (hk : k ≠ 8) :
    StartsExpr k (t :: ts) := by
  obtain ⟨kind, pos, afterBreak⟩ := t
  cases kind with
  | symbol s =>
      cases s <;> first
      | (cases ht; done)
      | exact ⟨rfl, fun h => absurd h hk, fun h => nomatch h⟩
  | _ => cases ht

theorem append (h : StartsExpr k ts) (hk : k' = 8 → k = 8) : StartsExpr k' (ts ++ us) := by
  cases h with
  | intro first operator function =>
      refine ⟨first, fun h => operator (hk h), fun h => ?_⟩
      obtain ⟨u, vs, rfl, hu⟩ := function h
      exact ⟨u, vs ++ us, rfl, hu⟩

end StartsExpr

theorem DerivesFunction.starts {n : Nat} {ts : List Token} {params : List String}
    {body : List Stmt} (h : DerivesFunction .written dialect n ts params body) :
    ∃ u us, ts = u :: us ∧ u.kind = .symbol .leftParen := by
  cases h with
  | intro hl _ _ _ => exact ⟨_, _, rfl, hl⟩

theorem DerivesExpr.starts {k o n : Nat} {ts : List Token} {e : Expr} :
    DerivesExpr .written dialect k o n ts e → StartsExpr k ts
  | .null ht | .litTrue ht | .litFalse ht | .number ht | .text ht | .name ht | .array ht _ _
  | .object ht _ _ | .conditional ht _ _ _ _ | .group _ ht _ _ _ =>
      .of_kind ht rfl (by simp) (by simp) (by simp)
  | .function ht h => ⟨by rw [ht]; rfl, fun _ => by unfold Token.unaryOp?; rw [ht], fun _ => h.starts⟩
  | .call hf hk _ _ _ _ _ _ | .index hf hk _ _ _ _ _ _ | .property hf hk _ _ _ _ =>
      hf.starts.append fun _ => hk rfl
  | .unary ht _ _ _ => .of_unaryOp? ht (by decide)
  | .binary hl _ _ _ _ _ _ => hl.starts.append fun h => absurd (h ▸ precedence_le _) (by decide)

theorem DerivesStmt.starts {top : Bool} {n : Nat} {ts : List Token} {s : Stmt}
    (h : DerivesStmt .written dialect top n ts s) :
    ∃ t us, ts = t :: us ∧ t.kind.startsStmt = true ∧
      (top = false → t.kind ≠ .symbol .metadata) := by
  have hexpr : ∀ {k o n : Nat} {us : List Token} (vs : List Token) {e : Expr},
      DerivesExpr .written dialect k o n us e → ∃ t ws, us ++ vs = t :: ws ∧
        t.kind.startsStmt = true ∧ (top = false → t.kind ≠ .symbol .metadata) := by
    intro k o n us vs e h
    cases h.starts with
    | intro first _ _ =>
        refine ⟨_, _, rfl, TokenKind.startsStmt_of_startsExpr first, fun _ hk => ?_⟩
        rw [hk] at first
        cases first
  cases h with
  | metadata ht _ _ _ | namedMetadata ht _ _ _ _ => exact ⟨_, _, rfl, by rw [ht]; rfl, fun h => nomatch h⟩
  | @define _ _ _ _ _ isMutable _ _ _ _ _ _ ht _ _ _ _ =>
      refine ⟨_, _, rfl, ?_⟩
      rw [ht]
      cases dialect <;> cases isMutable <;> exact ⟨rfl, fun _ => by simp [Dialect.defining]⟩
  | assign h _ _ _ _ _ => exact hexpr _ h
  | eval h _ =>
      obtain ⟨t, us, hts, h⟩ := hexpr [] h
      exact ⟨t, us, by rwa [List.append_nil] at hts, h⟩
  | defineFunction ht _ _ | out ht _ _ | back ht | backWith ht _ _ _ | leave ht | again ht | loop ht _
  | each ht _ _ _ _ _ _ | count ht _ _ _ _ _ _ =>
      exact ⟨_, _, rfl, by rw [ht]; rfl, fun _ => by rw [ht]; simp⟩

end ScriptLab.Program
