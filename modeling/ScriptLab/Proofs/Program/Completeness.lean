import ScriptLab.Proofs.Program.Expressions

/-!
# What is derived is parsed

The other direction: the parser reads the tokens of a derivation as its tree, unless the derivation
needs more levels of nesting than there are.
-/

namespace ScriptLab.Program

open ScriptLab.Program.Parser
open Text (Pos)

variable {dialect : Dialect}

/-! ## Statements and their lists -/

/-- A statement, which is metadata only outside of all blocks. -/
def Rules.statementAt (rules : Rules) : Bool → Parser Stmt
  | true => topStatement rules
  | false => do
    let token ← peek
    if token.kind = .symbol .metadata then fail .metadataInBlock token.pos
    rules.statement

/-- A statement is read before a token that does not go on with it. -/
def ReadsStmt (dialect : Dialect) (top : Bool) (n : Nat) (ts : List Token) (s : Stmt) : Prop :=
  ∀ c : Cursor, c.depth ≤ maxDepth → c.next.Closes →
    Gives n ((Rules.under dialect c.depth).statementAt top) (c.before ts) s c

/-- A token that closes a list of statements. -/
inductive ClosesStmts : TokenKind → Prop
  | brace : ClosesStmts (.symbol .rightBrace)
  | done : ClosesStmts .done

/-- Statements are read up to the token that closes the list of them. -/
def ReadsStmts (dialect : Dialect) (top : Bool) (n : Nat) (ts : List Token) (body : List Stmt) :
    Prop :=
  ∀ (close : TokenKind) (made : List Stmt) (rounds : Nat) (c : Cursor), c.depth ≤ maxDepth →
    ClosesStmts close → c.next.kind = close → ts.length < rounds →
    Gives n (statementsFrom close ((Rules.under dialect c.depth).statementAt top) rounds made)
      (c.before ts) (made.reverse ++ body) c.advance

def ReadsBlock (dialect : Dialect) (n : Nat) (ts : List Token) (body : List Stmt) : Prop :=
  ∀ c : Cursor, c.depth ≤ maxDepth → Gives n (Rules.under dialect c.depth).block (c.before ts) body c

def ReadsFunction (dialect : Dialect) (n : Nat) (ts : List Token) (params : List String)
    (body : List Stmt) : Prop :=
  ∀ (c : Cursor) (pos : Pos), c.depth ≤ maxDepth →
    Gives n (Rules.function (Rules.under dialect c.depth).block pos) (c.before ts)
      (.fn pos params body) c

/-- The arms of a conditional are read behind those already read, before a token that does not go on
with them. -/
def ReadsArms (dialect : Dialect) (n : Nat) (ts : List Token) (arms : List (Expr × List Stmt))
    (otherwise : Option (List Stmt)) : Prop :=
  ∀ (c : Cursor) (pos : Pos) (made : List (Expr × List Stmt)) (rounds : Nat), c.depth ≤ maxDepth →
    c.next.startsArm = false → ts.length < rounds →
    Gives n (Rules.armsFrom (Rules.under dialect c.depth).expression
      (Rules.under dialect c.depth).block pos rounds made) (c.before ts)
      (.cond pos (made.reverse ++ arms) otherwise) c

theorem Cursor.skip_before (c : Cursor) {t : Token} (ht : t.kind = .symbol .semicolon)
    (ts : List Token) :
    skipSemicolons (c.before (t :: ts)) = skipSemicolons (c.before ts) := by
  unfold skipSemicolons
  rw [modify_apply, modify_apply]
  cases ts <;> simp [Cursor.before, Cursor.skip, ht]

theorem skipSemicolons_other {c : Cursor} (h : c.next.kind ≠ .symbol .semicolon) :
    skipSemicolons c = .ok ((), c) := by
  unfold skipSemicolons
  rw [modify_apply]
  obtain ⟨t, ts, depth⟩ := c
  have h : t.kind ≠ .symbol .semicolon := h
  cases ts <;> simp [Cursor.skip, h]

theorem expectSeparator_of_apart {c : Cursor} {close : TokenKind}
    (h : c.next.afterBreak = true ∨ c.next.kind = close ∨ c.next.kind = .symbol .semicolon) :
    expectSeparator close c = .ok ((), c) := by
  unfold expectSeparator
  rw [bind_of_ok (peek_apply c), if_pos (by simpa [or_assoc] using h)]
  rfl

/-- The token behind a statement, in a list of statements that goes on with the given tokens. -/
structure Continues (ts : List Token) : Prop where
  fresh : ∀ t ∈ ts.head?, t.kind.startsStmt = true ∨ t.kind = .symbol .semicolon
  apart : ∀ t ∈ ts.head?, t.afterBreak = true ∨ t.kind = .symbol .semicolon

theorem Continues.separated {ts : List Token} (h : Continues ts) {close : TokenKind} {c : Cursor}
    (hnext : c.next.kind = close) : (c.before ts).next.afterBreak = true ∨
      (c.before ts).next.kind = close ∨ (c.before ts).next.kind = .symbol .semicolon := by
  cases ts with
  | nil => exact .inr (.inl hnext)
  | cons t ts => exact (h.apart t rfl).imp_right .inr

theorem Continues.closes {ts : List Token} (h : Continues ts) {close : TokenKind} {c : Cursor}
    (hclose : ClosesStmts close) (hnext : c.next.kind = close) : (c.before ts).next.Closes := by
  have hends : ∀ {t : Token}, t.kind = .symbol .semicolon → t.kind.endsStmt = true := by
    intro t ht
    rw [ht]
    rfl
  cases ts with
  | nil =>
      have hends : c.next.kind.endsStmt = true := by
        rw [hnext]
        cases hclose <;> rfl
      exact ⟨.inr hends, .inr hends⟩
  | cons t ts => exact ⟨(h.apart t rfl).imp_right hends, (h.fresh t rfl).imp_right hends⟩

namespace ReadsStmts

variable {top : Bool} {n : Nat} {ts us : List Token} {body : List Stmt}

theorem nil : ReadsStmts dialect top n [] [] := by
  intro close made rounds c hdepth hclose hnext hrounds
  obtain ⟨k, rfl⟩ : ∃ k, rounds = k + 1 := ⟨rounds - 1, by simp at hrounds; omega⟩
  rw [List.append_nil]
  have hsemicolon : c.next.kind ≠ .symbol .semicolon := by
    rw [hnext]
    cases hclose <;> simp
  refine .step (skipSemicolons_other hsemicolon) rfl ?_
  exact .step (eat_next hnext) (by simp) (.of_ok rfl)

theorem semicolon {t : Token} (ht : t.kind = .symbol .semicolon)
    (h : ReadsStmts dialect top n ts body) : ReadsStmts dialect top n (t :: ts) body := by
  intro close made rounds c hdepth hclose hnext hrounds
  obtain ⟨k, rfl⟩ : ∃ k, rounds = k + 1 := ⟨rounds - 1, by omega⟩
  have hrest := h close made (k + 1) c hdepth hclose hnext (by simp at hrounds; omega)
  unfold Gives at hrest ⊢
  unfold statementsFrom at hrest ⊢
  rw [bind_apply, c.skip_before ht ts, ← bind_apply, Cursor.before_depth]
  rwa [Cursor.before_depth] at hrest

theorem cons {s : Stmt} (h : ReadsStmt dialect top n ts s)
    (hstart : ∃ t vs, ts = t :: vs ∧ t.kind.startsStmt = true)
    (hs : ReadsStmts dialect top n us body) (hus : Continues us) :
    ReadsStmts dialect top n (ts ++ us) (s :: body) := by
  intro close made rounds c hdepth hclose hnext hrounds
  obtain ⟨t, vs, rfl, ht⟩ := hstart
  obtain ⟨k, rfl⟩ : ∃ k, rounds = k + 1 := ⟨rounds - 1, by omega⟩
  have hlength : us.length < k := by
    simp at hrounds
    omega
  rw [Cursor.before_append]
  have hsemicolon : t.kind ≠ .symbol .semicolon := fun hk => by rw [hk] at ht; cases ht
  have hother : t.kind ≠ close := fun hk => by rw [hk] at ht; cases hclose <;> cases ht
  have hfirst := h (c.before us) (by simpa using hdepth) (hus.closes hclose hnext)
  rw [Cursor.before_depth] at hfirst
  refine .step (skipSemicolons_other hsemicolon) rfl (.pass hother ?_)
  refine hfirst.bind (by simp) ?_
  refine .step (expectSeparator_of_apart (hus.separated hnext)) rfl ?_
  have hrest := hs close (s :: made) k c hdepth hclose hnext hlength
  rwa [List.reverse_cons, List.append_assoc] at hrest

end ReadsStmts

theorem DerivesStmts.fresh {top : Bool} {n : Nat} {ts : List Token} {body : List Stmt}
    (h : DerivesStmts .written dialect top n ts body) :
    ∀ t ∈ ts.head?, t.kind.startsStmt = true ∨ t.kind = .symbol .semicolon := by
  cases h with
  | nil => exact fun t ht => nomatch ht
  | semicolon _ ht _ =>
      intro t h
      cases h
      exact .inr ht
  | cons h _ _ =>
      obtain ⟨u, us, rfl, hu, -⟩ := h.starts
      intro t ht
      cases ht
      exact .inl hu

/-! ## Blocks, functions and conditionals -/

theorem ReadsBlock.intro {n m : Nat} {l r : Token} {ts : List Token} {body : List Stmt}
    (hl : l.kind = .symbol .leftBrace) (h : ReadsStmts dialect false m ts body) (hm : m + 1 ≤ n)
    (hr : r.kind = .symbol .rightBrace) : ReadsBlock dialect n (l :: (ts ++ [r])) body := by
  intro c hdepth
  refine .expect hl (.nested (fun hroom => ?_) hm)
  rw [Rules.withRoom_under hroom, Cursor.before_append]
  refine .step (rounds_apply _) rfl ?_
  have hlength := Cursor.length_le_before (c.deeper.before [r]) ts
  have hbody := h (.symbol .rightBrace) [] _ (c.deeper.before [r]) (by simpa using hroom) .brace hr
    (Nat.lt_succ_of_le hlength)
  rwa [Cursor.before_depth, Cursor.advance_before] at hbody

theorem ReadsFunction.intro {n : Nat} {l r : Token} {ts us : List Token} {params : List String}
    {body : List Stmt} (hl : l.kind = .symbol .leftParen)
    (h : ReadsItems dialect n ts (params.map .name)) (hr : r.kind = .symbol .rightParen)
    (hb : ReadsBlock dialect n us body) :
    ReadsFunction dialect n (l :: (ts ++ r :: us)) params body := by
  intro c pos hdepth
  refine .expect hl ?_
  rw [show ts ++ r :: us = (ts ++ [r]) ++ us by simp, Cursor.before_append]
  have hparams := h.items (c := c.before us) .paren hr (.name (by simpa using hdepth)) (Nat.le_refl n)
  exact hparams.bind (by simp) (.last (hb c hdepth) (by simp))

namespace ReadsArms

variable {n m k o : Nat} {ts us vs : List Token} {arms : List (Expr × List Stmt)}
  {otherwise : Option (List Stmt)} {body : List Stmt}

theorem none : ReadsArms dialect n [] [] none := by
  intro c pos made rounds hdepth hnext hrounds
  obtain ⟨j, rfl⟩ : ∃ j, rounds = j + 1 := ⟨rounds - 1, by simp at hrounds; omega⟩
  unfold Token.startsArm at hnext
  rw [List.append_nil]
  refine .pass (fun hk => ?_) (.pass (fun hk => ?_) (.of_ok rfl))
  · rw [show c.next.kind = _ from hk] at hnext
    cases hnext
  · rw [show c.next.kind = _ from hk] at hnext
    cases hnext

theorem orElse {t : Token} (ht : t.kind = .keyword .orElse) (hb : ReadsBlock dialect n ts body) :
    ReadsArms dialect n (t :: ts) [] (some body) := by
  intro c pos made rounds hdepth hnext hrounds
  obtain ⟨j, rfl⟩ : ∃ j, rounds = j + 1 := ⟨rounds - 1, by omega⟩
  rw [List.append_nil]
  refine .pass (fun hk => ?_) (.eat ht (.last (hb c hdepth) (by simp)))
  rw [show t.kind = _ from hk] at ht
  cases ht

/-- A condition, a body, and what follows them. -/
theorem arm {β : Type} {f : Expr → List Stmt → Parser β} {cond : Expr} {c c' : Cursor} {b : β}
    (hc : ReadsExpr dialect k o m ts cond) (hm : m + 1 ≤ n) (hb : ReadsBlock dialect n us body)
    (hbrace : ∃ t ws, us = t :: ws ∧ t.kind = .symbol .leftBrace) (hdepth : c.depth ≤ maxDepth)
    (hrest : Gives n (f cond body) c b c') :
    Gives n ((Rules.under dialect c.depth).expression >>= fun cond =>
      (Rules.under dialect c.depth).block >>= fun body => f cond body) (c.before (ts ++ us)) b c' := by
  obtain ⟨t, ws, rfl, ht⟩ := hbrace
  rw [Cursor.before_append]
  have hnext : t.Follows 0 := .of_endsExpr (by rw [ht]; rfl)
  have hcond := hc.expression (c := c.before (t :: ws)) hnext hm
  rw [Cursor.before_depth] at hcond
  exact hcond.bind (by simp) ((hb c hdepth).bind (by simp) hrest)

theorem elseIf {t : Token} {cond : Expr} (ht : t.kind = .keyword .elseIf)
    (hc : ReadsExpr dialect k o m ts cond) (hm : m + 1 ≤ n) (hb : ReadsBlock dialect n us body)
    (hbrace : ∃ t ws, us = t :: ws ∧ t.kind = .symbol .leftBrace)
    (ha : ReadsArms dialect n vs arms otherwise) :
    ReadsArms dialect n (t :: (ts ++ (us ++ vs))) ((cond, body) :: arms) otherwise := by
  intro c pos made rounds hdepth hnext hrounds
  obtain ⟨j, rfl⟩ : ∃ j, rounds = j + 1 := ⟨rounds - 1, by omega⟩
  have hlength : vs.length < j := by
    simp at hrounds
    omega
  refine .eat ht ?_
  rw [← List.append_assoc, Cursor.before_append]
  have hrest := ha c pos ((cond, body) :: made) j hdepth hnext hlength
  rw [List.reverse_cons, List.append_assoc] at hrest
  have harm := arm (c := c.before vs) (f := fun cond body =>
      Rules.armsFrom (Rules.under dialect c.depth).expression
        (Rules.under dialect c.depth).block pos j ((cond, body) :: made))
    hc hm hb hbrace (by simpa using hdepth) hrest
  rwa [Cursor.before_depth] at harm

end ReadsArms

/-- A whole conditional. -/
theorem ReadsExpr.conditional {n m k o : Nat} {t : Token} {ts us vs : List Token} {cond : Expr}
    {body : List Stmt} {arms : List (Expr × List Stmt)} {otherwise : Option (List Stmt)}
    (ht : t.kind = .keyword .ifThen)
    (hc : ReadsExpr dialect k o m ts cond) (hm : m + 1 ≤ n) (hb : ReadsBlock dialect n us body)
    (hbrace : ∃ t ws, us = t :: ws ∧ t.kind = .symbol .leftBrace)
    (ha : ReadsArms dialect n vs arms otherwise) (hs : StartsExpr 8 (t :: (ts ++ (us ++ vs)))) :
    ReadsExpr dialect 8 0 n (t :: (ts ++ (us ++ vs))) (.cond t.pos ((cond, body) :: arms) otherwise) := by
  refine .of_primary (fun c hdepth hnext => .take ?_) hs
  simp only [ht]
  rw [← List.append_assoc, Cursor.before_append]
  have hrest : Gives n (rounds >>= fun n => Rules.armsFrom (Rules.under dialect c.depth).expression
      (Rules.under dialect c.depth).block t.pos n [(cond, body)]) (c.before vs)
      (.cond t.pos ((cond, body) :: arms) otherwise) c :=
    .step (rounds_apply _) rfl (ha c t.pos [(cond, body)] _ hdepth hnext
      (Nat.lt_succ_of_le (Cursor.length_le_before c vs)))
  have harm := ReadsArms.arm (c := c.before vs) (f := fun cond body => rounds >>= fun n =>
      Rules.armsFrom (Rules.under dialect c.depth).expression
        (Rules.under dialect c.depth).block t.pos n [(cond, body)])
    hc hm hb hbrace (by simpa using hdepth) hrest
  rwa [Cursor.before_depth] at harm

theorem DerivesBlock.starts {n : Nat} {ts : List Token} {body : List Stmt}
    (h : DerivesBlock .written dialect n ts body) :
    ∃ t us, ts = t :: us ∧ t.kind = .symbol .leftBrace := by
  cases h with
  | intro hl _ _ _ => exact ⟨_, _, rfl, hl⟩

theorem ReadsExpr.function {n : Nat} {t : Token} {ts : List Token} {params : List String}
    {body : List Stmt} (ht : t.kind = .symbol .atSign) (h : ReadsFunction dialect n ts params body)
    (hs : StartsExpr 8 (t :: ts)) : ReadsExpr dialect 8 0 n (t :: ts) (.fn t.pos params body) := by
  refine .of_primary (fun c hdepth _ => .take ?_) hs
  simp only [ht]
  exact h c t.pos hdepth

/-! ## Statements -/

theorem Rules.statementAt_of_ne {rules : Rules} {top : Bool} {c : Cursor}
    (h : c.next.kind ≠ .symbol .metadata) : rules.statementAt top c = rules.statement c := by
  cases top with
  | true =>
      change topStatement rules c = _
      unfold topStatement
      rw [bind_of_ok (show at? (.symbol .metadata) c = .ok (false, c) by simp [at?, bind_apply, h])]
      rfl
  | false =>
      change (peek >>= _) c = _
      rw [bind_of_ok (peek_apply c), if_neg h]

theorem statementRule_of_startsExpr {expression : Parser Expr} {block : Parser (List Stmt)}
    {c : Cursor} (h : c.next.kind.startsExpr = true)
    (hat : c.next.kind = .symbol .atSign → c.second.kind = .symbol .leftParen) :
    Rules.statementRule dialect expression block c = Rules.evaluation dialect expression c := by
  unfold Rules.statementRule
  rw [bind_of_ok (get_apply c)]
  generalize c.next.kind = kind at h hat ⊢
  cases kind with
  | keyword word => cases word <;> first | rfl | cases h
  | symbol s =>
      cases s <;> first
      | rfl
      | (cases h; done)
      | simp only [hat rfl]
  | _ => rfl

namespace ReadsStmt

variable {top : Bool} {n m k o : Nat} {t u : Token} {ts us : List Token} {s : Stmt} {value : Expr}
  {body : List Stmt}

/-- A statement other than metadata. -/
theorem of_rule (ht : t.kind ≠ .symbol .metadata)
    (h : ∀ c : Cursor, c.depth ≤ maxDepth → c.next.Closes →
      Gives n (Rules.statementRule dialect (Rules.under dialect c.depth).expression
        (Rules.under dialect c.depth).block) (c.before (t :: ts)) s c) :
    ReadsStmt dialect top n (t :: ts) s := by
  intro c hdepth hnext
  exact .of_eq (Rules.statementAt_of_ne ht) (h c hdepth hnext)

theorem define {mark : Token} {word : String} {isMutable : Bool}
    (ht : t.kind = (dialect.defining isMutable).1) (hu : u.kind = .name word)
    (hmark : mark.kind = .symbol (dialect.defining isMutable).2)
    (h : ReadsExpr dialect k o m ts value) (hm : m + 1 ≤ n) :
    ReadsStmt dialect top n (t :: u :: mark :: ts) (.define t.pos word isMutable value) := by
  have hne : t.kind ≠ .symbol .metadata := by
    rw [ht]
    cases dialect <;> cases isMutable <;> simp [Dialect.defining]
  refine of_rule hne fun c hdepth hnext => .step (get_apply _) rfl ?_
  have hdefinition : Gives n (Rules.definition (Rules.under dialect c.depth).expression t.pos isMutable
      (dialect.defining isMutable).2) (c.before (u :: mark :: ts))
      (.define t.pos word isMutable value) c :=
    .name hu (.expect hmark (.last (h.expression hnext.follows hm) (by simp)))
  cases dialect <;> cases isMutable <;> simp only [Cursor.before_cons_next, ht] <;>
    exact .take hdefinition

theorem defineFunction {word : String} {params : List String} (ht : t.kind = .symbol .atSign)
    (hu : u.kind = .name word) (h : ReadsFunction dialect n ts params body) :
    ReadsStmt dialect top n (t :: u :: ts) (.define t.pos word false (.fn t.pos params body)) := by
  refine of_rule (by rw [ht]; simp) fun c hdepth hnext => .step (get_apply _) rfl ?_
  have hsecond : (c.before (t :: u :: ts)).second = u := rfl
  simp only [Cursor.before_cons_next, ht, hsecond, hu]
  exact .take (.take (.last (h c t.pos hdepth) (by simp)))

theorem out (ht : t.kind = .symbol .out) (h : ReadsExpr dialect k o m ts value) (hm : m + 1 ≤ n) :
    ReadsStmt dialect top n (t :: ts) (.out t.pos value) := by
  refine of_rule (by rw [ht]; simp) fun c hdepth hnext => .step (get_apply _) rfl ?_
  simp only [Cursor.before_cons_next, ht]
  exact .take (.last (h.expression hnext.follows hm) (by simp))

theorem back (ht : t.kind = .keyword .returnBack) :
    ReadsStmt dialect top n [t] (.back t.pos none) := by
  refine of_rule (by rw [ht]; simp) fun c hdepth hnext => .step (get_apply _) rfl ?_
  simp only [Cursor.before_cons_next, ht]
  exact .take (.step (atEnd_of_closes hnext) rfl (.of_ok rfl))

theorem backWith (ht : t.kind = .keyword .returnBack) (h : ReadsExpr dialect k o m ts value)
    (hm : m + 1 ≤ n) (hs : StartsExpr k ts) (hbreak : ∀ u ∈ ts.head?, u.afterBreak = false) :
    ReadsStmt dialect top n (t :: ts) (.back t.pos (some value)) := by
  refine of_rule (by rw [ht]; simp) fun c hdepth hnext => .step (get_apply _) rfl ?_
  simp only [Cursor.before_cons_next, ht]
  have hvalue : Gives n (Rules.under dialect c.depth).expression (c.before ts) value c :=
    h.expression hnext.follows hm
  cases hs with
  | @intro v vs first _ _ =>
      have hend : atEnd (c.before (v :: vs)) = .ok (false, c.before (v :: vs)) :=
        atEnd_of_starts first (hbreak v rfl)
      exact .take (.step hend rfl (.last hvalue (by simp)))

theorem leave (ht : t.kind = .keyword .breakOut) : ReadsStmt dialect top n [t] (.leave t.pos) := by
  refine of_rule (by rw [ht]; simp) fun c hdepth hnext => .step (get_apply _) rfl ?_
  simp only [Cursor.before_cons_next, ht]
  exact .take (.of_ok rfl)

theorem again (ht : t.kind = .keyword .continueOn) : ReadsStmt dialect top n [t] (.again t.pos) := by
  refine of_rule (by rw [ht]; simp) fun c hdepth hnext => .step (get_apply _) rfl ?_
  simp only [Cursor.before_cons_next, ht]
  exact .take (.of_ok rfl)

theorem loop (ht : t.kind = .keyword .loop) (hb : ReadsBlock dialect n ts body) :
    ReadsStmt dialect top n (t :: ts) (.loop t.pos body) := by
  refine of_rule (by rw [ht]; simp) fun c hdepth hnext => .step (get_apply _) rfl ?_
  simp only [Cursor.before_cons_next, ht]
  exact .take (.last (hb c hdepth) (by simp))

/-- The variable, the bound and the body of a loop that has a bound. -/
theorem bounded {v comma : Token} {word : String} {f : String → Expr → List Stmt → Stmt} {c : Cursor}
    (hv : v.kind = (dialect.defining false).1) (hu : u.kind = .name word)
    (hcomma : comma.kind = .symbol .comma) (h : ReadsExpr dialect k o m ts value) (hm : m + 1 ≤ n)
    (hb : ReadsBlock dialect n us body)
    (hbrace : ∃ t ws, us = t :: ws ∧ t.kind = .symbol .leftBrace) (hdepth : c.depth ≤ maxDepth) :
    Gives n (do
      let word ← Rules.loopVariable dialect
      expect (.symbol .comma)
      let value ← (Rules.under dialect c.depth).expression
      let body ← (Rules.under dialect c.depth).block
      return f word value body) (c.before (v :: u :: comma :: (ts ++ us))) (f word value body) c := by
  have hvariable : Gives n (Rules.loopVariable dialect) (c.before (v :: u :: comma :: (ts ++ us)))
      word (c.before (comma :: (ts ++ us))) := by
    cases dialect with
    | modern => exact .expect hv (.of_ok (name_before hu))
    | legacy => exact .expect hv (.of_ok (name_before hu))
  refine hvariable.bind (by simp) (.expect hcomma ?_)
  exact ReadsArms.arm (f := fun value body => pure (f word value body)) h hm hb hbrace hdepth (.of_ok rfl)

theorem each {v comma : Token} {word : String} (ht : t.kind = .keyword .each)
    (hv : v.kind = (dialect.defining false).1) (hu : u.kind = .name word)
    (hcomma : comma.kind = .symbol .comma) (h : ReadsExpr dialect k o m ts value) (hm : m + 1 ≤ n)
    (hb : ReadsBlock dialect n us body)
    (hbrace : ∃ t ws, us = t :: ws ∧ t.kind = .symbol .leftBrace) :
    ReadsStmt dialect top n (t :: v :: u :: comma :: (ts ++ us)) (.each t.pos word value body) := by
  refine of_rule (by rw [ht]; simp) fun c hdepth hnext => .step (get_apply _) rfl ?_
  simp only [Cursor.before_cons_next, ht]
  exact .take (bounded (f := .each t.pos) hv hu hcomma h hm hb hbrace hdepth)

theorem count {v comma : Token} {word : String} (ht : t.kind = .keyword .forCount)
    (hv : v.kind = (dialect.defining false).1) (hu : u.kind = .name word)
    (hcomma : comma.kind = .symbol .comma) (h : ReadsExpr dialect k o m ts value) (hm : m + 1 ≤ n)
    (hb : ReadsBlock dialect n us body)
    (hbrace : ∃ t ws, us = t :: ws ∧ t.kind = .symbol .leftBrace) :
    ReadsStmt dialect top n (t :: v :: u :: comma :: (ts ++ us)) (.count t.pos word value body) := by
  refine of_rule (by rw [ht]; simp) fun c hdepth hnext => .step (get_apply _) rfl ?_
  simp only [Cursor.before_cons_next, ht]
  exact .take (bounded (f := .count t.pos) hv hu hcomma h hm hb hbrace hdepth)

/-- A statement that starts with an expression. -/
theorem of_evaluation (hs : StartsExpr k ts)
    (h : ∀ c : Cursor, c.depth ≤ maxDepth → c.next.Closes →
      Gives n (Rules.evaluation dialect (Rules.under dialect c.depth).expression)
        (c.before (ts ++ us)) s c) :
    ReadsStmt dialect top n (ts ++ us) s := by
  cases hs with
  | @intro t ts first _ function =>
      have hne : t.kind ≠ .symbol .metadata := fun hk => by rw [hk] at first; cases first
      refine of_rule hne fun c hdepth hnext => ?_
      refine .of_eq (statementRule_of_startsExpr first fun hat => ?_) (h c hdepth hnext)
      obtain ⟨u, vs, rfl, hu⟩ := function hat
      exact hu

theorem eval (h : ReadsExpr dialect k o m ts value) (hm : m + 1 ≤ n) (hs : StartsExpr k ts) :
    ReadsStmt dialect top n ts (.eval value.pos value) := by
  have heval : ReadsStmt dialect top n (ts ++ []) (.eval value.pos value) := by
    refine of_evaluation hs fun c hdepth hnext => ?_
    rw [List.append_nil]
    refine (h.expression hnext.follows hm).bind (by simp) (.step (peek_apply c) rfl ?_)
    simp only [hnext.assignOp?]
    exact .of_ok rfl
  rwa [List.append_nil] at heval

theorem assign {target : Expr} {op : AssignOp} {k' o' m' : Nat}
    (h : ReadsExpr dialect k o m ts target) (hm : m + 1 ≤ n) (hplace : target.isPlace = true)
    (ht : t.assignOp? dialect = some op) (h' : ReadsExpr dialect k' o' m' us value)
    (hm' : m' + 1 ≤ n) (hs : StartsExpr k ts) :
    ReadsStmt dialect top n (ts ++ t :: us) (.assign target.pos target op value) := by
  refine of_evaluation hs fun c hdepth hnext => ?_
  rw [Cursor.before_append]
  have hends : t.Follows 0 := .of_endsExpr (Token.endsExpr_of_assignOp? ht)
  have htarget := h.expression (c := c.before (t :: us)) hends hm
  rw [Cursor.before_depth] at htarget
  refine htarget.bind (by simp) (.peek ?_)
  simp only [ht, hplace, if_true]
  exact .take (.last (h'.expression hnext.follows hm') (by simp))

theorem metadata (ht : t.kind = .symbol .metadata) (h : ReadsExpr dialect k o m ts value)
    (hm : m + 1 ≤ n) (hstatic : value.isStatic = true)
    (hname : ∃ u us, ts = u :: us ∧ ∀ word, u.kind ≠ .name word) :
    ReadsStmt dialect true n (t :: ts) (.metadata t.pos none value) := by
  intro c hdepth hnext
  have hat : at? (.symbol .metadata) (c.before (t :: ts)) = .ok (true, c.before (t :: ts)) := by
    simp [at?, bind_apply, ht]
  refine .step hat rfl (.take ?_)
  have hvalue := (h.expression hnext.follows hm).bind (by simp)
    (f := fun value => if value.isStatic then pure (Stmt.metadata t.pos none value)
      else fail .metadataNotLiteral value.pos) (by rw [if_pos hstatic]; exact .of_ok rfl)
  obtain ⟨u, us, rfl, hu⟩ := hname
  refine .peek ?_
  generalize u.kind = kind at hu ⊢
  cases kind with
  | name word => exact absurd rfl (hu word)
  | _ => exact hvalue

theorem namedMetadata {word : String} (ht : t.kind = .symbol .metadata) (hu : u.kind = .name word)
    (h : ReadsExpr dialect k o m ts value) (hm : m + 1 ≤ n) (hstatic : value.isStatic = true) :
    ReadsStmt dialect true n (t :: u :: ts) (.metadata t.pos (some word) value) := by
  intro c hdepth hnext
  have hat : at? (.symbol .metadata) (c.before (t :: u :: ts)) =
      .ok (true, c.before (t :: u :: ts)) := by
    simp [at?, bind_apply, ht]
  refine .step hat rfl (.take (.peek ?_))
  simp only [hu]
  have hvalue := (h.expression hnext.follows hm).bind (by simp)
    (f := fun value => if value.isStatic then pure (Stmt.metadata t.pos (some word) value)
      else fail .metadataNotLiteral value.pos) (by rw [if_pos hstatic]; exact .of_ok rfl)
  exact .take hvalue

end ReadsStmt

/-- A value made of literals does not start with a name. -/
theorem DerivesExpr.ne_name {k o n : Nat} {ts : List Token} {e : Expr}
    (h : DerivesExpr .written dialect k o n ts e) (hstatic : e.isStatic = true) :
    ∃ u us, ts = u :: us ∧ ∀ word, u.kind ≠ .name word := by
  cases h with
  | null ht | litTrue ht | litFalse ht | number ht | text ht | array ht _ _ | object ht _ _
  | group _ ht _ _ _ => exact ⟨_, _, rfl, fun word => by rw [ht]; simp⟩
  | @unary _ t _ _ _ _ _ _ ht _ _ _ =>
      refine ⟨_, _, rfl, fun word hk => ?_⟩
      unfold Token.unaryOp? at ht
      rw [hk] at ht
      cases ht
  | name | function | conditional | call | index | property | binary => cases hstatic

/-! ## Derivations -/

mutual

theorem DerivesExpr.reads {k o n : Nat} {ts : List Token} {e : Expr} :
    DerivesExpr .written dialect k o n ts e → ReadsExpr dialect k o n ts e
  | .null ht => .single (.null ht) fun _ _ _ => by simp [Rules.primary, bind_apply, ht]
  | .litTrue ht => .single (.litTrue ht) fun _ _ _ => by simp [Rules.primary, bind_apply, ht]
  | .litFalse ht => .single (.litFalse ht) fun _ _ _ => by simp [Rules.primary, bind_apply, ht]
  | .number ht => .single (.number ht) fun _ _ _ => by simp [Rules.primary, bind_apply, ht]
  | .text ht => .single (.text ht) fun _ _ _ => by simp [Rules.primary, bind_apply, ht]
  | .name ht => .single (.name ht) fun _ _ _ => by simp [Rules.primary, bind_apply, ht]
  | .array hl h hr => .array hl h.reads hr (DerivesExpr.array hl h hr).starts
  | .object hl h hr => .object hl h.reads hr (DerivesExpr.object hl h hr).starts
  | .function ht h => .function ht h.reads (DerivesExpr.function ht h).starts
  | .conditional ht hc hm hb ha =>
      .conditional ht hc.reads (hm rfl) hb.reads hb.starts ha.reads
        (DerivesExpr.conditional ht hc hm hb ha).starts
  | .group hw hl h hm hr => .group hl h.reads hm hr (DerivesExpr.group hw hl h hm hr).starts
  | .call hf hk hm hl hbreak h hm' hr =>
      .call hf.reads (hk rfl) (hm rfl) hl hbreak h.reads (hm' rfl) hr hf.starts
  | .index hf hk hm hl hbreak h hm' hr =>
      .index hf.reads (hk rfl) (hm rfl) hl hbreak h.reads (hm' rfl) hr hf.starts
  | .property hf hk hm hdot ht hn =>
      .property hf.reads (hk rfl) (hm rfl) hdot ht (hn rfl) hf.starts
  | .unary ht h hk hm => .prefixed ht h.reads (hk rfl) (hm rfl)
  | .binary hl hk hm ht hr hk' hm' => .infixed hl.reads (hk rfl) (hm rfl) ht hr.reads (hk' rfl) (hm' rfl)

theorem DerivesItem.reads {n : Nat} {ts : List Token} {a : Item} :
    DerivesItem .written dialect n ts a → ReadsItem dialect n ts a
  | .expr h hm => .expr h.reads h.starts (hm rfl)
  | .namedEntry ht hcolon h hm => .entry (.inl ht) hcolon h.reads (hm rfl)
  | .quotedEntry ht hcolon h hm => .entry (.inr ht) hcolon h.reads (hm rfl)
  | .name ht => .name ht

theorem DerivesItems.reads {n : Nat} {ts : List Token} {items : List Item} :
    DerivesItems .written dialect n ts items → ReadsItems dialect n ts items
  | .nil => .nil
  | .last h => .last h.reads
  | .cons h hcomma hs _ => .cons h.reads hcomma hs.reads

theorem DerivesFunction.reads {n : Nat} {ts : List Token} {params : List String}
    {body : List Stmt} :
    DerivesFunction .written dialect n ts params body → ReadsFunction dialect n ts params body
  | .intro hl h hr hb => .intro hl h.reads hr hb.reads

theorem DerivesArms.reads {n : Nat} {ts : List Token} {arms : List (Expr × List Stmt)}
    {otherwise : Option (List Stmt)} :
    DerivesArms .written dialect n ts arms otherwise → ReadsArms dialect n ts arms otherwise
  | .none => .none
  | .orElse ht hb => .orElse ht hb.reads
  | .elseIf ht hc hm hb ha => .elseIf ht hc.reads (hm rfl) hb.reads hb.starts ha.reads

theorem DerivesBlock.reads {n : Nat} {ts : List Token} {body : List Stmt} :
    DerivesBlock .written dialect n ts body → ReadsBlock dialect n ts body
  | .intro hl h hm hr => .intro hl h.reads (hm rfl) hr

theorem DerivesStmt.reads {top : Bool} {n : Nat} {ts : List Token} {s : Stmt} :
    DerivesStmt .written dialect top n ts s → ReadsStmt dialect top n ts s
  | .metadata ht h hm hstatic => .metadata ht h.reads (hm rfl) hstatic (h.ne_name hstatic)
  | .namedMetadata ht hu h hm hstatic => .namedMetadata ht hu h.reads (hm rfl) hstatic
  | .define ht hu hmark h hm => .define ht hu hmark h.reads (hm rfl)
  | .defineFunction ht hu h => .defineFunction ht hu h.reads
  | .assign h hm hplace ht h' hm' => .assign h.reads (hm rfl) hplace ht h'.reads (hm' rfl) h.starts
  | .out ht h hm => .out ht h.reads (hm rfl)
  | .back ht => .back ht
  | .backWith ht h hm hbreak => .backWith ht h.reads (hm rfl) h.starts (hbreak rfl)
  | .leave ht => .leave ht
  | .again ht => .again ht
  | .loop ht hb => .loop ht hb.reads
  | .each ht hv hu hcomma h hm hb => .each ht hv hu hcomma h.reads (hm rfl) hb.reads hb.starts
  | .count ht hv hu hcomma h hm hb => .count ht hv hu hcomma h.reads (hm rfl) hb.reads hb.starts
  | .eval h hm => .eval h.reads (hm rfl) h.starts

theorem DerivesStmts.reads {top : Bool} {n : Nat} {ts : List Token} {body : List Stmt} :
    DerivesStmts .written dialect top n ts body → ReadsStmts dialect top n ts body
  | .nil => .nil
  | .semicolon _ ht h => .semicolon ht h.reads
  | .cons h hs hsep => by
      obtain ⟨t, us, hts, ht, -⟩ := h.starts
      exact .cons h.reads ⟨t, us, hts, ht⟩ hs.reads ⟨hs.fresh, hsep rfl⟩

end

theorem parseTokens_cons (t : Token) (ts : List Token) :
    parseTokens dialect (t :: ts) =
      ((statements .done (topStatement (Rules.ofDialect dialect))) ⟨t, ts, 0⟩).map Prod.fst := by
  change (StateT.run (statements .done (topStatement (Rules.ofDialect dialect))) ⟨t, ts, 0⟩ >>= _) = _
  rw [StateT.run]
  cases statements .done (topStatement (Rules.ofDialect dialect)) ⟨t, ts, 0⟩ <;> rfl

theorem parseTokens_before (body : List Token) (last : Token) :
    parseTokens dialect (body ++ [last]) =
      ((statements .done (topStatement (Rules.ofDialect dialect)))
        (Cursor.before ⟨last, [], 0⟩ body)).map Prod.fst := by
  cases body with
  | nil => exact parseTokens_cons last []
  | cons t ts => exact parseTokens_cons t (ts ++ [last])

/-- The tokens of a program are parsed as the program, unless they need more levels of nesting than
there are. -/
theorem parseTokens_of_derives {n : Nat} {body : List Token} {last : Token} {program : List Stmt}
    (h : DerivesStmts .written dialect true n body program) (hlast : last.kind = .done) :
    parseTokens dialect (body ++ [last]) = .ok program ∨
      maxDepth < n ∧ ∃ pos, parseTokens dialect (body ++ [last]) = .error ⟨.nestedTooDeep, pos⟩ := by
  have hrounds := Nat.lt_succ_of_le (Cursor.length_le_before ⟨last, [], 0⟩ body)
  have hbody := h.reads .done [] _ ⟨last, [], 0⟩ (Nat.zero_le _) .done hlast hrounds
  have hprogram : Gives n (statements .done (topStatement (Rules.ofDialect dialect)))
      (Cursor.before ⟨last, [], 0⟩ body) program ⟨last, [], 0⟩ :=
    .step (rounds_apply _) rfl hbody
  rw [parseTokens_before]
  rcases hprogram with hok | ⟨hdeep, pos, herror⟩
  · rw [hok]
    exact .inl rfl
  · rw [Cursor.before_depth] at hdeep
    rw [herror]
    exact .inr ⟨by simpa using hdeep, pos, rfl⟩

end ScriptLab.Program
