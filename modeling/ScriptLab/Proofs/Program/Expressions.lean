import ScriptLab.Proofs.Program.Lookahead

/-!
# Reading expressions

A rule does not see where its tokens end, so that each statement here says what may follow them. The
operators of an expression, and its postfixes, are read one inside the other: the level of the first
one is open until all that follows is read. Those two are stated for a tree together with whatever is
read behind it.
-/

namespace ScriptLab.Program

open ScriptLab.Program.Parser

variable {α β : Type} {dialect : Dialect}

/-! ## Reading within some levels -/

/-- A parser reads a value up to a cursor, unless it needs more levels of nesting than there are. -/
def Gives (n : Nat) (p : Parser α) (c : Cursor) (a : α) (c' : Cursor) : Prop :=
  p c = .ok (a, c') ∨ maxDepth < c.depth + n ∧ ∃ pos, p c = .error ⟨.nestedTooDeep, pos⟩

namespace Gives

variable {n m : Nat} {p : Parser α} {c c₁ c' : Cursor} {a : α}

theorem of_ok (h : p c = .ok (a, c')) : Gives n p c a c' :=
  .inl h

theorem of_eq {q : Parser α} (h : p c = q c) (hq : Gives n q c a c') : Gives n p c a c' := by
  unfold Gives at hq ⊢
  rwa [h]

theorem mono (h : Gives m p c a c') (hmn : m ≤ n) : Gives n p c a c' := by
  rcases h with h | ⟨hdepth, h⟩
  · exact .inl h
  · exact .inr ⟨by omega, h⟩

theorem bind {f : α → Parser β} {b : β} (h : Gives n p c a c₁) (hdepth : c₁.depth = c.depth)
    (hf : Gives n (f a) c₁ b c') : Gives n (p >>= f) c b c' := by
  rcases h with h | ⟨hdeep, pos, h⟩
  · rcases hf with hf | ⟨hdeep, pos, hf⟩
    · exact .inl ((bind_of_ok h f).trans hf)
    · exact .inr ⟨hdepth ▸ hdeep, pos, (bind_of_ok h f).trans hf⟩
  · exact .inr ⟨hdeep, pos, bind_of_error h f⟩

/-- A parser that succeeds, and one behind it. -/
theorem step {f : α → Parser β} {b : β} (h : p c = .ok (a, c₁)) (hdepth : c₁.depth = c.depth)
    (hf : Gives n (f a) c₁ b c') : Gives n (p >>= f) c b c' :=
  (of_ok h).bind hdepth hf

theorem nested {ts : List Token}
    (h : c.depth + 1 ≤ maxDepth → Gives m p (c.deeper.before ts) a c'.deeper) (hmn : m + 1 ≤ n) :
    Gives n (nested p) (c.before ts) a c' := by
  have happly := nested_apply p (c.before ts)
  rw [Cursor.before_depth, Cursor.deeper_before] at happly
  by_cases hroom : maxDepth < c.depth + 1
  · rw [if_pos hroom] at happly
    exact .inr ⟨by rw [Cursor.before_depth]; omega, _, happly⟩
  · rw [if_neg hroom] at happly
    rcases h (Nat.le_of_not_lt hroom) with h | ⟨hdeep, pos, h⟩
    · rw [h] at happly
      exact .inl happly
    · rw [h] at happly
      rw [Cursor.before_depth, Cursor.deeper_depth] at hdeep
      exact .inr ⟨by rw [Cursor.before_depth]; omega, pos, happly⟩

end Gives

/-! ## Single tokens -/

namespace Parser

variable {c : Cursor} {t : Token} {ts : List Token}

theorem take_before : take (c.before (t :: ts)) = .ok (t, c.before ts) := by
  rw [take_apply, Cursor.advance_before]
  rfl

theorem name_before {word : String} (ht : t.kind = .name word) :
    name (c.before (t :: ts)) = .ok (word, c.before ts) := by
  unfold name
  rw [bind_of_ok take_before, ht]
  rfl

theorem eat_next {kind : TokenKind} (h : c.next.kind = kind) : eat kind c = .ok (true, c.advance) := by
  rw [eat_apply, if_pos h]

theorem eat_other {kind : TokenKind} (h : c.next.kind ≠ kind) : eat kind c = .ok (false, c) := by
  rw [eat_apply, if_neg h]

theorem eat_before {kind : TokenKind} (ht : t.kind = kind) :
    eat kind (c.before (t :: ts)) = .ok (true, c.before ts) := by
  have h : eat kind (c.before (t :: ts)) = .ok (true, (c.before (t :: ts)).advance) := eat_next ht
  rw [h, Cursor.advance_before]

theorem expect_next {kind : TokenKind} (h : c.next.kind = kind) :
    expect kind c = .ok ((), c.advance) := by
  unfold expect
  rw [bind_of_ok (get_apply c), if_pos h]
  rfl

theorem expect_before {kind : TokenKind} (ht : t.kind = kind) :
    expect kind (c.before (t :: ts)) = .ok ((), c.before ts) := by
  have h : expect kind (c.before (t :: ts)) = .ok ((), (c.before (t :: ts)).advance) := expect_next ht
  rw [h, Cursor.advance_before]

end Parser

@[simp] theorem Cursor.advance_depth (c : Cursor) : c.advance.depth = c.depth := by
  obtain ⟨t, ts, depth⟩ := c
  cases ts <;> rfl

namespace Gives

variable {n : Nat} {c c' : Cursor} {t : Token} {ts : List Token} {b : β}

theorem take {f : Token → Parser β} (h : Gives n (f t) (c.before ts) b c') :
    Gives n (take >>= f) (c.before (t :: ts)) b c' :=
  .step take_before (by simp) h

theorem peek {f : Token → Parser β} (h : Gives n (f t) (c.before (t :: ts)) b c') :
    Gives n (peek >>= f) (c.before (t :: ts)) b c' :=
  .step (peek_apply _) rfl h

theorem name {f : String → Parser β} {word : String} (ht : t.kind = .name word)
    (h : Gives n (f word) (c.before ts) b c') : Gives n (name >>= f) (c.before (t :: ts)) b c' :=
  .step (name_before ht) (by simp) h

theorem expect {kind : TokenKind} {f : Unit → Parser β} (ht : t.kind = kind)
    (h : Gives n (f ()) (c.before ts) b c') :
    Gives n (expect kind >>= f) (c.before (t :: ts)) b c' :=
  .step (expect_before ht) (by simp) h

theorem eat {kind : TokenKind} {f : Bool → Parser β} (ht : t.kind = kind)
    (h : Gives n (f true) (c.before ts) b c') : Gives n (eat kind >>= f) (c.before (t :: ts)) b c' :=
  .step (eat_before ht) (by simp) h

theorem pass {kind : TokenKind} {f : Bool → Parser β} (hne : c.next.kind ≠ kind)
    (h : Gives n (f false) c b c') : Gives n (Parser.eat kind >>= f) c b c' :=
  .step (eat_other hne) rfl h

theorem last {p : Parser α} {a : α} {f : α → β} (h : Gives n p c a c') (hdepth : c'.depth = c.depth) :
    Gives n (p >>= fun a => pure (f a)) c (f a) c' :=
  h.bind hdepth (.of_ok rfl)

end Gives

/-! ## Rules by the levels that are open -/

namespace Rules

/-- The rules where the given number of levels is open. -/
def under (dialect : Dialect) (depth : Nat) : Rules :=
  withRoom dialect (maxDepth - depth + 1)

/-- An expression without operators in front of it. -/
def postfixed (rules : Rules) : Parser Expr :=
  primary rules.expression rules.block >>= rules.links

theorem withRoom_under {depth : Nat} (h : depth + 1 ≤ maxDepth) :
    withRoom dialect (maxDepth - depth) = under dialect (depth + 1) := by
  have hroom : maxDepth - depth = maxDepth - (depth + 1) + 1 := by omega
  rw [under, hroom]

end Rules

/-! ## Lists -/

/-- A symbol that closes a list in brackets. -/
inductive Closer : Symbol → Prop
  | paren : Closer .rightParen
  | bracket : Closer .rightBracket
  | brace : Closer .rightBrace

theorem Closer.endsExpr {close : Symbol} (h : Closer close) :
    (TokenKind.symbol close).endsExpr = true := by
  cases h <;> rfl

theorem Closer.startsExpr {close : Symbol} (h : Closer close) :
    (TokenKind.symbol close).startsExpr = false := by
  cases h <;> rfl

theorem Closer.ne_comma {close : Symbol} (h : Closer close) :
    TokenKind.symbol close ≠ .symbol .comma := by
  cases h <;> simp

/-- An item is read before a token that goes on with no expression. -/
structure ReadsItem (dialect : Dialect) (n : Nat) (ts : List Token) (a : Item) : Prop where
  starts : ∃ t us, ts = t :: us ∧ t.kind.startsExpr = true
  reads : ∀ c : Cursor, c.depth ≤ maxDepth → c.next.Follows 0 → match a with
    | .expr e => Gives n (Rules.under dialect c.depth).expression (c.before ts) e c
    | .entry key value =>
      Gives n (Rules.entry (Rules.under dialect c.depth).expression) (c.before ts) (key, value) c
    | .name word => Gives n name (c.before ts) word c

/-- A parser of items, at a depth, reads those of a kind. -/
def ReadsAs (dialect : Dialect) (depth n : Nat) (as : α → Item) (item : Parser α) : Prop :=
  ∀ ts a (c : Cursor), ReadsItem dialect n ts (as a) → c.depth = depth → c.next.Follows 0 →
    Gives n item (c.before ts) a c

/-- The items of a list are read up to the symbol that closes it. -/
def ReadsItems (dialect : Dialect) (n : Nat) (ts : List Token) (items : List Item) : Prop :=
  ∀ (α : Type) (as : α → Item) (item : Parser α) (close : Symbol) (found made : List α) (rounds : Nat)
    (c : Cursor), ReadsAs dialect c.depth n as item → Closer close → items = found.map as →
      c.next.kind = .symbol close → ts.length < rounds →
      Gives n (itemsFrom close item rounds made) (c.before ts) (made.reverse ++ found) c.advance

theorem Cursor.length_le_before (c : Cursor) (ts : List Token) :
    ts.length ≤ (c.before ts).rest.length := by
  cases ts with
  | nil => exact Nat.zero_le _
  | cons t ts => simp [Cursor.before]

theorem ReadsItem.name {n : Nat} {t : Token} {word : String} (ht : t.kind = .name word) :
    ReadsItem dialect n [t] (.name word) :=
  ⟨⟨t, [], rfl, by rw [ht]; rfl⟩, fun _ _ _ => .of_ok (name_before ht)⟩

theorem ReadsItems.nil {n : Nat} : ReadsItems dialect n [] [] := by
  intro α as item close found made rounds c hitem hclose hfound hnext hrounds
  obtain ⟨k, rfl⟩ : ∃ k, rounds = k + 1 := ⟨rounds - 1, by simp at hrounds; omega⟩
  obtain rfl : found = [] := List.map_eq_nil_iff.1 hfound.symm
  rw [List.append_nil]
  exact .step (eat_next hnext) (by simp) (.of_ok rfl)

theorem ReadsItems.last {n : Nat} {ts : List Token} {a : Item} (h : ReadsItem dialect n ts a) :
    ReadsItems dialect n ts [a] := by
  intro α as item close found made rounds c hitem hclose hfound hnext hrounds
  obtain ⟨k, rfl⟩ : ∃ k, rounds = k + 1 := ⟨rounds - 1, by omega⟩
  obtain ⟨b, rest, rfl, rfl, hrest⟩ := List.map_eq_cons_iff.1 hfound.symm
  obtain rfl : rest = [] := List.map_eq_nil_iff.1 hrest
  obtain ⟨t, us, rfl, ht⟩ := h.starts
  have hne : t.kind ≠ .symbol close := fun hk => by rw [hk, hclose.startsExpr] at ht; cases ht
  have hfollows : c.next.Follows 0 := .of_endsExpr (by rw [hnext]; exact hclose.endsExpr)
  refine .pass hne ((hitem _ b c h rfl hfollows).bind (by simp) ?_)
  refine .pass (by rw [hnext]; exact hclose.ne_comma) ?_
  refine .step (expect_next hnext) (by simp) (.of_ok ?_)
  rw [← List.reverse_cons]
  rfl

theorem ReadsItems.cons {n : Nat} {ts us : List Token} {a : Item} {comma : Token} {items : List Item}
    (h : ReadsItem dialect n ts a) (hcomma : comma.kind = .symbol .comma)
    (hs : ReadsItems dialect n us items) :
    ReadsItems dialect n (ts ++ comma :: us) (a :: items) := by
  intro α as item close found made rounds c hitem hclose hfound hnext hrounds
  obtain ⟨k, rfl⟩ : ∃ k, rounds = k + 1 := ⟨rounds - 1, by omega⟩
  obtain ⟨b, rest, rfl, rfl, rfl⟩ := List.map_eq_cons_iff.1 hfound.symm
  rw [Cursor.before_append]
  have hlength : us.length < k := by simp at hrounds; omega
  have hfollows : comma.Follows 0 := .of_endsExpr (by rw [hcomma]; rfl)
  have hfirst := hitem ts b (c.before (comma :: us)) h (by simp) hfollows
  obtain ⟨t, vs, rfl, ht⟩ := h.starts
  have hne : t.kind ≠ .symbol close := fun hk => by rw [hk, hclose.startsExpr] at ht; cases ht
  refine .pass hne (hfirst.bind (by simp) (.eat hcomma ?_))
  have := hs α as item close rest (b :: made) k c hitem hclose rfl hnext hlength
  rwa [List.reverse_cons, List.append_assoc] at this

/-- A whole list, and the token that closes it. -/
theorem ReadsItems.items {n m : Nat} {ts : List Token} {close : Symbol} {r : Token} {as : α → Item}
    {item : Parser α} {found : List α} {c : Cursor} (h : ReadsItems dialect n ts (found.map as))
    (hclose : Closer close) (hr : r.kind = .symbol close) (hitem : ReadsAs dialect c.depth n as item)
    (hm : n ≤ m) : Gives m (items close item) (c.before (ts ++ [r])) found c := by
  rw [Cursor.before_append]
  refine .step (rounds_apply _) rfl (.mono ?_ hm)
  have hlength := Cursor.length_le_before (c.before [r]) ts
  have := h α as item close found [] _ (c.before [r]) (by rwa [Cursor.before_depth]) hclose rfl hr
    (Nat.lt_succ_of_le hlength)
  rwa [Cursor.advance_before, Cursor.before_nil] at this

theorem ReadsAs.expr {depth n : Nat} (hdepth : depth ≤ maxDepth) :
    ReadsAs dialect depth n .expr (Rules.under dialect depth).expression := by
  rintro ts a c h rfl hnext
  exact h.reads c hdepth hnext

theorem ReadsAs.entry {depth n : Nat} (hdepth : depth ≤ maxDepth) :
    ReadsAs dialect depth n (fun entry => .entry entry.1 entry.2)
      (Rules.entry (Rules.under dialect depth).expression) := by
  rintro ts a c h rfl hnext
  exact h.reads c hdepth hnext

theorem ReadsAs.name {depth n : Nat} (hdepth : depth ≤ maxDepth) :
    ReadsAs dialect depth n .name name := by
  rintro ts a c h rfl hnext
  exact h.reads c hdepth hnext

/-! ## Expressions -/

/-- The cursor with some levels more open. -/
def Cursor.deepen (c : Cursor) (levels : Nat) : Cursor :=
  { c with depth := c.depth + levels }

theorem Cursor.deepen_before (c : Cursor) (ts : List Token) (levels : Nat) :
    (c.before ts).deepen levels = (c.deepen levels).before ts := by
  cases ts <;> rfl

/-- An expression is read up to its last postfix, all of which stay open for what follows. -/
def ReadsLinked (dialect : Dialect) (o n : Nat) (ts : List Token) (e : Expr) : Prop :=
  ∀ (c : Cursor) (x : Expr) (c' : Cursor) (m r : Nat), c.depth ≤ maxDepth →
    c.next.startsArm = false → n ≤ r → o + m ≤ r →
    (c.depth + o ≤ maxDepth →
      Gives m ((Rules.under dialect (c.depth + o)).links e) (c.deepen o) x (c'.deepen o)) →
    Gives r (Rules.under dialect c.depth).postfixed (c.before ts) x c'

/-- An expression is read as an operand. -/
def ReadsUnary (dialect : Dialect) (n : Nat) (ts : List Token) (e : Expr) : Prop :=
  ∀ (c : Cursor) (r : Nat), c.depth ≤ maxDepth → c.next.Follows 6 → n ≤ r →
    Gives r (Rules.under dialect c.depth).unary (c.before ts) e c

/-- An expression is read up to the last operator of its left spine, all of which stay open for what
follows. -/
def ReadsBinary (dialect : Dialect) (k s n : Nat) (ts : List Token) (e : Expr) : Prop :=
  ∀ (c : Cursor) (least : Nat) (x : Expr) (c' : Cursor) (m r : Nat), c.depth ≤ maxDepth →
    least < k → c.next.Follows k → n ≤ r → s + m ≤ r →
    (c.depth + s ≤ maxDepth →
      Gives m ((Rules.under dialect (c.depth + s)).operators least e) (c.deepen s) x (c'.deepen s)) →
    Gives r ((Rules.under dialect c.depth).binary least) (c.before ts) x c'

/-- The ways in which an expression is read, by the level of its outermost operator. -/
structure ReadsExpr (dialect : Dialect) (k o n : Nat) (ts : List Token) (e : Expr) : Prop where
  level : 0 < k
  opened : spine k o ≤ n
  linked : k = 8 → ReadsLinked dialect o n ts e
  unary : 7 ≤ k → ReadsUnary dialect n ts e
  binary : ReadsBinary dialect k (spine k o) n ts e

theorem linksRule_of_follows {inner : Rules} {target : Expr} {c : Cursor}
    (h : c.next.startsLink = false) : Rules.linksRule inner target c = .ok (target, c) := by
  unfold Rules.linksRule
  rw [bind_of_ok (peek_apply c)]
  unfold Token.startsLink at h
  generalize c.next.kind = kind, c.next.afterBreak = afterBreak at h
  cases kind with
  | symbol s => cases s <;> cases afterBreak <;> first | rfl | cases h
  | _ => rfl

theorem operatorsRule_of_below {inner : Rules} {least : Nat} {left : Expr} {c : Cursor}
    (h : Below least c.next) : Rules.operatorsRule inner least left c = .ok (left, c) := by
  unfold Rules.operatorsRule
  rw [bind_of_ok (peek_apply c)]
  cases hop : c.next.binaryOp? with
  | none => rfl
  | some op =>
      show (if op.precedence ≤ least then _ else _ : Parser Expr) c = _
      rw [if_pos (h op hop)]
      rfl

theorem ReadsUnary.binary {k n : Nat} {ts : List Token} {e : Expr}
    (h : ReadsUnary dialect n ts e) : ReadsBinary dialect k 0 n ts e := by
  intro c least x c' m r hdepth hleast hnext hn hm hrest
  have hfollows : c.next.Follows 6 := ⟨hnext.arm, hnext.link, fun op _ => precedence_le op⟩
  refine (h c r hdepth hfollows hn).bind (Cursor.before_depth c ts).symm ?_
  exact (hrest hdepth).mono (by omega)

namespace ReadsExpr

variable {k o n m m' : Nat} {ts : List Token} {e : Expr}

theorem of_unary (h : ReadsUnary dialect n ts e) : ReadsExpr dialect 7 0 n ts e :=
  ⟨by decide, Nat.zero_le n, fun hk => (nomatch hk), fun _ => h, h.binary⟩

theorem of_linked (h : ReadsLinked dialect o n ts e) (hs : StartsExpr 8 ts) (ho : o ≤ n) :
    ReadsExpr dialect 8 o n ts e := by
  have hunary : ReadsUnary dialect n ts e := by
    intro c r hdepth hnext hn
    have hpost : Gives r (Rules.under dialect c.depth).postfixed (c.before ts) e c :=
      h c e c 0 r hdepth hnext.arm hn (by omega) fun _ => .of_ok (linksRule_of_follows hnext.link)
    cases hs with
    | intro _ operator _ =>
        refine .peek ?_
        rw [operator rfl]
        exact hpost
  exact ⟨by decide, Nat.zero_le n, fun _ => h, fun _ => hunary, hunary.binary⟩

/-- An expression that is no postfix and has no operator in front of it. -/
theorem of_primary (h : ∀ c : Cursor, c.depth ≤ maxDepth → c.next.startsArm = false →
      Gives n (Rules.primary (Rules.under dialect c.depth).expression
        (Rules.under dialect c.depth).block) (c.before ts) e c) (hs : StartsExpr 8 ts) :
    ReadsExpr dialect 8 0 n ts e := by
  refine of_linked (fun c x c' m r hdepth hnext hn hm hrest => ?_) hs (Nat.zero_le n)
  refine ((h c hdepth hnext).mono hn).bind (Cursor.before_depth c ts).symm ?_
  exact (hrest hdepth).mono (by omega)

/-- A tree is read as an expression before a token that goes on with none. -/
theorem expression (h : ReadsExpr dialect k o n ts e) {c : Cursor}
    (hnext : c.next.Follows 0) (hn : n + 1 ≤ m) :
    Gives m (Rules.under dialect c.depth).expression (c.before ts) e c := by
  refine .nested (fun hdepth => ?_) hn
  rw [Rules.withRoom_under hdepth]
  exact h.binary c.deeper 0 e c.deeper 0 n hdepth h.level (hnext.mono (Nat.zero_le k))
    (Nat.le_refl n) h.opened fun _ => .of_ok (operatorsRule_of_below hnext.below)

/-- An expression that is a single token. -/
theorem single {t : Token} (hd : DerivesExpr .written dialect 8 0 n [t] e)
    (h : ∀ (c : Cursor) expression block,
      Rules.primary expression block (c.before [t]) = .ok (e, c)) : ReadsExpr dialect 8 0 n [t] e :=
  of_primary (fun c _ _ => .of_ok (h c _ _)) hd.starts

theorem array {l r : Token} {items : List Expr} (hl : l.kind = .symbol .leftBracket)
    (h : ReadsItems dialect n ts (items.map .expr)) (hr : r.kind = .symbol .rightBracket)
    (hs : StartsExpr 8 (l :: (ts ++ [r]))) :
    ReadsExpr dialect 8 0 n (l :: (ts ++ [r])) (.arr l.pos items) := by
  refine of_primary (fun c hdepth _ => .take ?_) hs
  simp only [hl]
  exact .last (h.items .bracket hr (.expr hdepth) (Nat.le_refl n)) (by simp)

theorem object {l r : Token} {entries : List (String × Expr)} (hl : l.kind = .symbol .leftBrace)
    (h : ReadsItems dialect n ts (entries.map fun entry => .entry entry.1 entry.2))
    (hr : r.kind = .symbol .rightBrace) (hs : StartsExpr 8 (l :: (ts ++ [r]))) :
    ReadsExpr dialect 8 0 n (l :: (ts ++ [r])) (.obj l.pos entries) := by
  refine of_primary (fun c hdepth _ => .take ?_) hs
  simp only [hl]
  exact .last (h.items .brace hr (.entry hdepth) (Nat.le_refl n)) (by simp)

theorem group {l r : Token} (hl : l.kind = .symbol .leftParen) (h : ReadsExpr dialect k o m ts e)
    (hm : m + 1 ≤ n) (hr : r.kind = .symbol .rightParen) (hs : StartsExpr 8 (l :: (ts ++ [r]))) :
    ReadsExpr dialect 8 0 n (l :: (ts ++ [r])) e := by
  refine of_primary (fun c _ _ => .take ?_) hs
  simp only [hl]
  have hnext : r.Follows 0 := .of_endsExpr (by rw [hr]; rfl)
  rw [Cursor.before_append]
  have hinner := h.expression (c := c.before [r]) hnext hm
  rw [Cursor.before_depth] at hinner
  exact hinner.bind (by simp) (.expect hr (.of_ok rfl))

/-- A postfix opens a level for itself and all that follows. -/
theorem link {f : Expr} {l : Token} {us : List Token} (hf : ReadsExpr dialect 8 o m ts f)
    (hm : m ≤ n) (hl : l.startsArm = false) (hs : StartsExpr 8 ts) (ho : o + 1 ≤ n)
    (hlink : ∀ (c c' : Cursor) (x : Expr) (q : Nat), n ≤ q → c.depth ≤ maxDepth →
      (c.depth + 1 ≤ maxDepth → Gives (q - (o + 1))
        ((Rules.under dialect (c.depth + 1)).links e) c.deeper x c'.deeper) →
      Gives (q - o) ((Rules.under dialect c.depth).links f) (c.before (l :: us)) x c') :
    ReadsExpr dialect 8 (o + 1) n (ts ++ l :: us) e := by
  refine of_linked (fun c x c' p q hdepth hnext hn hp hrest => ?_) (hs.append id) ho
  rw [Cursor.before_append]
  have hlinked := hf.linked rfl (c.before (l :: us)) x c' (q - o) q (by simpa using hdepth) hl
    (by omega) (by omega)
  rw [Cursor.before_depth, Cursor.deepen_before] at hlinked
  refine hlinked fun hroom => ?_
  exact hlink (c.deepen o) (c'.deepen o) x q hn hroom fun h => (hrest h).mono (by omega)

theorem call {f : Expr} {l r : Token} {us : List Token} {args : List Expr}
    (hf : ReadsExpr dialect k o m ts f) (hk : k = 8) (hm : m ≤ n) (hl : l.kind = .symbol .leftParen)
    (hbreak : l.afterBreak = false) (h : ReadsItems dialect m' us (args.map .expr))
    (hm' : o + 1 + m' ≤ n) (hr : r.kind = .symbol .rightParen) (hs : StartsExpr k ts) :
    ReadsExpr dialect 8 (o + 1) n (ts ++ l :: (us ++ [r])) (.call f.pos f args) := by
  subst hk
  refine hf.link hm (Token.startsArm_of_symbol hl) hs (by omega) fun c c' x q hn hdepth hrest => .peek ?_
  simp only [hl, hbreak]
  refine .nested (fun hroom => ?_) (show q - (o + 1) + 1 ≤ q - o by omega)
  rw [Rules.withRoom_under hroom]
  have hargs : Gives (q - (o + 1)) (items .rightParen (Rules.under dialect (c.depth + 1)).expression)
      (c.deeper.before (us ++ [r])) args c.deeper :=
    h.items .paren hr (.expr hroom) (by omega)
  exact .take (hargs.bind (by simp) (hrest hroom))

theorem index {f i : Expr} {l r : Token} {us : List Token} {k' o' : Nat}
    (hf : ReadsExpr dialect k o m ts f) (hk : k = 8) (hm : m ≤ n) (hl : l.kind = .symbol .leftBracket)
    (hbreak : l.afterBreak = false) (h : ReadsExpr dialect k' o' m' us i)
    (hm' : o + 1 + (m' + 1) ≤ n) (hr : r.kind = .symbol .rightBracket) (hs : StartsExpr k ts) :
    ReadsExpr dialect 8 (o + 1) n (ts ++ l :: (us ++ [r])) (.index f.pos f i) := by
  subst hk
  have hnext : r.Follows 0 := .of_endsExpr (by rw [hr]; rfl)
  refine hf.link hm (Token.startsArm_of_symbol hl) hs (by omega) fun c c' x q hn hdepth hrest => .peek ?_
  simp only [hl, hbreak]
  refine .nested (fun hroom => ?_) (show q - (o + 1) + 1 ≤ q - o by omega)
  rw [Rules.withRoom_under hroom]
  refine .take ?_
  rw [Cursor.before_append]
  have hindex := h.expression (m := q - (o + 1)) (c := c.deeper.before [r]) hnext (by omega)
  rw [Cursor.before_depth] at hindex
  exact hindex.bind (by simp) (.expect hr (hrest hroom))

theorem property {f : Expr} {dot t : Token} {word : String} (hf : ReadsExpr dialect k o m ts f)
    (hk : k = 8) (hm : m ≤ n) (hdot : dot.kind = .symbol .dot) (ht : t.kind = .name word) (ho : o + 1 ≤ n)
    (hs : StartsExpr k ts) : ReadsExpr dialect 8 (o + 1) n (ts ++ [dot, t]) (.prop f.pos f word) := by
  subst hk
  refine hf.link hm (Token.startsArm_of_symbol hdot) hs ho fun c c' x q hn hdepth hrest => .peek ?_
  simp only [hdot]
  refine .nested (fun hroom => ?_) (show q - (o + 1) + 1 ≤ q - o by omega)
  rw [Rules.withRoom_under hroom]
  exact .take (.name ht (hrest hroom))

theorem prefixed {t : Token} {op : UnaryOp} (ht : t.unaryOp? = some op)
    (h : ReadsExpr dialect k o m ts e) (hk : 7 ≤ k) (hm : m + 1 ≤ n) :
    ReadsExpr dialect 7 0 n (t :: ts) (.unary t.pos op e) := by
  refine of_unary fun c q hdepth hnext hn => .peek ?_
  simp only [ht]
  refine .take (.last (.nested (fun hroom => ?_) (Nat.le_trans hm hn)) (by simp))
  rw [Rules.withRoom_under hroom]
  exact h.unary hk c.deeper m hroom hnext (Nat.le_refl m)

/-- The left operand leaves its operators open for the new one, which leaves itself open for all that
follows behind the right operand. -/
theorem infixed {l r : Expr} {t : Token} {op : BinaryOp} {us : List Token} {k' o' : Nat}
    (hl : ReadsExpr dialect k o m ts l) (hk : op.precedence ≤ k) (hm : m ≤ n)
    (ht : t.binaryOp? = some op) (hr : ReadsExpr dialect k' o' m' us r) (hk' : op.precedence < k')
    (hm' : spine k o + 1 + m' ≤ n) :
    ReadsExpr dialect op.precedence (spine k o + 1) n (ts ++ t :: us) (.binary l.pos op l r) := by
  have hprecedence := precedence_le op
  have hspine : spine op.precedence (spine k o + 1) = spine k o + 1 := if_pos (by omega)
  refine ⟨Nat.zero_lt_of_ne_zero (by cases op <;> decide), by omega, fun h => by omega,
    fun h => by omega, ?_⟩
  rw [hspine]
  intro c least x c' p q hdepth hleast hnext hn hp hrest
  rw [Cursor.before_append]
  have hleft := hl.binary (c.before (t :: us)) least x c' (q - spine k o) q (by simpa using hdepth)
    (by omega) ((Token.Follows.of_binaryOp? ht).mono hk) (by omega) (by omega)
  rw [Cursor.before_depth, Cursor.deepen_before] at hleft
  refine hleft fun hroom => .peek ?_
  simp only [ht, if_neg (Nat.not_le_of_lt hleast)]
  refine .take (.nested (m := q - spine k o - 1) (fun hroom' => ?_) (by omega))
  rw [Rules.withRoom_under (show c.depth + spine k o + 1 ≤ maxDepth from hroom')]
  have hopened := hr.opened
  have hright : Gives (q - spine k o - 1)
      ((Rules.under dialect (c.depth + spine k o + 1)).binary op.precedence)
      ((c.deepen (spine k o)).deeper.before us) r (c.deepen (spine k o)).deeper :=
    hr.binary (c.deepen (spine k o)).deeper op.precedence r (c.deepen (spine k o)).deeper 0 _ hroom'
      hk' (hnext.mono (Nat.le_of_lt hk')) (by omega) (by omega)
      fun _ => .of_ok (operatorsRule_of_below hnext.below)
  exact hright.bind (by simp) ((hrest hroom').mono (by omega))

end ReadsExpr

/-! ## Items -/

namespace ReadsItem

variable {k o m n : Nat} {ts : List Token} {e : Expr}

theorem expr (h : ReadsExpr dialect k o m ts e) (hs : StartsExpr k ts) (hm : m + 1 ≤ n) :
    ReadsItem dialect n ts (.expr e) := by
  refine ⟨?_, fun c _ hnext => h.expression hnext hm⟩
  cases hs with
  | intro first _ _ => exact ⟨_, _, rfl, first⟩

theorem entry {t colon : Token} {key : String} (ht : t.kind = .name key ∨ t.kind = .text key)
    (hcolon : colon.kind = .symbol .colon) (h : ReadsExpr dialect k o m ts e) (hm : m + 1 ≤ n) :
    ReadsItem dialect n (t :: colon :: ts) (.entry key e) := by
  refine ⟨⟨t, _, rfl, by rcases ht with ht | ht <;> rw [ht] <;> rfl⟩, fun c _ hnext => .take ?_⟩
  have hvalue : Gives n (do
      expect (.symbol .colon)
      return (key, ← (Rules.under dialect c.depth).expression)) (c.before (colon :: ts)) (key, e) c :=
    .expect hcolon (.last (h.expression hnext hm) (by simp))
  rcases ht with ht | ht <;> simp only [ht] <;> exact .step rfl rfl hvalue

end ReadsItem

end ScriptLab.Program
