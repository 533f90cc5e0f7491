import ScriptLab.Proofs.Program.Derivation
import ScriptLab.Proofs.Program.Reading

/-!
# What is parsed is derived

The tokens that the parser reads for a tree are a derivation of the tree, with no more levels of
nesting than are left at the place where it starts.
-/

namespace ScriptLab.Program

open ScriptLab.Program.Parser
open Text (Pos)

variable {dialect : Dialect}

/-- The levels of nesting that may still be opened at a cursor. -/
def Cursor.room (c : Cursor) : Nat :=
  maxDepth - c.depth

/-! ## Lists -/

theorem Reads.room {c c' : Cursor} {ts : List Token} (h : Reads dialect c ts c') :
    c'.room = c.room := by
  rw [Cursor.room, Cursor.room, h.depth]

/-- The items of a list up to its closing bracket. -/
theorem itemsFrom_sound {α : Type} {close : Symbol} {item : Parser α} {as : α → Item} {m depth : Nat}
    (hitem : ∀ c a c', c.Proper dialect → c.depth = depth → item c = .ok (a, c') →
      ∃ ts, Reads dialect c ts c' ∧ DerivesItem .written dialect m ts (as a))
    {n : Nat} {made found : List α} {c c' : Cursor}
    (h : itemsFrom close item n made c = .ok (found, c')) (hc : c.Proper dialect)
    (hdepth : c.depth = depth) :
    ∃ ts r rest, found = made.reverse ++ rest ∧ r.kind = .symbol close ∧
      Reads dialect c (ts ++ [r]) c' ∧ DerivesItems .written dialect m ts (rest.map as) := by
  induction n generalizing made c with
  | zero => cases h
  | succ n ih =>
      unfold itemsFrom at h
      obtain ⟨b, c₁, hend, h₁⟩ := bind_ok h
      rcases eat_ok hend with ⟨rfl, hk, rfl⟩ | ⟨rfl, -, rfl⟩
      · cases h₁
        refine ⟨[], c.next, [], (List.append_nil _).symm, hk, ?_, .nil⟩
        exact .advance hc (by rw [hk]; exact TokenKind.noConfusion)
      rw [if_neg Bool.false_ne_true] at h₁
      obtain ⟨a, c₂, ha, h₂⟩ := bind_ok h₁
      obtain ⟨ts, hts, hd⟩ := hitem _ _ _ hc hdepth ha
      obtain ⟨b, c₃, hmore, h₃⟩ := bind_ok h₂
      rcases eat_ok hmore with ⟨rfl, hk, rfl⟩ | ⟨rfl, -, rfl⟩
      · rw [if_pos rfl] at h₃
        have hcomma := Reads.advance hts.proper (by rw [hk]; exact TokenKind.noConfusion)
        obtain ⟨us, r, rest, hfound, hr, hus, hds⟩ :=
          ih h₃ hcomma.proper (hcomma.depth.trans (hts.depth.trans hdepth))
        refine ⟨ts ++ c₂.next :: us, r, a :: rest, ?_, hr, ?_, .cons hd hk hds fun h => nomatch h⟩
        · rw [hfound, List.reverse_cons, List.append_assoc]
          rfl
        · have := (hts.trans hcomma).trans hus
          simpa using this
      · rw [if_neg Bool.false_ne_true] at h₃
        obtain ⟨⟨⟩, c₄, hclose, h₄⟩ := bind_ok h₃
        cases h₄
        obtain ⟨r, hr, hreads⟩ := expect_ok hclose hts.proper TokenKind.noConfusion
        exact ⟨ts, r, [a], List.reverse_cons, hr, hts.trans hreads, .last hd⟩

theorem items_sound {α : Type} {close : Symbol} {item : Parser α} (as : α → Item) {m : Nat}
    {found : List α} {c c' : Cursor}
    (hitem : ∀ c₁ a c₂, c₁.Proper dialect → c₁.depth = c.depth → item c₁ = .ok (a, c₂) →
      ∃ ts, Reads dialect c₁ ts c₂ ∧ DerivesItem .written dialect m ts (as a))
    (h : items close item c = .ok (found, c')) (hc : c.Proper dialect) :
    ∃ ts r, r.kind = .symbol close ∧ Reads dialect c (ts ++ [r]) c' ∧
      DerivesItems .written dialect m ts (found.map as) := by
  unfold items at h
  rw [bind_of_ok (rounds_apply c)] at h
  obtain ⟨ts, r, rest, hfound, hr, hreads, hd⟩ := itemsFrom_sound hitem h hc rfl
  subst hfound
  exact ⟨ts, r, hr, hreads, hd⟩

theorem name_sound {m : Nat} (c₁ : Cursor) (word : String) (c₂ : Cursor)
    (hc : c₁.Proper dialect) (h : name c₁ = .ok (word, c₂)) :
    ∃ ts, Reads dialect c₁ ts c₂ ∧ DerivesItem .written dialect m ts (.name word) := by
  obtain ⟨t, ht, hreads⟩ := name_ok h hc
  exact ⟨[t], hreads, .name ht⟩

/-! ## What rules come to -/

/-- A rule for expressions that may be nested one level further in. -/
def SoundExpr (dialect : Dialect) (p : Parser Expr) : Prop :=
  ∀ c e c', c.Proper dialect → p c = .ok (e, c') →
    ∃ ts k o m, Reads dialect c ts c' ∧ DerivesExpr .written dialect k o m ts e ∧ m + 1 ≤ c.room

/-- A rule for blocks. -/
def SoundBlock (dialect : Dialect) (p : Parser (List Stmt)) : Prop :=
  ∀ c body c', c.Proper dialect → p c = .ok (body, c') →
    ∃ ts, Reads dialect c ts c' ∧ DerivesBlock .written dialect c.room ts body

/-- An expression behind what has been read has the levels of nesting from before that. -/
theorem SoundExpr.after {p : Parser Expr} (hp : SoundExpr dialect p) {c c₁ c' : Cursor}
    {ts : List Token} {e : Expr} (hts : Reads dialect c ts c₁) (h : p c₁ = .ok (e, c')) :
    ∃ us k o m, Reads dialect c₁ us c' ∧ DerivesExpr .written dialect k o m us e ∧
      m + 1 ≤ c.room := by
  obtain ⟨us, k, o, m, hus, hd, hm⟩ := hp c₁ e c' hts.proper h
  rw [hts.room] at hm
  exact ⟨us, k, o, m, hus, hd, hm⟩

theorem SoundBlock.after {p : Parser (List Stmt)} (hp : SoundBlock dialect p) {c c₁ c' : Cursor}
    {ts : List Token} {body : List Stmt} (hts : Reads dialect c ts c₁) (h : p c₁ = .ok (body, c')) :
    ∃ us, Reads dialect c₁ us c' ∧ DerivesBlock .written dialect c.room us body := by
  obtain ⟨us, hus, hb⟩ := hp c₁ body c' hts.proper h
  rw [hts.room] at hb
  exact ⟨us, hus, hb⟩

/-- A rule for statements. -/
def SoundStmt (dialect : Dialect) (top : Bool) (p : Parser Stmt) : Prop :=
  ∀ c s c', c.Proper dialect → p c = .ok (s, c') →
    ∃ ts, Reads dialect c ts c' ∧ DerivesStmt .written dialect top c.room ts s

/-- A rule for operands. -/
def SoundUnary (dialect : Dialect) (p : Parser Expr) : Prop :=
  ∀ c e c', c.Proper dialect → p c = .ok (e, c') →
    ∃ ts k o, Reads dialect c ts c' ∧ DerivesExpr .written dialect k o c.room ts e ∧ 7 ≤ k

/-- A rule for operators that bind more tightly than a precedence and follow a left operand, of which
as many operators are open as levels of nesting for them. -/
def SoundOperators (dialect : Dialect) (p : Nat → Expr → Parser Expr) : Prop :=
  ∀ least left c e c' k o n ts, c.Proper dialect → p least left c = .ok (e, c') →
    DerivesExpr .written dialect k o n ts left → spine k o + c.room ≤ n → least < k →
    Below k c.next →
    ∃ us k' o', Reads dialect c us c' ∧ DerivesExpr .written dialect k' o' n (ts ++ us) e ∧
      least < k' ∧ Below least c'.next

/-- A rule for operands with the operators between them. -/
def SoundBinary (dialect : Dialect) (p : Nat → Parser Expr) : Prop :=
  ∀ least c e c', least ≤ 6 → c.Proper dialect → p least c = .ok (e, c') →
    ∃ ts k o, Reads dialect c ts c' ∧ DerivesExpr .written dialect k o c.room ts e ∧ least < k ∧
      Below least c'.next

/-- A rule for the postfixes that follow an expression, of which as many are open as levels of nesting
for them. -/
def SoundLinks (dialect : Dialect) (p : Expr → Parser Expr) : Prop :=
  ∀ target c e c' o n ts, c.Proper dialect → p target c = .ok (e, c') →
    DerivesExpr .written dialect 8 o n ts target → o + c.room ≤ n →
    ∃ us o', Reads dialect c us c' ∧ DerivesExpr .written dialect 8 o' n (ts ++ us) e

/-- Rules that derive what they read. -/
structure Rules.Sound (dialect : Dialect) (r : Rules) : Prop where
  expression : SoundExpr dialect r.expression
  binary : SoundBinary dialect r.binary
  operators : SoundOperators dialect r.operators
  unary : SoundUnary dialect r.unary
  links : SoundLinks dialect r.links
  block : SoundBlock dialect r.block
  statement : ∀ top, SoundStmt dialect top r.statement

/-! ## Expressions -/

section

variable {expression : Parser Expr} {block : Parser (List Stmt)}

theorem function_sound (hblock : SoundBlock dialect block) {pos : Pos} {c c' : Cursor} {e : Expr}
    (h : Rules.function block pos c = .ok (e, c')) (hc : c.Proper dialect) :
    ∃ ts params body, e = .fn pos params body ∧ Reads dialect c ts c' ∧
      DerivesFunction .written dialect c.room ts params body := by
  unfold Rules.function at h
  obtain ⟨⟨⟩, c₁, hopen, h₁⟩ := bind_ok h
  obtain ⟨l, hl, hlreads⟩ := expect_ok hopen hc TokenKind.noConfusion
  obtain ⟨params, c₂, hparams, h₂⟩ := bind_ok h₁
  obtain ⟨ts, r, hr, hreads, hd⟩ := items_sound (m := c.room) .name
    (fun c₁ a c₂ hc _ h => name_sound c₁ a c₂ hc h) hparams hlreads.proper
  obtain ⟨body, c₃, hbody, h₃⟩ := bind_ok h₂
  cases h₃
  obtain ⟨us, hus, hb⟩ := hblock.after (hlreads.trans hreads) hbody
  have hall := (hlreads.trans hreads).trans hus
  exact ⟨l :: (ts ++ r :: us), params, body, rfl, by simpa using hall, .intro hl hd hr hb⟩

theorem armsFrom_sound (hexpr : SoundExpr dialect expression) (hblock : SoundBlock dialect block)
    {pos : Pos} {n : Nat} {made : List (Expr × List Stmt)} {c c' : Cursor} {e : Expr}
    (h : Rules.armsFrom expression block pos n made c = .ok (e, c')) (hc : c.Proper dialect) :
    ∃ ts arms otherwise, e = .cond pos (made.reverse ++ arms) otherwise ∧ Reads dialect c ts c' ∧
      DerivesArms .written dialect c.room ts arms otherwise := by
  induction n generalizing made c with
  | zero => cases h
  | succ n ih =>
      unfold Rules.armsFrom at h
      obtain ⟨b, c₁, helif, h₁⟩ := bind_ok h
      rcases eat_ok helif with ⟨rfl, hk, rfl⟩ | ⟨rfl, -, rfl⟩
      · rw [if_pos rfl] at h₁
        have ht := Reads.advance hc (by rw [hk]; exact TokenKind.noConfusion)
        obtain ⟨cond, c₂, hcond, h₂⟩ := bind_ok h₁
        obtain ⟨ts, k, o, m, hts, hd, hm⟩ := hexpr.after ht hcond
        obtain ⟨body, c₃, hbody, h₃⟩ := bind_ok h₂
        obtain ⟨us, hus, hb⟩ := hblock.after (ht.trans hts) hbody
        obtain ⟨vs, arms, otherwise, rfl, hvs, ha⟩ := ih h₃ hus.proper
        rw [hus.room, hts.room, ht.room] at ha
        refine ⟨c.next :: (ts ++ (us ++ vs)), (cond, body) :: arms, otherwise, ?_, ?_,
          .elseIf hk hd (fun _ => hm) hb ha⟩
        · rw [List.reverse_cons, List.append_assoc]
          rfl
        · simpa using ((ht.trans hts).trans hus).trans hvs
      rw [if_neg Bool.false_ne_true] at h₁
      obtain ⟨b, c₂, helse, h₂⟩ := bind_ok h₁
      rcases eat_ok helse with ⟨rfl, hk, rfl⟩ | ⟨rfl, -, rfl⟩
      · rw [if_pos rfl] at h₂
        have ht := Reads.advance hc (by rw [hk]; exact TokenKind.noConfusion)
        obtain ⟨body, c₃, hbody, h₃⟩ := bind_ok h₂
        cases h₃
        obtain ⟨us, hus, hb⟩ := hblock.after ht hbody
        exact ⟨_ :: us, [], some body, by rw [List.append_nil], ht.trans hus, .orElse hk hb⟩
      · rw [if_neg Bool.false_ne_true] at h₂
        cases h₂
        exact ⟨[], [], none, by rw [List.append_nil], .refl hc, .none⟩

theorem entry_sound (hexpr : SoundExpr dialect expression) {depth : Nat} (c : Cursor)
    (a : String × Expr) (c' : Cursor) (hc : c.Proper dialect) (hdepth : c.depth = depth)
    (h : Rules.entry expression c = .ok (a, c')) :
    ∃ ts, Reads dialect c ts c' ∧
      DerivesItem .written dialect (maxDepth - depth) ts (.entry a.1 a.2) := by
  rw [← hdepth]
  change ∃ ts, Reads dialect c ts c' ∧ DerivesItem .written dialect c.room ts (.entry a.1 a.2)
  have hkey : ∀ key, (c.next.kind = .name key ∨ c.next.kind = .text key) →
      (do expect (.symbol .colon); return (key, ← expression) : Parser (String × Expr)) c.advance =
        .ok (a, c') →
      ∃ ts, Reads dialect c ts c' ∧ DerivesItem .written dialect c.room ts (.entry a.1 a.2) := by
    intro key hk h
    have ht : Reads dialect c [c.next] c.advance := by
      refine .advance hc ?_
      rcases hk with hk | hk <;> rw [hk] <;> exact TokenKind.noConfusion
    obtain ⟨⟨⟩, c₁, hmark, h₁⟩ := bind_ok h
    obtain ⟨colon, hcolon, hmark⟩ := expect_ok hmark ht.proper TokenKind.noConfusion
    obtain ⟨value, c₂, hvalue, h₂⟩ := bind_ok h₁
    cases h₂
    obtain ⟨ts, k, o, m, hts, hd, hm⟩ := hexpr.after (ht.trans hmark) hvalue
    refine ⟨c.next :: colon :: ts, (ht.trans hmark).trans hts, ?_⟩
    rcases hk with hk | hk
    · exact .namedEntry hk hcolon hd fun _ => hm
    · exact .quotedEntry hk hcolon hd fun _ => hm
  unfold Rules.entry at h
  rw [bind_of_ok (take_apply c)] at h
  cases hk : c.next.kind with
  | name word =>
      rw [hk] at h
      exact hkey word (.inl hk) h
  | text value =>
      rw [hk] at h
      exact hkey value (.inr hk) h
  | _ =>
      rw [hk] at h
      cases h

theorem expr_sound (hexpr : SoundExpr dialect expression) {depth : Nat} (c : Cursor) (e : Expr)
    (c' : Cursor) (hc : c.Proper dialect) (hdepth : c.depth = depth)
    (h : expression c = .ok (e, c')) :
    ∃ ts, Reads dialect c ts c' ∧
      DerivesItem .written dialect (maxDepth - depth) ts (.expr e) := by
  obtain ⟨ts, k, o, m, hts, hd, hm⟩ := hexpr c e c' hc h
  rw [Cursor.room, hdepth] at hm
  exact ⟨ts, hts, .expr hd fun _ => hm⟩

theorem primary_sound (hexpr : SoundExpr dialect expression) (hblock : SoundBlock dialect block)
    {c c' : Cursor} {e : Expr} (h : Rules.primary expression block c = .ok (e, c'))
    (hc : c.Proper dialect) :
    ∃ ts, Reads dialect c ts c' ∧ DerivesExpr .written dialect 8 0 c.room ts e := by
  unfold Rules.primary at h
  rw [bind_of_ok (take_apply c)] at h
  have hnext : c.next.kind ≠ .done → Reads dialect c [c.next] c.advance := Reads.advance hc
  generalize hk : c.next.kind = kind at h
  rw [hk] at hnext
  cases kind with
  | number value => cases h; exact ⟨_, hnext TokenKind.noConfusion, .number hk⟩
  | text value => cases h; exact ⟨_, hnext TokenKind.noConfusion, .text hk⟩
  | name word => cases h; exact ⟨_, hnext TokenKind.noConfusion, .name hk⟩
  | done => cases h
  | keyword word =>
      have ht := hnext TokenKind.noConfusion
      cases word with
      | litTrue => cases h; exact ⟨_, ht, .litTrue hk⟩
      | litFalse => cases h; exact ⟨_, ht, .litFalse hk⟩
      | litNull => cases h; exact ⟨_, ht, .null hk⟩
      | ifThen =>
          obtain ⟨cond, c₁, hcond, h₁⟩ := bind_ok h
          obtain ⟨ts, k, o, m, hts, hd, hm⟩ := hexpr.after ht hcond
          obtain ⟨body, c₂, hbody, h₂⟩ := bind_ok h₁
          obtain ⟨us, hus, hb⟩ := hblock.after (ht.trans hts) hbody
          rw [bind_of_ok (rounds_apply c₂)] at h₂
          obtain ⟨vs, arms, otherwise, rfl, hvs, ha⟩ := armsFrom_sound hexpr hblock h₂ hus.proper
          rw [hus.room, hts.room, ht.room] at ha
          refine ⟨c.next :: (ts ++ (us ++ vs)), ?_, .conditional hk hd (fun _ => hm) hb ha⟩
          simpa using ((ht.trans hts).trans hus).trans hvs
      | _ => cases h
  | symbol s =>
      have ht := hnext TokenKind.noConfusion
      cases s with
      | atSign =>
          obtain ⟨ts, params, body, rfl, hts, hd⟩ := function_sound hblock h ht.proper
          rw [ht.room] at hd
          exact ⟨_, ht.trans hts, .function hk hd⟩
      | leftParen =>
          obtain ⟨inner, c₁, hinner, h₁⟩ := bind_ok h
          obtain ⟨ts, k, o, m, hts, hd, hm⟩ := hexpr.after ht hinner
          obtain ⟨⟨⟩, c₂, hclose, h₂⟩ := bind_ok h₁
          cases h₂
          obtain ⟨r, hr, hclose⟩ := expect_ok hclose hts.proper TokenKind.noConfusion
          exact ⟨_, (ht.trans hts).trans hclose, .group rfl hk hd hm hr⟩
      | leftBracket =>
          obtain ⟨items, c₁, hitems, h₁⟩ := bind_ok h
          cases h₁
          obtain ⟨ts, r, hr, hts, hd⟩ := items_sound .expr (expr_sound hexpr) hitems ht.proper
          rw [ht.depth] at hd
          exact ⟨_, ht.trans hts, .array hk hd hr⟩
      | leftBrace =>
          obtain ⟨entries, c₁, hentries, h₁⟩ := bind_ok h
          cases h₁
          obtain ⟨ts, r, hr, hts, hd⟩ := items_sound (fun a => .entry a.1 a.2)
            (entry_sound hexpr) hentries ht.proper
          rw [ht.depth] at hd
          exact ⟨_, ht.trans hts, .object hk hd hr⟩
      | _ => cases h

end

/-! ## Postfixes and operators -/

section

variable {inner : Rules}

/-- A postfix that is read one level of nesting further in, with the postfixes that follow it there. -/
theorem link_sound (hinner : inner.Sound dialect) {c c₁ c₂ : Cursor} {target e : Expr} {o n : Nat}
    {ts vs : List Token} (hvs : Reads dialect c.deeper vs c₂)
    (h : inner.links target c₂ = .ok (e, c₁))
    (hd : DerivesExpr .written dialect 8 (o + 1) n (ts ++ vs) target)
    (hdepth : c.depth + 1 ≤ maxDepth) (hroom : o + c.room ≤ n) :
    ∃ us o', Reads dialect c us { c₁ with depth := c₁.depth - 1 } ∧
      DerivesExpr .written dialect 8 o' n (ts ++ us) e := by
  -- One more operator is open, and one level less is left for those behind it.
  have hroom₂ : o + 1 + c₂.room ≤ n := by
    rw [hvs.room, Cursor.room, Cursor.deeper_depth]
    rw [Cursor.room] at hroom
    omega
  obtain ⟨us, o', hus, he⟩ := hinner.links _ _ _ _ (o + 1) n _ hvs.proper h hd hroom₂
  exact ⟨vs ++ us, o', (hvs.trans hus).close, by simpa using he⟩

theorem links_sound (hinner : inner.Sound dialect) :
    SoundLinks dialect (Rules.linksRule inner) := by
  intro target c e c' o n ts hc h hd hroom
  have hstop : Except.ok (target, c) = (Except.ok (e, c') : Except Fault (Expr × Cursor)) →
      ∃ us o', Reads dialect c us c' ∧ DerivesExpr .written dialect 8 o' n (ts ++ us) e := by
    intro h
    cases h
    exact ⟨[], o, .refl hc, by rwa [List.append_nil]⟩
  have hnext : c.next.kind ≠ .done → Reads dialect c.deeper [c.next] c.deeper.advance :=
    Reads.advance hc.deeper
  have hlevels : o + (maxDepth - c.depth) ≤ n := hroom
  unfold Rules.linksRule at h
  rw [bind_of_ok (peek_apply c)] at h
  generalize hk : c.next.kind = kind at h
  generalize hb : c.next.afterBreak = brk at h
  rw [hk] at hnext
  cases kind with
  | symbol s =>
      have ht := hnext TokenKind.noConfusion
      cases s with
      | leftParen =>
          cases brk with
          | true => exact hstop h
          | false =>
              obtain ⟨hdepth, c₁, h₁, rfl⟩ := nested_ok h
              rw [bind_of_ok (take_apply _)] at h₁
              obtain ⟨args, c₂, hargs, h₂⟩ := bind_ok h₁
              obtain ⟨ts', r, hr, hts, has⟩ := items_sound .expr
                (expr_sound hinner.expression) hargs ht.proper
              rw [ht.depth, Cursor.deeper_depth] at has
              exact link_sound hinner (ht.trans hts) h₂ (.call hd (fun _ => rfl)
                (fun _ => Nat.le_refl n) hk hb has (fun _ => by omega) hr) hdepth hroom
      | leftBracket =>
          cases brk with
          | true => exact hstop h
          | false =>
              obtain ⟨hdepth, c₁, h₁, rfl⟩ := nested_ok h
              rw [bind_of_ok (take_apply _)] at h₁
              obtain ⟨index, c₂, hindex, h₂⟩ := bind_ok h₁
              obtain ⟨ts', k', o', m', hts, hi, hm⟩ := hinner.expression.after ht hindex
              obtain ⟨⟨⟩, c₃, hclose, h₃⟩ := bind_ok h₂
              obtain ⟨r, hr, hclose⟩ := expect_ok hclose hts.proper TokenKind.noConfusion
              have hm : m' + 1 ≤ maxDepth - (c.depth + 1) := hm
              exact link_sound hinner (ht.trans (hts.trans hclose)) h₃ (.index hd (fun _ => rfl)
                (fun _ => Nat.le_refl n) hk hb hi (fun _ => by omega) hr) hdepth hroom
      | dot =>
          obtain ⟨hdepth, c₁, h₁, rfl⟩ := nested_ok h
          rw [bind_of_ok (take_apply _)] at h₁
          obtain ⟨word, c₂, hword, h₂⟩ := bind_ok h₁
          obtain ⟨t, htk, hts⟩ := name_ok hword ht.proper
          exact link_sound hinner (ht.trans hts) h₂ (.property hd (fun _ => rfl)
            (fun _ => Nat.le_refl n) hk htk (fun _ => by omega)) hdepth hroom
      | _ => exact hstop h
  | _ => exact hstop h

theorem Token.kind_of_unaryOp? {t : Token} {op : UnaryOp} (h : t.unaryOp? = some op) :
    t.kind ≠ .done := by
  intro hk
  rw [Token.unaryOp?, hk] at h
  cases h

theorem Token.kind_of_binaryOp? {t : Token} {op : BinaryOp} (h : t.binaryOp? = some op) :
    t.kind ≠ .done := by
  intro hk
  rw [Token.binaryOp?, hk] at h
  cases h

theorem unary_sound (hinner : inner.Sound dialect) {postfixed : Parser Expr}
    (hpost : SoundUnary dialect postfixed) : SoundUnary dialect (Rules.unaryRule inner postfixed) := by
  intro c e c' hc h
  unfold Rules.unaryRule at h
  rw [bind_of_ok (peek_apply c)] at h
  cases hop : c.next.unaryOp? with
  | none =>
      rw [hop] at h
      exact hpost _ _ _ hc h
  | some op =>
      rw [hop] at h
      dsimp only at h
      rw [bind_of_ok (take_apply c)] at h
      have ht := Reads.advance hc (Token.kind_of_unaryOp? hop)
      obtain ⟨operand, c₁, hoperand, h₁⟩ := bind_ok h
      cases h₁
      obtain ⟨hdepth, c₂, h₂, rfl⟩ := nested_ok hoperand
      obtain ⟨ts, k, o, hts, hd, hk⟩ := hinner.unary _ _ _ ht.proper.deeper h₂
      refine ⟨_, 7, 0, ht.trans hts.close, .unary hop hd (fun _ => hk) (fun _ => ?_), Nat.le_refl _⟩
      rw [ht.depth] at hdepth
      rw [Cursor.room, Cursor.room, Cursor.deeper_depth, ht.depth]
      omega

theorem operators_sound (hinner : inner.Sound dialect) :
    SoundOperators dialect (Rules.operatorsRule inner) := by
  intro least left c e c' k o n ts hc h hd hroom hleast hbelow
  unfold Rules.operatorsRule at h
  rw [bind_of_ok (peek_apply c)] at h
  cases hop : c.next.binaryOp? with
  | none =>
      rw [hop] at h
      cases h
      exact ⟨[], k, o, .refl hc, by rwa [List.append_nil], hleast, fun op h => by rw [hop] at h; cases h⟩
  | some op =>
      rw [hop] at h
      dsimp only at h
      by_cases hle : op.precedence ≤ least
      · rw [if_pos hle] at h
        cases h
        refine ⟨[], k, o, .refl hc, by rwa [List.append_nil], hleast, fun op' h => ?_⟩
        rw [hop] at h
        cases h
        exact hle
      · rw [if_neg hle, bind_of_ok (take_apply c)] at h
        have ht := Reads.advance hc (Token.kind_of_binaryOp? hop)
        obtain ⟨hdepth, c₁, h₁, rfl⟩ := nested_ok h
        obtain ⟨right, c₂, hright, h₂⟩ := bind_ok h₁
        obtain ⟨ts', k', o', hts, hr, hk', hbelow'⟩ :=
          hinner.binary _ _ _ _ (precedence_le op) ht.proper.deeper hright
        rw [ht.depth] at hdepth
        rw [Cursor.room] at hroom
        have hroom₁ : c.advance.deeper.room = maxDepth - (c.depth + 1) := by
          rw [Cursor.room, Cursor.deeper_depth, ht.depth]
        have hspine : spine op.precedence (spine k o + 1) = spine k o + 1 :=
          if_pos (Nat.lt_succ_of_le (precedence_le op))
        obtain ⟨us, k'', o'', hus, he, hlt, hstop⟩ :=
          hinner.operators least _ c₂ _ _ op.precedence (spine k o + 1) n _ hts.proper h₂
            (.binary hd (fun _ => hbelow op hop) (fun _ => Nat.le_refl n) hop hr (fun _ => hk')
              fun _ => by omega)
            (by rw [hspine, hts.room, hroom₁]; omega) (by omega) hbelow'
        refine ⟨c.next :: (ts' ++ us), k'', o'', ?_, by simpa using he, hlt, hstop⟩
        simpa using ht.trans (hts.trans hus).close

end

/-! ## Statements -/

theorem skip_sound {t : Token} {ts : List Token} (h : Ended dialect t ts) :
    ∃ semicolons, (∀ u ∈ semicolons, u.kind = .symbol .semicolon) ∧
      t :: ts = semicolons ++ (Cursor.skip .semicolon t ts).1 :: (Cursor.skip .semicolon t ts).2 ∧
      Ended dialect (Cursor.skip .semicolon t ts).1 (Cursor.skip .semicolon t ts).2 := by
  induction h with
  | last ht => exact ⟨[], (fun _ hu => nomatch hu), rfl, .last ht⟩
  | @cons t u ts ht hd h ih =>
      unfold Cursor.skip
      by_cases hk : t.kind = .symbol .semicolon
      · rw [if_pos hk]
        obtain ⟨semicolons, hall, heq, hended⟩ := ih
        refine ⟨t :: semicolons, ?_, by rw [heq]; rfl, hended⟩
        intro v hv
        rcases List.mem_cons.1 hv with rfl | hv
        · exact hk
        · exact hall v hv
      · rw [if_neg hk]
        exact ⟨[], (fun _ hu => nomatch hu), rfl, .cons ht hd h⟩

/-- Skipping semicolons reads them. -/
theorem skipSemicolons_ok {c c' : Cursor} (h : skipSemicolons c = .ok ((), c'))
    (hc : c.Proper dialect) : ∃ semicolons, (∀ u ∈ semicolons, u.kind = .symbol .semicolon) ∧
      Reads dialect c semicolons c' := by
  unfold skipSemicolons at h
  cases h
  obtain ⟨semicolons, hall, heq, hended⟩ := skip_sound hc
  refine ⟨semicolons, hall, ?_, hended⟩
  obtain ⟨t, ts, depth⟩ := c
  dsimp only at heq hended ⊢
  generalize Cursor.skip .semicolon t ts = r at heq hended
  cases semicolons with
  | nil =>
      cases heq
      rfl
  | cons u us =>
      cases heq
      rfl

theorem expectSeparator_ok {close : TokenKind} {c c' : Cursor}
    (h : expectSeparator close c = .ok ((), c')) :
    c' = c ∧ (c.next.afterBreak = true ∨ c.next.kind = close ∨
      c.next.kind = .symbol .semicolon) := by
  unfold expectSeparator at h
  rw [bind_of_ok (peek_apply c)] at h
  by_cases hsep : (c.next.afterBreak || c.next.kind = close || c.next.kind = .symbol .semicolon) = true
  · rw [if_pos hsep] at h
    cases h
    exact ⟨rfl, by simpa [or_assoc] using hsep⟩
  · rw [if_neg hsep] at h
    cases h

theorem DerivesStmts.semicolons {top : Bool} {n : Nat} {us ts : List Token} {body : List Stmt}
    (hus : ∀ u ∈ us, u.kind = .symbol .semicolon)
    (h : DerivesStmts .written dialect top n ts body) :
    DerivesStmts .written dialect top n (us ++ ts) body := by
  induction us with
  | nil => exact h
  | cons u us ih =>
      exact .semicolon rfl (hus u List.mem_cons_self)
        (ih fun v hv => hus v (List.mem_cons_of_mem _ hv))

/-- The statements of a list up to the token that closes it. -/
theorem statementsFrom_sound {close : TokenKind} {statement : Parser Stmt} {top : Bool} {n m : Nat}
    {made found : List Stmt} {c c' : Cursor} (hclose : close ≠ .symbol .semicolon)
    (hstmt : SoundStmt dialect top statement)
    (h : statementsFrom close statement n made c = .ok (found, c')) (hc : c.Proper dialect)
    (hm : c.room = m) :
    ∃ ts c₁ rest, found = made.reverse ++ rest ∧ Reads dialect c ts c₁ ∧ c₁.next.kind = close ∧
      c' = c₁.advance ∧ DerivesStmts .written dialect top m ts rest ∧
      (c.next.kind = close → ts = []) := by
  induction n generalizing made c with
  | zero => cases h
  | succ n ih =>
      unfold statementsFrom at h
      obtain ⟨⟨⟩, c₁, hskip, h₁⟩ := bind_ok h
      obtain ⟨us, hus, hreads⟩ := skipSemicolons_ok hskip hc
      have hnone : c.next.kind = close → us = [] := by
        intro hk
        cases us with
        | nil => rfl
        | cons u us =>
            have := hus u List.mem_cons_self
            rw [hreads.head rfl, hk] at this
            exact absurd this hclose
      obtain ⟨b, c₂, hend, h₂⟩ := bind_ok h₁
      rcases eat_ok hend with ⟨rfl, hk, rfl⟩ | ⟨rfl, hk, rfl⟩
      · cases h₂
        refine ⟨us, c₁, [], (List.append_nil _).symm, hreads, hk, rfl, ?_, hnone⟩
        simpa using DerivesStmts.semicolons hus .nil
      rw [if_neg Bool.false_ne_true] at h₂
      obtain ⟨x, c₃, hx, h₃⟩ := bind_ok h₂
      obtain ⟨ts, hts, hd⟩ := hstmt _ _ _ hreads.proper hx
      obtain ⟨⟨⟩, c₄, hsep, h₄⟩ := bind_ok h₃
      obtain ⟨rfl, hsep⟩ := expectSeparator_ok hsep
      have hroom : c₄.room = m := by rw [hts.room, hreads.room, hm]
      obtain ⟨vs, c₅, rest, hfound, hvs, hk₅, hc', hds, hempty⟩ := ih h₄ hts.proper hroom
      rw [hreads.room, hm] at hd
      refine ⟨us ++ (ts ++ vs), c₅, x :: rest, ?_, hreads.trans (hts.trans hvs), hk₅, hc',
        .semicolons hus (.cons hd hds fun _ t ht => ?_), fun hkc => ?_⟩
      · rw [hfound, List.reverse_cons, List.append_assoc]
        rfl
      · have hhead := hvs.head ht
        subst hhead
        rcases hsep with hbreak | hkc | hsemi
        · exact .inl hbreak
        · rw [hempty hkc] at ht
          cases ht
        · exact .inr hsemi
      · have hstart := hreads.start
        rw [hnone hkc] at hstart
        exact absurd (by rw [← hkc, hstart]; rfl) hk

/-- A statement in a block, where no metadata may stand. -/
abbrev inBlock (statement : Parser Stmt) : Parser Stmt := do
  let token ← peek
  if token.kind = .symbol .metadata then fail .metadataInBlock token.pos
  statement

theorem inBlock_sound {statement : Parser Stmt} (hstmt : SoundStmt dialect false statement) :
    SoundStmt dialect false (inBlock statement) := by
  intro c s c' hc h
  unfold inBlock at h
  rw [bind_of_ok (peek_apply c)] at h
  by_cases hk : c.next.kind = .symbol .metadata
  · rw [if_pos hk] at h
    cases h
  · rw [if_neg hk] at h
    exact hstmt c s c' hc h

theorem block_sound {inner : Rules} (hinner : inner.Sound dialect) :
    SoundBlock dialect (Rules.blockRule inner) := by
  intro c body c' hc h
  unfold Rules.blockRule at h
  obtain ⟨⟨⟩, c₁, hopen, h₁⟩ := bind_ok h
  obtain ⟨l, hl, hopen⟩ := expect_ok hopen hc TokenKind.noConfusion
  obtain ⟨hdepth, c₂, h₂, rfl⟩ := nested_ok h₁
  unfold statements at h₂
  rw [bind_of_ok (rounds_apply _)] at h₂
  have hstmt := inBlock_sound (hinner.statement false)
  obtain ⟨ts, c₃, rest, hbody, hts, hk, rfl, hd, -⟩ :=
    statementsFrom_sound (by simp) hstmt h₂ hopen.proper.deeper rfl
  obtain rfl : body = rest := hbody
  have hr := Reads.advance hts.proper (by rw [hk]; exact TokenKind.noConfusion)
  refine ⟨l :: (ts ++ [c₃.next]), hopen.trans (hts.trans hr).close, .intro hl hd (fun _ => ?_) hk⟩
  rw [hopen.depth] at hdepth
  rw [Cursor.room, Cursor.room, Cursor.deeper_depth, hopen.depth]
  omega

section

variable {expression : Parser Expr} {block : Parser (List Stmt)}

theorem definition_sound (hexpr : SoundExpr dialect expression) (top isMutable : Bool)
    {c c' : Cursor} {s : Stmt} (hk : c.next.kind = (dialect.defining isMutable).1)
    (ht : Reads dialect c [c.next] c.advance)
    (h : Rules.definition expression c.next.pos isMutable (dialect.defining isMutable).2 c.advance =
      .ok (s, c')) :
    ∃ ts, Reads dialect c ts c' ∧ DerivesStmt .written dialect top c.room ts s := by
  unfold Rules.definition at h
  obtain ⟨word, c₁, hword, h₁⟩ := bind_ok h
  obtain ⟨u, hu, hword⟩ := name_ok hword ht.proper
  obtain ⟨⟨⟩, c₂, hmark, h₂⟩ := bind_ok h₁
  obtain ⟨t, htk, hmark⟩ := expect_ok hmark hword.proper TokenKind.noConfusion
  obtain ⟨value, c₃, hvalue, h₃⟩ := bind_ok h₂
  cases h₃
  have hbefore := ht.trans (hword.trans hmark)
  obtain ⟨ts, k, o, m, hts, hd, hm⟩ := hexpr.after hbefore hvalue
  exact ⟨c.next :: u :: t :: ts, hbefore.trans hts,
    .define hk hu htk hd fun _ => hm⟩

theorem loopVariable_sound {word : String} {c c' : Cursor}
    (h : Rules.loopVariable dialect c = .ok (word, c')) (hc : c.Proper dialect) :
    ∃ v u, v.kind = (dialect.defining false).1 ∧ u.kind = .name word ∧
      Reads dialect c [v, u] c' := by
  unfold Rules.loopVariable at h
  cases dialect with
  | modern =>
      obtain ⟨⟨⟩, c₁, hmark, h₁⟩ := bind_ok h
      obtain ⟨v, hv, hmark⟩ := expect_ok hmark hc TokenKind.noConfusion
      obtain ⟨u, hu, hword⟩ := name_ok h₁ hmark.proper
      exact ⟨v, u, hv, hu, hmark.trans hword⟩
  | legacy =>
      obtain ⟨⟨⟩, c₁, hmark, h₁⟩ := bind_ok h
      obtain ⟨v, hv, hmark⟩ := expect_ok hmark hc TokenKind.noConfusion
      obtain ⟨u, hu, hword⟩ := name_ok h₁ hmark.proper
      exact ⟨v, u, hv, hu, hmark.trans hword⟩

/-- The variable, the bound and the body of a loop that has a bound. -/
theorem loopParts_sound (hexpr : SoundExpr dialect expression) (hblock : SoundBlock dialect block)
    {make : String → Expr → List Stmt → Stmt} {c c' : Cursor} {s : Stmt}
    (h : (do
      let var ← Rules.loopVariable dialect
      expect (.symbol .comma)
      let bound ← expression
      return make var bound (← block) : Parser Stmt) c = .ok (s, c')) (hc : c.Proper dialect) :
    ∃ v u word comma ts k o m bound us body, s = make word bound body ∧
      v.kind = (dialect.defining false).1 ∧ u.kind = .name word ∧ comma.kind = .symbol .comma ∧
      Reads dialect c (v :: u :: comma :: (ts ++ us)) c' ∧
      DerivesExpr .written dialect k o m ts bound ∧ m + 1 ≤ c.room ∧
      DerivesBlock .written dialect c.room us body := by
  obtain ⟨word, c₁, hvar, h₁⟩ := bind_ok h
  obtain ⟨v, u, hv, hu, hvar⟩ := loopVariable_sound hvar hc
  obtain ⟨⟨⟩, c₂, hcomma, h₂⟩ := bind_ok h₁
  obtain ⟨comma, hk, hcomma⟩ := expect_ok hcomma hvar.proper TokenKind.noConfusion
  obtain ⟨bound, c₃, hbound, h₃⟩ := bind_ok h₂
  have hbefore := hvar.trans hcomma
  obtain ⟨ts, k, o, m, hts, hd, hm⟩ := hexpr.after hbefore hbound
  obtain ⟨body, c₄, hbody, h₄⟩ := bind_ok h₃
  cases h₄
  obtain ⟨us, hus, hb⟩ := hblock.after (hbefore.trans hts) hbody
  exact ⟨v, u, word, comma, ts, k, o, m, bound, us, body, rfl, hv, hu, hk,
    hbefore.trans (hts.trans hus), hd, hm, hb⟩

theorem Token.kind_of_assignOp? {t : Token} {op : AssignOp} (h : t.assignOp? dialect = some op) :
    t.kind ≠ .done := by
  intro hk
  unfold Token.assignOp? at h
  rw [hk] at h
  cases dialect <;> cases h

theorem evaluation_sound (hexpr : SoundExpr dialect expression) (top : Bool) {c c' : Cursor}
    {s : Stmt} (h : Rules.evaluation dialect expression c = .ok (s, c')) (hc : c.Proper dialect) :
    ∃ ts, Reads dialect c ts c' ∧ DerivesStmt .written dialect top c.room ts s := by
  unfold Rules.evaluation at h
  obtain ⟨target, c₁, htarget, h₁⟩ := bind_ok h
  obtain ⟨ts, k, o, m, hts, hd, hm⟩ := hexpr _ _ _ hc htarget
  rw [bind_of_ok (peek_apply c₁)] at h₁
  cases hop : c₁.next.assignOp? dialect with
  | none =>
      rw [hop] at h₁
      cases h₁
      exact ⟨ts, hts, .eval hd fun _ => hm⟩
  | some op =>
      rw [hop] at h₁
      dsimp only at h₁
      by_cases hplace : target.isPlace = true
      · rw [if_pos hplace, bind_of_ok (take_apply c₁)] at h₁
        have ht := Reads.advance hts.proper (Token.kind_of_assignOp? hop)
        obtain ⟨value, c₂, hvalue, h₂⟩ := bind_ok h₁
        cases h₂
        obtain ⟨us, k', o', m', hus, hd', hm'⟩ := hexpr.after (hts.trans ht) hvalue
        exact ⟨_, hts.trans (ht.trans hus),
          .assign hd (fun _ => hm) hplace hop hd' fun _ => hm'⟩
      · rw [if_neg hplace] at h₁
        cases h₁

theorem Cursor.Proper.advance_next {c : Cursor} (hc : c.Proper dialect)
    (hnext : c.next.kind ≠ .done) : c.advance.next = c.second := by
  obtain ⟨t, ts, depth⟩ := c
  cases hc with
  | last ht => exact absurd ht hnext
  | cons _ _ _ => rfl

theorem defining_of_keyword {word : Keyword}
    (h : (TokenKind.keyword word).Belongs dialect) :
    (word = .constDef → dialect.defining false = (.keyword .constDef, .assign)) ∧
      (word = .varDef → dialect.defining true = (.keyword .varDef, .assign)) := by
  refine ⟨?_, ?_⟩
  · rintro rfl
    cases dialect with
    | modern => rfl
    | legacy => cases h
  · rintro rfl
    cases dialect with
    | modern => rfl
    | legacy => cases h

theorem defining_of_symbol {s : Symbol} (h : (TokenKind.symbol s).Belongs dialect) :
    (s = .hash → dialect.defining false = (.symbol .hash, .assign)) ∧
      (s = .dollar → dialect.defining true = (.symbol .dollar, .leftArrow)) := by
  refine ⟨?_, ?_⟩
  · rintro rfl
    cases dialect with
    | legacy => rfl
    | modern => exact absurd h (by unfold TokenKind.Belongs; decide)
  · rintro rfl
    cases dialect with
    | legacy => rfl
    | modern => exact absurd h (by unfold TokenKind.Belongs; decide)

/-- A return gives a value back unless an end is in front of it. -/
theorem back_sound (hexpr : SoundExpr dialect expression) (top : Bool) {pos : Pos} {t : Token}
    {c c₁ c' : Cursor} {s : Stmt} (ht : Reads dialect c [t] c₁) (hk : t.kind = .keyword .returnBack)
    (hpos : t.pos = pos)
    (h : (do
      if ← atEnd then return .back pos none
      else return .back pos (some (← expression)) : Parser Stmt) c₁ = .ok (s, c')) :
    ∃ ts, Reads dialect c ts c' ∧ DerivesStmt .written dialect top c.room ts s := by
  subst hpos
  obtain ⟨b, c₂, hend, h₁⟩ := bind_ok h
  unfold atEnd at hend
  rw [bind_of_ok (peek_apply _)] at hend
  cases hend
  split at h₁
  · cases h₁
    exact ⟨_, ht, .back hk⟩
  · next hgo =>
      obtain ⟨value, c₂, hvalue, h₂⟩ := bind_ok h₁
      cases h₂
      obtain ⟨ts, k, o, m, hts, hd, hm⟩ := hexpr.after ht hvalue
      refine ⟨_, ht.trans hts, .backWith hk hd (fun _ => hm) fun _ u hu => ?_⟩
      rw [hts.head hu]
      simp only [Bool.or_eq_true, not_or, Bool.not_eq_true] at hgo
      exact hgo.1.1.1

/-- A statement that starts with a keyword. -/
theorem keywordStatement_sound (hexpr : SoundExpr dialect expression)
    (hblock : SoundBlock dialect block) (top : Bool) {word : Keyword} {c c' : Cursor} {s : Stmt}
    (hc : c.Proper dialect) (hk : c.next.kind = .keyword word)
    (h : Rules.statementRule dialect expression block c = .ok (s, c')) :
    ∃ ts, Reads dialect c ts c' ∧ DerivesStmt .written dialect top c.room ts s := by
  have ht : Reads dialect c [c.next] c.advance :=
    .advance hc (by rw [hk]; exact TokenKind.noConfusion)
  have hdef := defining_of_keyword (hk ▸ hc.belongs)
  unfold Rules.statementRule at h
  rw [bind_of_ok (get_apply c)] at h
  simp only [hk] at h
  cases word with
  | constDef =>
      refine definition_sound hexpr top false (by rw [hk, hdef.1 rfl]) ht ?_
      rw [hdef.1 rfl]
      exact h
  | varDef =>
      refine definition_sound hexpr top true (by rw [hk, hdef.2 rfl]) ht ?_
      rw [hdef.2 rfl]
      exact h
  | returnBack => exact back_sound hexpr top ht hk rfl h
  | breakOut => cases h; exact ⟨_, ht, .leave hk⟩
  | continueOn => cases h; exact ⟨_, ht, .again hk⟩
  | loop =>
      dsimp only at h
      rw [bind_of_ok (take_apply c)] at h
      obtain ⟨body, c₁, hbody, h₁⟩ := bind_ok h
      cases h₁
      obtain ⟨ts, hts, hd⟩ := hblock.after ht hbody
      exact ⟨_, ht.trans hts, .loop hk hd⟩
  | each =>
      dsimp only at h
      rw [bind_of_ok (take_apply c)] at h
      obtain ⟨v, u, word, comma, ts, k, o, m, items, us, body, rfl, hv, hu, hcomma, hts, hd, hm,
        hb⟩ := loopParts_sound hexpr hblock h ht.proper
      rw [ht.room] at hm hb
      exact ⟨_, ht.trans hts, .each hk hv hu hcomma hd (fun _ => hm) hb⟩
  | forCount =>
      dsimp only at h
      rw [bind_of_ok (take_apply c)] at h
      obtain ⟨v, u, word, comma, ts, k, o, m, times, us, body, rfl, hv, hu, hcomma, hts, hd, hm,
        hb⟩ := loopParts_sound hexpr hblock h ht.proper
      rw [ht.room] at hm hb
      exact ⟨_, ht.trans hts, .count hk hv hu hcomma hd (fun _ => hm) hb⟩
  | _ => exact evaluation_sound hexpr top h hc

/-- A statement that starts with a symbol. -/
theorem symbolStatement_sound (hexpr : SoundExpr dialect expression)
    (hblock : SoundBlock dialect block) (top : Bool) {symbol : Symbol} {c c' : Cursor} {s : Stmt}
    (hc : c.Proper dialect) (hk : c.next.kind = .symbol symbol)
    (h : Rules.statementRule dialect expression block c = .ok (s, c')) :
    ∃ ts, Reads dialect c ts c' ∧ DerivesStmt .written dialect top c.room ts s := by
  have ht : Reads dialect c [c.next] c.advance :=
    .advance hc (by rw [hk]; exact TokenKind.noConfusion)
  have hdef := defining_of_symbol (hk ▸ hc.belongs)
  unfold Rules.statementRule at h
  rw [bind_of_ok (get_apply c)] at h
  simp only [hk] at h
  cases symbol with
  | out =>
      dsimp only at h
      rw [bind_of_ok (take_apply c)] at h
      obtain ⟨value, c₁, hvalue, h₁⟩ := bind_ok h
      cases h₁
      obtain ⟨ts, k, o, m, hts, hd, hm⟩ := hexpr.after ht hvalue
      exact ⟨_, ht.trans hts, .out hk hd fun _ => hm⟩
  | hash =>
      refine definition_sound hexpr top false (by rw [hk, hdef.1 rfl]) ht ?_
      rw [hdef.1 rfl]
      exact h
  | dollar =>
      refine definition_sound hexpr top true (by rw [hk, hdef.2 rfl]) ht ?_
      rw [hdef.2 rfl]
      exact h
  | atSign =>
      dsimp only at h
      generalize hk₂ : c.second.kind = kind at h
      cases kind with
      | name word =>
          dsimp only at h
          rw [bind_of_ok (take_apply c), bind_of_ok (take_apply _)] at h
          obtain ⟨f, c₁, hf, h₁⟩ := bind_ok h
          cases h₁
          have hu : c.advance.next.kind = .name word := by
            rw [hc.advance_next (by rw [hk]; exact TokenKind.noConfusion)]
            exact hk₂
          have hname := Reads.advance ht.proper (by rw [hu]; exact TokenKind.noConfusion)
          obtain ⟨ts, params, body, rfl, hts, hd⟩ := function_sound hblock hf hname.proper
          rw [hname.room, ht.room] at hd
          exact ⟨_, ht.trans (hname.trans hts), .defineFunction hk hu hd⟩
      | _ => exact evaluation_sound hexpr top h hc
  | _ => exact evaluation_sound hexpr top h hc

theorem statement_sound (hexpr : SoundExpr dialect expression) (hblock : SoundBlock dialect block)
    (top : Bool) : SoundStmt dialect top (Rules.statementRule dialect expression block) := by
  intro c s c' hc h
  cases hk : c.next.kind with
  | keyword word => exact keywordStatement_sound hexpr hblock top hc hk h
  | symbol symbol => exact symbolStatement_sound hexpr hblock top hc hk h
  | _ =>
      unfold Rules.statementRule at h
      rw [bind_of_ok (get_apply c)] at h
      simp only [hk] at h
      exact evaluation_sound hexpr top h hc

end

/-! ## All rules -/

theorem around_sound {inner : Rules} (hinner : inner.Sound dialect) :
    (Rules.around dialect inner).Sound dialect := by
  have hexpr : SoundExpr dialect (nested (inner.binary 0)) := by
    intro c e c' hc h
    obtain ⟨hdepth, c₁, h₁, rfl⟩ := nested_ok h
    obtain ⟨ts, k, o, hts, hd, -, -⟩ := hinner.binary 0 _ _ _ (Nat.zero_le _) hc.deeper h₁
    refine ⟨ts, k, o, _, hts.close, hd, ?_⟩
    rw [Cursor.room, Cursor.room, Cursor.deeper_depth]
    omega
  have hblock : SoundBlock dialect (Rules.blockRule inner) := block_sound hinner
  have hpost : SoundUnary dialect
      (Rules.primary (nested (inner.binary 0)) (Rules.blockRule inner) >>= Rules.linksRule inner) := by
    intro c e c' hc h
    obtain ⟨target, c₁, htarget, h₁⟩ := bind_ok h
    obtain ⟨ts, hts, hd⟩ := primary_sound hexpr hblock htarget hc
    obtain ⟨us, o, hus, hd⟩ := links_sound hinner _ _ _ _ 0 c.room ts hts.proper h₁ hd
      (by rw [hts.room]; omega)
    exact ⟨_, 8, o, hts.trans hus, hd, by decide⟩
  have hunary := unary_sound hinner hpost
  refine ⟨hexpr, ?_, operators_sound hinner, hunary, links_sound hinner, hblock,
    statement_sound hexpr hblock⟩
  intro least c e c' hleast hc h
  obtain ⟨left, c₁, hleft, h₁⟩ := bind_ok h
  obtain ⟨ts, k, o, hts, hd, hk⟩ := hunary _ _ _ hc hleft
  have hspine : spine k o = 0 := if_neg (by omega)
  obtain ⟨us, k', o', hus, he, hlt, hstop⟩ := operators_sound hinner least _ _ _ _ k o c.room ts
    hts.proper h₁ hd (by rw [hspine, hts.room]; omega) (by omega)
    fun op _ => Nat.le_trans (precedence_le op) (by omega)
  exact ⟨_, k', o', hts.trans hus, he, hlt, hstop⟩

theorem withRoom_sound (dialect : Dialect) (n : Nat) :
    (Rules.withRoom dialect n).Sound dialect := by
  induction n with
  | zero =>
      refine ⟨?_, ?_, ?_, ?_, ?_, ?_, ?_⟩
      · exact fun c e c' _ h => nomatch h
      · exact fun least c e c' _ _ h => nomatch h
      · exact fun least left c e c' k o n ts _ h => nomatch h
      · exact fun c e c' _ h => nomatch h
      · exact fun target c e c' o n ts _ h => nomatch h
      · exact fun c body c' _ h => nomatch h
      · exact fun top c s c' _ h => nomatch h
  | succ n ih => exact around_sound ih

/-! ## Programs -/

theorem metadata_sound {expression : Parser Expr} (hexpr : SoundExpr dialect expression)
    {c c' : Cursor} {s : Stmt} (hk : c.next.kind = .symbol .metadata)
    (h : metadata expression c = .ok (s, c')) (hc : c.Proper dialect) :
    ∃ ts, Reads dialect c ts c' ∧ DerivesStmt .written dialect true c.room ts s := by
  have ht := Reads.advance hc (by rw [hk]; exact TokenKind.noConfusion)
  unfold metadata at h
  rw [bind_of_ok (take_apply c), bind_of_ok (peek_apply _)] at h
  have hvalue : ∀ name? ts c₁, (do
      let value ← expression
      if value.isStatic then return .metadata c.next.pos name? value
      else fail .metadataNotLiteral value.pos : Parser Stmt) c₁ = .ok (s, c') →
      Reads dialect c ts c₁ →
      ∃ us k o m value, s = .metadata c.next.pos name? value ∧ Reads dialect c₁ us c' ∧
        DerivesExpr .written dialect k o m us value ∧ m + 1 ≤ c.room ∧ value.isStatic = true := by
    intro name? ts c₁ h hts
    obtain ⟨value, c₂, hvalue, h₁⟩ := bind_ok h
    obtain ⟨us, k, o, m, hus, hd, hm⟩ := hexpr.after hts hvalue
    by_cases hstatic : value.isStatic = true
    · rw [if_pos hstatic] at h₁
      cases h₁
      exact ⟨us, k, o, m, value, rfl, hus, hd, hm, hstatic⟩
    · rw [if_neg hstatic] at h₁
      cases h₁
  generalize hu : c.advance.next.kind = kind at h
  cases kind with
  | name word =>
      have hname := Reads.advance ht.proper (by rw [hu]; exact TokenKind.noConfusion)
      obtain ⟨ts, k, o, m, value, rfl, hts, hd, hm, hstatic⟩ :=
        hvalue (some word) _ c.advance.advance h (ht.trans hname)
      exact ⟨_, ht.trans (hname.trans hts), .namedMetadata hk hu hd (fun _ => hm) hstatic⟩
  | _ =>
      obtain ⟨ts, k, o, m, value, rfl, hts, hd, hm, hstatic⟩ :=
        hvalue none _ c.advance h ht
      exact ⟨_, ht.trans hts, .metadata hk hd (fun _ => hm) hstatic⟩

theorem topStatement_sound {rules : Rules} (hrules : rules.Sound dialect) :
    SoundStmt dialect true (topStatement rules) := by
  intro c s c' hc h
  unfold topStatement at h
  obtain ⟨b, c₁, hat, h₁⟩ := bind_ok h
  unfold at? at hat
  rw [bind_of_ok (get_apply c)] at hat
  cases hat
  by_cases hk : c.next.kind = .symbol .metadata
  · rw [if_pos (by simpa using hk)] at h₁
    exact metadata_sound hrules.expression hk h₁ hc
  · rw [if_neg (by simpa using hk)] at h₁
    exact hrules.statement true c s c' hc h₁

/-- The tokens of a text are a derivation of the program that they are parsed to, up to the mark of
the end. -/
theorem parseTokens_sound {t : Token} {ts : List Token} {program : List Stmt}
    (hts : Ended dialect t ts) (h : parseTokens dialect (t :: ts) = .ok program) :
    ∃ body last, t :: ts = body ++ [last] ∧ last.kind = .done ∧
      DerivesStmts .written dialect true maxDepth body program := by
  change (StateT.run (statements .done (topStatement (Rules.ofDialect dialect))) ⟨t, ts, 0⟩ >>=
    fun r => .ok r.1) = .ok program at h
  cases hrun : statements .done (topStatement (Rules.ofDialect dialect)) ⟨t, ts, 0⟩ with
  | error fault =>
      rw [StateT.run, hrun] at h
      cases h
  | ok r =>
      rw [StateT.run, hrun] at h
      cases h
      unfold statements at hrun
      rw [bind_of_ok (rounds_apply _)] at hrun
      have hstmt := topStatement_sound (withRoom_sound dialect (maxDepth + 1))
      obtain ⟨us, c₁, rest, hfound, hus, hk, -, hd, -⟩ :=
        statementsFrom_sound TokenKind.noConfusion hstmt (show _ = Except.ok (r.1, r.2) from hrun) hts
          rfl
      obtain rfl : r.1 = rest := hfound
      have hlast : c₁.rest = [] := by
        have hproper := hus.proper
        obtain ⟨u, vs, depth⟩ := c₁
        cases hproper with
        | last _ => rfl
        | cons hne _ _ => exact absurd hk hne
      refine ⟨us, c₁.next, ?_, hk, hd⟩
      have hstart := hus.start
      cases us with
      | nil =>
          have hnext : t = c₁.next := congrArg Cursor.next hstart
          have hrest : ts = c₁.rest := congrArg Cursor.rest hstart
          rw [hnext, hrest, hlast]
          rfl
      | cons u us =>
          have hnext : t = u := congrArg Cursor.next hstart
          have hrest : ts = us ++ c₁.next :: c₁.rest := congrArg Cursor.rest hstart
          rw [hnext, hrest, hlast]
          rfl

end ScriptLab.Program
