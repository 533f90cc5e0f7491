import ScriptLab.Proofs.Program.Printer
import ScriptLab.Proofs.Program.Reading
import ScriptLab.Proofs.Program.Shape

/-!
# What is printed is derived

Tokens that read as the words of a tree, wherever they stand, are a derivation of a tree that is equal
to it up to positions, with at most two levels of nesting for each of its nodes.
-/

namespace ScriptLab.Program

open Text (Pos)

variable {dialect : Dialect}

/-! ## Tokens that read as words -/

/-- A token as it is printed. -/
def Token.word (t : Token) : Word :=
  ⟨t.kind, t.afterBreak⟩

/-- Tokens that read as words. -/
def Spells (ts : List Token) (words : List Word) : Prop :=
  ts.map Token.word = words

namespace Spells

variable {ts : List Token} {word : Word} {words words' : List Word}

theorem nil (h : Spells ts []) : ts = [] :=
  List.map_eq_nil_iff.1 h

theorem cons (h : Spells ts (word :: words)) :
    ∃ t us, ts = t :: us ∧ t.kind = word.kind ∧ t.afterBreak = word.startsLine ∧ Spells us words := by
  obtain ⟨t, us, rfl, rfl, hus⟩ := List.map_eq_cons_iff.1 h
  exact ⟨t, us, rfl, rfl, rfl, hus⟩

theorem append (h : Spells ts (words ++ words')) :
    ∃ us vs, ts = us ++ vs ∧ Spells us words ∧ Spells vs words' :=
  List.map_eq_append_iff.1 h

theorem single (h : Spells ts [word]) :
    ∃ t, ts = [t] ∧ t.kind = word.kind ∧ t.afterBreak = word.startsLine := by
  obtain ⟨t, us, rfl, hkind, hline, hus⟩ := h.cons
  exact ⟨t, by rw [hus.nil], hkind, hline⟩

/-- Words between two others. -/
theorem between {last : Word} (h : Spells ts (word :: (words ++ [last]))) :
    ∃ l us r, ts = l :: (us ++ [r]) ∧ l.kind = word.kind ∧ l.afterBreak = word.startsLine ∧
      Spells us words ∧ r.kind = last.kind := by
  obtain ⟨l, us, rfl, hl, hline, hus⟩ := h.cons
  obtain ⟨vs, ws, rfl, hvs, hws⟩ := hus.append
  obtain ⟨r, rfl, hr, -⟩ := hws.single
  exact ⟨l, vs, r, rfl, hl, hline, hvs, hr⟩

end Spells

theorem binaryOp?_of_symbol {t : Token} {op : BinaryOp} (hkind : t.kind = .symbol op.symbol)
    (hline : t.afterBreak = false) : t.binaryOp? = some op := by
  unfold Token.binaryOp?
  rw [hkind, hline]
  cases op <;> rfl

theorem unaryOp?_of_symbol {t : Token} {op : UnaryOp} (hkind : t.kind = .symbol op.symbol) :
    t.unaryOp? = some op := by
  unfold Token.unaryOp?
  rw [hkind]
  cases op <;> rfl

theorem assignOp?_of_symbol {t : Token} {op : AssignOp}
    (hkind : t.kind = .symbol (dialect.assigning op)) (hop : op = .set ∨ dialect = .modern) :
    t.assignOp? dialect = some op := by
  unfold Token.assignOp?
  rw [hkind]
  rcases hop with rfl | rfl
  · cases dialect <;> rfl
  · cases op <;> rfl

/-! ## The first word -/

theorem head_grouped {needed line : Bool} {words : Bool → List Word}
    (h : ∃ kind rest, words line = ⟨kind, line⟩ :: rest) :
    ∃ kind rest, grouped needed line words = ⟨kind, line⟩ :: rest := by
  cases needed with
  | false => exact h
  | true => exact ⟨_, _, rfl⟩

theorem head_append {line : Bool} {words words' : List Word}
    (h : ∃ kind rest, words = ⟨kind, line⟩ :: rest) :
    ∃ kind rest, words ++ words' = ⟨kind, line⟩ :: rest := by
  obtain ⟨kind, rest, rfl⟩ := h
  exact ⟨kind, rest ++ words', rfl⟩

theorem head_wordsOfArms {word : Keyword} {line : Bool} {arms : List (Expr × List Stmt)}
    (h : arms ≠ []) : ∃ kind rest, wordsOfArms dialect word line arms = ⟨kind, line⟩ :: rest := by
  cases arms with
  | nil => exact absurd rfl h
  | cons arm rest => exact ⟨_, _, rfl⟩

theorem Expr.head_words (line : Bool) : ∀ e : Expr, e.Writable dialect →
    ∃ kind rest, e.words dialect line = ⟨kind, line⟩ :: rest
  | .null _, _ | .bool .., _ | .num .., _ | .str .., _ | .arr .., _ | .obj .., _ | .ident .., _
  | .fn .., _ | .unary .., _ => ⟨_, _, rfl⟩
  | .call _ callee _, h => head_append (head_grouped (callee.head_words line h.1))
  | .index _ target _, h => head_append (head_grouped (target.head_words line h.1))
  | .prop _ target _, h => head_append (head_grouped (target.head_words line h.1))
  | .binary _ _ left _, h => head_append (head_grouped (left.head_words line h.1))
  | .cond _ _ none, h => head_wordsOfArms h.1
  | .cond _ _ (some _), h => head_append (head_wordsOfArms h.1)

theorem Stmt.head_words (line top : Bool) {s : Stmt} (h : s.Writable dialect top) :
    ∃ kind rest, s.words dialect line = ⟨kind, line⟩ :: rest := by
  cases s with
  | back pos value => cases value <;> exact ⟨_, _, rfl⟩
  | assign pos target op value => exact head_append (target.head_words line h.2.2.1)
  | eval pos value => exact value.head_words line h
  | _ => exact ⟨_, _, rfl⟩

theorem head_wordsOfStmts (line : Bool) {top : Bool} {body : List Stmt} (h : WritableStmts dialect top body) :
    ∀ word ∈ (wordsOfStmts dialect line body).head?, word.startsLine = line := by
  cases body with
  | nil => exact fun _ h => nomatch h
  | cons s rest =>
      obtain ⟨kind, words, hwords⟩ := s.head_words line top h.1
      intro word hword
      rw [wordsOfStmts, hwords] at hword
      cases hword
      rfl

/-! ## Expressions -/

/-- Tokens are a derivation of an expression up to positions, whose outermost operator has at least the
given level. -/
def Derivable (dialect : Dialect) (level n : Nat) (ts : List Token) (e : Expr) : Prop :=
  ∃ k o m e', DerivesExpr .written dialect k o m ts e' ∧ level ≤ k ∧ o ≤ e.nodes ∧ m ≤ n ∧
    e'.mapPos erase = e.mapPos erase

/-- Whatever reads as the words of an expression is a derivation of it. -/
def Expr.Printed (dialect : Dialect) (e : Expr) : Prop :=
  ∀ line ts, Spells ts (e.words dialect line) → Derivable dialect e.level (2 * e.nodes) ts e

theorem DerivesExpr.level_le {w : Wording} {k o n : Nat} {ts : List Token} {e : Expr}
    (h : DerivesExpr w dialect k o n ts e) : k ≤ 8 := by
  cases h with
  | @binary _ _ _ _ _ _ _ op => exact Nat.le_trans (precedence_le op) (by decide)
  | _ => decide

/-- An operand, which stands in parentheses if it binds less tightly than it has to. -/
theorem Expr.Printed.operand {e : Expr} {level : Nat} {line : Bool} {ts : List Token}
    (h : e.Printed dialect) (hlevel : level ≤ 8)
    (hts : Spells ts (grouped (e.level < level) line fun line => e.words dialect line)) :
    Derivable dialect level (2 * e.nodes + 1) ts e := by
  by_cases hneeded : e.level < level
  · rw [decide_eq_true hneeded] at hts
    obtain ⟨l, us, r, rfl, hl, -, hus, hr⟩ := hts.between
    obtain ⟨k, o, m, e', hd, hk, ho, hm, hshape⟩ := h false us hus
    exact ⟨8, 0, _, e', .group rfl hl hd (Nat.succ_le_succ hm) hr, hlevel, Nat.zero_le _,
      Nat.le_refl _, hshape⟩
  · rw [decide_eq_false hneeded] at hts
    obtain ⟨k, o, m, e', hd, hk, ho, hm, hshape⟩ := h line ts hts
    exact ⟨k, o, m, e', hd, by omega, ho, by omega, hshape⟩

/-- Whatever reads as the words of some items is a derivation of items like them. -/
def PrintedItems (dialect : Dialect) (size : Nat) (rows : List (List Word))
    (like : List Item → Prop) : Prop :=
  ∀ ts n, 2 * size + 1 ≤ n → Spells ts (separated rows) →
    ∃ items, DerivesItems .written dialect n ts items ∧ like items

theorem PrintedItems.cons (size : Nat) (like : Item → Prop) {size' : Nat} {row : List Word}
    {rows : List (List Word)} {likes likes' : List Item → Prop}
    (hrow : ∀ ts n, 2 * size + 1 ≤ n → Spells ts row →
      ∃ a, DerivesItem .written dialect n ts a ∧ like a)
    (hrows : PrintedItems dialect size' rows likes) (hnil : rows = [] → likes [])
    (hlikes : ∀ a items, like a → likes items → likes' (a :: items)) :
    PrintedItems dialect (size + size') (row :: rows) likes' := by
  intro ts n hn hts
  cases rows with
  | nil =>
      obtain ⟨a, ha, hlike⟩ := hrow ts n (by omega) hts
      exact ⟨[a], .last ha, hlikes a [] hlike (hnil rfl)⟩
  | cons row' rest =>
      obtain ⟨us, vs, rfl, hus, hvs⟩ := hts.append
      obtain ⟨comma, ws, rfl, hcomma, -, hws⟩ := hvs.cons
      obtain ⟨a, ha, hlike⟩ := hrow us n (by omega) hus
      obtain ⟨items, hitems, hlikes'⟩ := hrows ws n (by omega) hws
      exact ⟨a :: items, .cons ha hcomma hitems (fun h => nomatch h), hlikes a items hlike hlikes'⟩

def PrintedExprs (dialect : Dialect) (items : List Expr) : Prop :=
  PrintedItems dialect (nodesOfExprs items) (wordsOfExprs dialect items) fun found =>
    ∃ items', found = items'.map .expr ∧ mapPosExprs erase items' = mapPosExprs erase items

theorem printedExprs_nil : PrintedExprs dialect [] := by
  intro ts n _ hts
  obtain rfl := hts.nil
  exact ⟨[], .nil, [], rfl, rfl⟩

theorem printedExprs_cons {e : Expr} {rest : List Expr} (h : e.Printed dialect)
    (hrest : PrintedExprs dialect rest) : PrintedExprs dialect (e :: rest) := by
  refine PrintedItems.cons _ (fun a => ∃ e', a = .expr e' ∧ e'.mapPos erase = e.mapPos erase)
    (fun ts n hn hts => ?_) hrest (fun hnil => ⟨[], rfl, ?_⟩) ?_
  · obtain ⟨k, o, m, e', hd, -, -, hm, hshape⟩ := h false ts hts
    exact ⟨.expr e', .expr hd fun _ => by omega, e', rfl, hshape⟩
  · cases rest with
    | nil => rfl
    | cons => cases hnil
  · rintro a found ⟨e', rfl, he⟩ ⟨items', rfl, hitems⟩
    exact ⟨e' :: items', rfl, by rw [mapPosExprs, mapPosExprs, he, hitems]⟩

def PrintedEntries (dialect : Dialect) (entries : List (String × Expr)) : Prop :=
  PrintedItems dialect (nodesOfEntries entries) (wordsOfEntries dialect entries) fun found =>
    ∃ entries', found = entries'.map (fun entry => .entry entry.1 entry.2) ∧
      mapPosEntries erase entries' = mapPosEntries erase entries

theorem printedEntries_nil : PrintedEntries dialect [] := by
  intro ts n _ hts
  obtain rfl := hts.nil
  exact ⟨[], .nil, [], rfl, rfl⟩

theorem printedEntries_cons {key : String} {e : Expr} {rest : List (String × Expr)}
    (h : e.Printed dialect) (hrest : PrintedEntries dialect rest) :
    PrintedEntries dialect ((key, e) :: rest) := by
  refine PrintedItems.cons _ (fun a => ∃ e', a = .entry key e' ∧ e'.mapPos erase = e.mapPos erase)
    (fun ts n hn hts => ?_) hrest (fun hnil => ⟨[], rfl, ?_⟩) ?_
  · obtain ⟨t, us, rfl, ht, -, hus⟩ := hts.cons
    obtain ⟨colon, vs, rfl, hcolon, -, hvs⟩ := hus.cons
    obtain ⟨k, o, m, e', hd, -, -, hm, hshape⟩ := h false vs hvs
    exact ⟨.entry key e', .quotedEntry ht hcolon hd fun _ => by omega, e', rfl, hshape⟩
  · cases rest with
    | nil => rfl
    | cons => cases hnil
  · rintro a found ⟨e', rfl, he⟩ ⟨entries', rfl, hentries⟩
    exact ⟨(key, e') :: entries', rfl, by rw [mapPosEntries, mapPosEntries, he, hentries]⟩

theorem printedParams (params : List String) :
    PrintedItems dialect 0 (params.map fun param => [.inline (.name param)])
      fun found => found = params.map .name := by
  induction params with
  | nil =>
      intro ts n _ hts
      obtain rfl := hts.nil
      exact ⟨[], .nil, rfl⟩
  | cons param rest ih =>
      refine PrintedItems.cons 0 (fun a => a = .name param)
        (fun ts n _ hts => ?_) ih (fun hnil => ?_) ?_
      · obtain ⟨t, rfl, ht, -⟩ := hts.single
        exact ⟨.name param, .name ht, rfl⟩
      · rw [List.map_eq_nil_iff.1 hnil]
        rfl
      · rintro a found rfl rfl
        rfl

/-- Whatever reads as the words of a block is a derivation of it. -/
def PrintedBlock (dialect : Dialect) (body : List Stmt) : Prop :=
  ∀ ts n, 2 * nodesOfStmts body + 1 ≤ n →
    Spells ts (braced (wordsOfStmts dialect true body)) →
    ∃ body', DerivesBlock .written dialect n ts body' ∧ SameShape body' body

namespace Expr.Printed

variable {pos : Pos}

/-- An expression that is a single word. -/
theorem single {e : Expr} {kind : TokenKind} (hwords : ∀ line, e.words dialect line = [⟨kind, line⟩])
    (hlevel : e.level = 8)
    (hd : ∀ t : Token, t.kind = kind →
      ∃ e', DerivesExpr .written dialect 8 0 0 [t] e' ∧ e'.mapPos erase = e.mapPos erase) :
    e.Printed dialect := by
  intro line ts hts
  rw [hwords] at hts
  obtain ⟨t, rfl, ht, -⟩ := hts.single
  obtain ⟨e', hderives, hshape⟩ := hd t ht
  exact ⟨8, 0, 0, e', hderives, by omega, Nat.zero_le _, Nat.zero_le _, hshape⟩

theorem array {items : List Expr} (h : PrintedExprs dialect items) :
    (Expr.arr pos items).Printed dialect := by
  intro line ts hts
  obtain ⟨l, us, r, rfl, hl, -, hus, hr⟩ := Spells.between hts
  obtain ⟨_, hd, items', rfl, hshape⟩ := h us (2 * (nodesOfExprs items + 1)) (by omega) hus
  refine ⟨8, 0, _, .arr l.pos items', .array hl hd hr, Nat.le_refl 8, Nat.zero_le _,
    Nat.le_refl _, ?_⟩
  rw [mapPos, mapPos, hshape]
  rfl

theorem object {entries : List (String × Expr)} (h : PrintedEntries dialect entries) :
    (Expr.obj pos entries).Printed dialect := by
  intro line ts hts
  obtain ⟨l, us, r, rfl, hl, -, hus, hr⟩ := Spells.between hts
  obtain ⟨_, hd, entries', rfl, hshape⟩ := h us (2 * (nodesOfEntries entries + 1)) (by omega) hus
  refine ⟨8, 0, _, .obj l.pos entries', .object hl hd hr, Nat.le_refl 8, Nat.zero_le _,
    Nat.le_refl _, ?_⟩
  rw [mapPos, mapPos, hshape]
  rfl

theorem function {params : List String} {body : List Stmt} (hb : PrintedBlock dialect body) :
    (Expr.fn pos params body).Printed dialect := by
  intro line ts hts
  obtain ⟨t, us, rfl, ht, -, hus⟩ := Spells.cons hts
  obtain ⟨l, vs, rfl, hl, -, hvs⟩ := hus.cons
  obtain ⟨ps, ws, rfl, hps, hws⟩ := hvs.append
  obtain ⟨r, bs, rfl, hr, -, hbs⟩ := hws.cons
  obtain ⟨_, hparams, rfl⟩ := printedParams params ps (2 * (nodesOfStmts body + 1)) (by omega) hps
  obtain ⟨body', hbody, hshape⟩ := hb bs (2 * (nodesOfStmts body + 1)) (by omega) hbs
  refine ⟨8, 0, _, .fn t.pos params body', .function ht (.intro hl hparams hr hbody),
    Nat.le_refl 8, Nat.zero_le _, Nat.le_refl _, ?_⟩
  rw [mapPos, mapPos, hshape]
  rfl

theorem call {callee : Expr} {args : List Expr} (hf : callee.Printed dialect)
    (h : PrintedExprs dialect args) : (Expr.call pos callee args).Printed dialect := by
  intro line ts hts
  obtain ⟨us, vs, rfl, hus, hvs⟩ := Spells.append hts
  obtain ⟨l, ws, r, rfl, hl, hline, hws, hr⟩ := hvs.between
  obtain ⟨k, o, m, f', hd, hk, ho, hm, hf'⟩ := hf.operand (Nat.le_refl 8) hus
  obtain ⟨_, hargs, args', rfl, hshape⟩ := h ws (2 * nodesOfExprs args + 1) (Nat.le_refl _) hws
  have hk8 := hd.level_le
  refine ⟨8, o + 1, 2 * (callee.nodes + nodesOfExprs args + 1), .call f'.pos f' args',
    .call hd (fun _ => by omega) (fun _ => by omega) hl hline hargs (fun _ => by omega) hr,
    Nat.le_refl 8, by rw [nodes]; omega, Nat.le_refl _, ?_⟩
  rw [mapPos, mapPos, hf', hshape]
  rfl

theorem index {target i : Expr} (hf : target.Printed dialect) (h : i.Printed dialect) :
    (Expr.index pos target i).Printed dialect := by
  intro line ts hts
  obtain ⟨us, vs, rfl, hus, hvs⟩ := Spells.append hts
  obtain ⟨l, ws, r, rfl, hl, hline, hws, hr⟩ := hvs.between
  obtain ⟨k, o, m, f', hd, hk, ho, hm, hf'⟩ := hf.operand (Nat.le_refl 8) hus
  obtain ⟨k', o', m', i', hd', -, -, hm', hi'⟩ := h false ws hws
  have hk8 := hd.level_le
  refine ⟨8, o + 1, 2 * (target.nodes + i.nodes + 1), .index f'.pos f' i',
    .index hd (fun _ => by omega) (fun _ => by omega) hl hline hd' (fun _ => by omega) hr,
    Nat.le_refl 8, by rw [nodes]; omega, Nat.le_refl _, ?_⟩
  rw [mapPos, mapPos, hf', hi']
  rfl

theorem property {target : Expr} {name : String} (hf : target.Printed dialect) :
    (Expr.prop pos target name).Printed dialect := by
  intro line ts hts
  obtain ⟨us, vs, rfl, hus, hvs⟩ := Spells.append hts
  obtain ⟨dot, ws, rfl, hdot, -, hws⟩ := hvs.cons
  obtain ⟨t, rfl, ht, -⟩ := hws.single
  obtain ⟨k, o, m, f', hd, hk, ho, hm, hf'⟩ := hf.operand (Nat.le_refl 8) hus
  have hk8 := hd.level_le
  refine ⟨8, o + 1, 2 * (target.nodes + 1), .prop f'.pos f' name,
    .property hd (fun _ => by omega) (fun _ => by omega) hdot ht (fun _ => by omega),
    Nat.le_refl 8, by rw [nodes]; omega, Nat.le_refl _, ?_⟩
  rw [mapPos, mapPos, hf']
  rfl

theorem prefixed {op : UnaryOp} {operand : Expr} (h : operand.Printed dialect) :
    (Expr.unary pos op operand).Printed dialect := by
  intro line ts hts
  obtain ⟨t, us, rfl, ht, -, hus⟩ := Spells.cons hts
  obtain ⟨k, o, m, e', hd, hk, -, hm, he'⟩ := h.operand (by decide) hus
  refine ⟨7, 0, 2 * (operand.nodes + 1), .unary t.pos op e',
    .unary (unaryOp?_of_symbol ht) hd (fun _ => hk) (fun _ => by omega),
    Nat.le_refl 7, Nat.zero_le _, Nat.le_refl _, ?_⟩
  rw [mapPos, mapPos, he']
  rfl

theorem infixed {op : BinaryOp} {left right : Expr} (hl : left.Printed dialect)
    (hr : right.Printed dialect) : (Expr.binary pos op left right).Printed dialect := by
  intro line ts hts
  obtain ⟨us, vs, rfl, hus, hvs⟩ := Spells.append hts
  obtain ⟨t, ws, rfl, ht, hline, hws⟩ := hvs.cons
  have hprecedence := precedence_le op
  obtain ⟨k, o, m, l', hd, hk, ho, hm, hl'⟩ := hl.operand (by omega) hus
  obtain ⟨k', o', m', r', hd', hk', -, hm', hr'⟩ := hr.operand (by omega) hws
  have hspine : spine k o ≤ o := by
    unfold spine
    split <;> omega
  refine ⟨op.precedence, spine k o + 1, 2 * (left.nodes + right.nodes + 1), .binary l'.pos op l' r',
    .binary hd (fun _ => hk) (fun _ => by omega) (binaryOp?_of_symbol ht hline) hd' (fun _ => hk')
      (fun _ => by omega),
    Nat.le_refl _, by rw [nodes]; omega, Nat.le_refl _, ?_⟩
  rw [mapPos, mapPos, hl', hr']
  rfl

end Expr.Printed

/-! ## Conditionals -/

/-- Whatever reads as some words is a derivation of the arms of a conditional behind the first one. -/
def PrintedArms (dialect : Dialect) (size : Nat) (words : List Word)
    (arms : List (Expr × List Stmt)) (otherwise : Option (List Stmt)) : Prop :=
  ∀ ts n, 2 * size + 1 ≤ n → Spells ts words →
    ∃ arms' otherwise', DerivesArms .written dialect n ts arms' otherwise' ∧
      mapPosArms erase arms' = mapPosArms erase arms ∧
      otherwise'.map (mapPosStmts erase) = otherwise.map (mapPosStmts erase)

namespace PrintedArms

variable {size : Nat} {words : List Word} {cond : Expr} {body : List Stmt}
  {arms : List (Expr × List Stmt)} {otherwise : Option (List Stmt)}

theorem none : PrintedArms dialect 0 [] [] none := by
  intro ts n _ hts
  obtain rfl := Spells.nil hts
  exact ⟨[], _, .none, rfl, rfl⟩

theorem orElse (hb : PrintedBlock dialect body) :
    PrintedArms dialect (nodesOfStmts body)
      (.inline (.keyword .orElse) :: braced (wordsOfStmts dialect true body)) [] (some body) := by
  intro ts n hn hts
  obtain ⟨t, us, rfl, ht, -, hus⟩ := Spells.cons hts
  obtain ⟨body', hd, hshape⟩ := hb us n hn hus
  exact ⟨[], some body', .orElse ht hd, rfl, congrArg some hshape⟩

/-- A condition, a body and further arms. -/
theorem arm {word : Keyword} {line : Bool} (hc : cond.Printed dialect) (hb : PrintedBlock dialect body)
    (ha : PrintedArms dialect size words arms otherwise) {ts : List Token} {n : Nat}
    (hn : 2 * (cond.nodes + nodesOfStmts body + size) + 1 ≤ n)
    (hts : Spells ts (⟨.keyword word, line⟩ ::
      (cond.words dialect false ++ (braced (wordsOfStmts dialect true body) ++ words)))) :
    ∃ t us vs ws k o m c' body' arms' otherwise', ts = t :: (us ++ (vs ++ ws)) ∧
      t.kind = .keyword word ∧ DerivesExpr .written dialect k o m us c' ∧ m + 1 ≤ n ∧
      DerivesBlock .written dialect n vs body' ∧ DerivesArms .written dialect n ws arms' otherwise' ∧
      mapPosArms erase ((c', body') :: arms') = mapPosArms erase ((cond, body) :: arms) ∧
      otherwise'.map (mapPosStmts erase) = otherwise.map (mapPosStmts erase) := by
  obtain ⟨t, rest, rfl, ht, -, hrest⟩ := Spells.cons hts
  obtain ⟨us, rest, rfl, hus, hrest⟩ := hrest.append
  obtain ⟨vs, ws, rfl, hvs, hws⟩ := hrest.append
  obtain ⟨k, o, m, c', hd, -, -, hm, hc'⟩ := hc false us hus
  obtain ⟨body', hbody, hshape⟩ := hb vs n (by omega) hvs
  obtain ⟨arms', otherwise', harms, hshape', hotherwise⟩ := ha ws n (by omega) hws
  refine ⟨t, us, vs, ws, k, o, m, c', body', arms', otherwise', rfl, ht, hd, by omega, hbody, harms,
    ?_, hotherwise⟩
  rw [mapPosArms, mapPosArms, hc', hshape, hshape']

theorem elseIf (hc : cond.Printed dialect) (hb : PrintedBlock dialect body)
    (ha : PrintedArms dialect size words arms otherwise) :
    PrintedArms dialect (cond.nodes + nodesOfStmts body + size)
      (.inline (.keyword .elseIf) ::
        (cond.words dialect false ++ (braced (wordsOfStmts dialect true body) ++ words)))
      ((cond, body) :: arms) otherwise := by
  intro ts n hn hts
  obtain ⟨t, us, vs, ws, k, o, m, c', body', arms', otherwise', rfl, ht, hd, hm, hbody, harms, hshape,
    hotherwise⟩ := arm hc hb ha hn hts
  exact ⟨(c', body') :: arms', otherwise', .elseIf ht hd (fun _ => hm) hbody harms, hshape, hotherwise⟩

end PrintedArms

theorem Expr.Printed.conditional {pos : Pos} {size : Nat} {words : List Word} {cond : Expr}
    {body : List Stmt} {arms : List (Expr × List Stmt)} {otherwise : Option (List Stmt)}
    (hc : cond.Printed dialect) (hb : PrintedBlock dialect body)
    (ha : PrintedArms dialect size words arms otherwise)
    (hwords : ∀ line, (Expr.cond pos ((cond, body) :: arms) otherwise).words dialect line =
      ⟨.keyword .ifThen, line⟩ ::
        (cond.words dialect false ++ (braced (wordsOfStmts dialect true body) ++ words)))
    (hnodes : (Expr.cond pos ((cond, body) :: arms) otherwise).nodes =
      cond.nodes + nodesOfStmts body + size + 1) :
    (Expr.cond pos ((cond, body) :: arms) otherwise).Printed dialect := by
  intro line ts hts
  rw [hwords] at hts
  obtain ⟨t, us, vs, ws, k, o, m, c', body', arms', otherwise', rfl, ht, hd, hm, hbody, harms, hshape,
    hotherwise⟩ := PrintedArms.arm hc hb ha (Nat.le_refl _) hts
  refine ⟨8, 0, _, .cond t.pos ((c', body') :: arms') otherwise',
    .conditional ht hd (fun _ => hm) hbody harms, Nat.le_refl 8, Nat.zero_le _,
    by rw [hnodes]; omega, ?_⟩
  cases otherwise' with
  | none =>
      cases otherwise with
      | none =>
          rw [mapPos, mapPos, hshape]
          rfl
      | some => cases hotherwise
  | some =>
      cases otherwise with
      | none => cases hotherwise
      | some =>
          rw [mapPos, mapPos, hshape, Option.some.inj hotherwise]
          rfl

/-! ## Statements -/

/-- Whatever reads as the words of a statement is a derivation of it. -/
def Stmt.Printed (dialect : Dialect) (top : Bool) (s : Stmt) : Prop :=
  ∀ line ts n, 2 * s.nodes ≤ n → Spells ts (s.words dialect line) →
    ∃ s', DerivesStmt .written dialect top n ts s' ∧ s'.mapPos erase = s.mapPos erase

/-- Whatever reads as the words of some statements is a derivation of them. -/
def PrintedStmts (dialect : Dialect) (top : Bool) (body : List Stmt) : Prop :=
  ∀ line ts n, 2 * nodesOfStmts body ≤ n → Spells ts (wordsOfStmts dialect line body) →
    ∃ body', DerivesStmts .written dialect top n ts body' ∧ SameShape body' body

theorem PrintedStmts.nil {top : Bool} : PrintedStmts dialect top [] := by
  intro line ts n _ hts
  obtain rfl := Spells.nil hts
  exact ⟨[], .nil, rfl⟩

theorem PrintedStmts.cons {top : Bool} {s : Stmt} {rest : List Stmt} (h : s.Printed dialect top)
    (hrest : PrintedStmts dialect top rest) (hw : WritableStmts dialect top rest) :
    PrintedStmts dialect top (s :: rest) := by
  intro line ts n hn hts
  rw [nodesOfStmts] at hn
  obtain ⟨us, vs, rfl, hus, hvs⟩ := Spells.append hts
  obtain ⟨s', hs, hshape⟩ := h line us n (by omega) hus
  obtain ⟨rest', hd, hshape'⟩ := hrest true vs n (by omega) hvs
  have hsep : ∀ t ∈ vs.head?, t.afterBreak = true := by
    intro t ht
    have hhead := head_wordsOfStmts true hw t.word
    rw [← show _ = _ from hvs, List.head?_map] at hhead
    exact hhead (Option.mem_map_of_mem _ ht)
  refine ⟨s' :: rest', .cons hs hd fun _ t ht => .inl (hsep t ht), ?_⟩
  unfold SameShape at hshape' ⊢
  rw [mapPosStmts, mapPosStmts, hshape, hshape']

theorem PrintedStmts.block {body : List Stmt} (h : PrintedStmts dialect false body) :
    PrintedBlock dialect body := by
  intro ts n hn hts
  obtain ⟨l, us, r, rfl, hl, -, hus, hr⟩ := Spells.between hts
  obtain ⟨body', hd, hshape⟩ := h true us _ (Nat.le_refl _) hus
  exact ⟨body', .intro hl hd (fun _ => hn) hr, hshape⟩

namespace Stmt.Printed

variable {pos : Pos} {top : Bool} {value : Expr} {body : List Stmt}

theorem metadata {name? : Option String} (h : value.Printed dialect) (hstatic : value.isStatic = true) :
    (Stmt.metadata pos name? value).Printed dialect true := by
  intro line ts n hn hts
  rw [nodes] at hn
  have hstatic' : ∀ {e : Expr}, e.mapPos erase = value.mapPos erase → e.isStatic = true := by
    intro e he
    rw [← e.isStatic_mapPos erase, he, value.isStatic_mapPos erase, hstatic]
  obtain ⟨t, us, rfl, ht, -, hus⟩ := Spells.cons hts
  cases name? with
  | none =>
      obtain ⟨k, o, m, e', hd, -, -, hm, hshape⟩ := h false us hus
      refine ⟨.metadata t.pos none e', .metadata ht hd (fun _ => by omega) (hstatic' hshape), ?_⟩
      rw [mapPos, mapPos, hshape]
      rfl
  | some name =>
      obtain ⟨u, vs, rfl, hu, -, hvs⟩ := Spells.cons hus
      obtain ⟨k, o, m, e', hd, -, -, hm, hshape⟩ := h false vs hvs
      refine ⟨.metadata t.pos (some name) e',
        .namedMetadata ht hu hd (fun _ => by omega) (hstatic' hshape), ?_⟩
      rw [mapPos, mapPos, hshape]
      rfl

theorem define {name : String} {isMutable : Bool} (h : value.Printed dialect) :
    (Stmt.define pos name isMutable value).Printed dialect top := by
  intro line ts n hn hts
  rw [nodes] at hn
  obtain ⟨t, us, rfl, ht, -, hus⟩ := Spells.cons hts
  obtain ⟨u, vs, rfl, hu, -, hvs⟩ := hus.cons
  obtain ⟨mark, ws, rfl, hmark, -, hws⟩ := hvs.cons
  obtain ⟨k, o, m, e', hd, -, -, hm, hshape⟩ := h false ws hws
  refine ⟨.define t.pos name isMutable e', .define ht hu hmark hd fun _ => by omega, ?_⟩
  rw [mapPos, mapPos, hshape]
  rfl

theorem assign {target : Expr} {op : AssignOp} (hplace : target.isPlace = true)
    (hop : op = .set ∨ dialect = .modern) (ht : target.Printed dialect) (h : value.Printed dialect) :
    (Stmt.assign pos target op value).Printed dialect top := by
  intro line ts n hn hts
  rw [nodes] at hn
  obtain ⟨us, vs, rfl, hus, hvs⟩ := Spells.append hts
  obtain ⟨t, ws, rfl, hop', -, hws⟩ := hvs.cons
  obtain ⟨k, o, m, f', hd, -, -, hm, hshape⟩ := ht line us hus
  obtain ⟨k', o', m', e', hd', -, -, hm', hshape'⟩ := h false ws hws
  have hplace' : f'.isPlace = true := by
    rw [← f'.isPlace_mapPos erase, hshape, target.isPlace_mapPos erase, hplace]
  refine ⟨.assign f'.pos f' op e', .assign hd (fun _ => by omega) hplace'
    (assignOp?_of_symbol hop' hop) hd' fun _ => by omega, ?_⟩
  rw [mapPos, mapPos, hshape, hshape']
  rfl

theorem out (h : value.Printed dialect) : (Stmt.out pos value).Printed dialect top := by
  intro line ts n hn hts
  rw [nodes] at hn
  obtain ⟨t, us, rfl, ht, -, hus⟩ := Spells.cons hts
  obtain ⟨k, o, m, e', hd, -, -, hm, hshape⟩ := h false us hus
  refine ⟨.out t.pos e', .out ht hd fun _ => by omega, ?_⟩
  rw [mapPos, mapPos, hshape]
  rfl

theorem back : (Stmt.back pos none).Printed dialect top := by
  intro line ts n _ hts
  obtain ⟨t, rfl, ht, -⟩ := Spells.single hts
  exact ⟨.back t.pos none, .back ht, rfl⟩

theorem backWith (h : value.Printed dialect) (hw : value.Writable dialect) :
    (Stmt.back pos (some value)).Printed dialect top := by
  intro line ts n hn hts
  rw [nodes] at hn
  obtain ⟨t, us, rfl, ht, -, hus⟩ := Spells.cons hts
  obtain ⟨k, o, m, e', hd, -, -, hm, hshape⟩ := h false us hus
  obtain ⟨kind, rest, hwords⟩ := value.head_words false hw
  rw [hwords] at hus
  obtain ⟨u, vs, rfl, -, hline, -⟩ := hus.cons
  have hbreak : ∀ v ∈ (u :: vs).head?, v.afterBreak = false := by
    intro v hv
    cases hv
    exact hline
  refine ⟨.back t.pos (some e'), .backWith ht hd (fun _ => by omega) fun _ => hbreak, ?_⟩
  rw [mapPos, mapPos, hshape]
  rfl

theorem leave : (Stmt.leave pos).Printed dialect top := by
  intro line ts n _ hts
  obtain ⟨t, rfl, ht, -⟩ := Spells.single hts
  exact ⟨.leave t.pos, .leave ht, rfl⟩

theorem again : (Stmt.again pos).Printed dialect top := by
  intro line ts n _ hts
  obtain ⟨t, rfl, ht, -⟩ := Spells.single hts
  exact ⟨.again t.pos, .again ht, rfl⟩

theorem loop (hb : PrintedBlock dialect body) : (Stmt.loop pos body).Printed dialect top := by
  intro line ts n hn hts
  rw [nodes] at hn
  obtain ⟨t, us, rfl, ht, -, hus⟩ := Spells.cons hts
  obtain ⟨body', hd, hshape⟩ := hb us n (by omega) hus
  refine ⟨.loop t.pos body', .loop ht hd, ?_⟩
  rw [mapPos, mapPos, hshape]
  rfl

/-- The variable, the bound and the body of a loop that has a bound. -/
theorem bounded {name : String} {word : Keyword} {line : Bool} {ts : List Token} {n : Nat}
    (h : value.Printed dialect) (hb : PrintedBlock dialect body)
    (hn : 2 * (value.nodes + nodesOfStmts body + 1) ≤ n)
    (hts : Spells ts (⟨.keyword word, line⟩ :: .inline (dialect.defining false).1 ::
      .inline (.name name) :: .inline (.symbol .comma) ::
        (value.words dialect false ++ braced (wordsOfStmts dialect true body)))) :
    ∃ t v u comma us vs k o m e' body', ts = t :: v :: u :: comma :: (us ++ vs) ∧
      t.kind = .keyword word ∧ v.kind = (dialect.defining false).1 ∧ u.kind = .name name ∧
      comma.kind = .symbol .comma ∧ DerivesExpr .written dialect k o m us e' ∧ m + 1 ≤ n ∧
      DerivesBlock .written dialect n vs body' ∧ e'.mapPos erase = value.mapPos erase ∧
      mapPosStmts erase body' = mapPosStmts erase body := by
  obtain ⟨t, ts, rfl, ht, -, hts⟩ := hts.cons
  obtain ⟨v, ts, rfl, hv, -, hts⟩ := hts.cons
  obtain ⟨u, ts, rfl, hu, -, hts⟩ := hts.cons
  obtain ⟨comma, ts, rfl, hcomma, -, hts⟩ := hts.cons
  obtain ⟨us, vs, rfl, hus, hvs⟩ := hts.append
  obtain ⟨k, o, m, e', hd, -, -, hm, hshape⟩ := h false us hus
  obtain ⟨body', hbody, hshape'⟩ := hb vs n (by omega) hvs
  exact ⟨t, v, u, comma, us, vs, k, o, m, e', body', rfl, ht, hv, hu, hcomma, hd, by omega, hbody,
    hshape, hshape'⟩

theorem each {name : String} (h : value.Printed dialect) (hb : PrintedBlock dialect body) :
    (Stmt.each pos name value body).Printed dialect top := by
  intro line ts n hn hts
  rw [nodes] at hn
  obtain ⟨t, v, u, comma, us, vs, k, o, m, e', body', rfl, ht, hv, hu, hcomma, hd, hm, hbody, hshape,
    hshape'⟩ := bounded h hb hn hts
  refine ⟨.each t.pos name e' body', .each ht hv hu hcomma hd (fun _ => hm) hbody, ?_⟩
  rw [mapPos, mapPos, hshape, hshape']
  rfl

theorem count {name : String} (h : value.Printed dialect) (hb : PrintedBlock dialect body) :
    (Stmt.count pos name value body).Printed dialect top := by
  intro line ts n hn hts
  rw [nodes] at hn
  obtain ⟨t, v, u, comma, us, vs, k, o, m, e', body', rfl, ht, hv, hu, hcomma, hd, hm, hbody, hshape,
    hshape'⟩ := bounded h hb hn hts
  refine ⟨.count t.pos name e' body', .count ht hv hu hcomma hd (fun _ => hm) hbody, ?_⟩
  rw [mapPos, mapPos, hshape, hshape']
  rfl

theorem eval (h : value.Printed dialect) : (Stmt.eval pos value).Printed dialect top := by
  intro line ts n hn hts
  rw [nodes] at hn
  obtain ⟨k, o, m, e', hd, -, -, hm, hshape⟩ := h line ts hts
  refine ⟨.eval e'.pos e', .eval hd fun _ => by omega, ?_⟩
  rw [mapPos, mapPos, hshape]
  rfl

end Stmt.Printed

/-! ## Everything that can be written -/

mutual

theorem Expr.printed : ∀ e : Expr, e.Writable dialect → e.Printed dialect
  | .null _, _ => .single (fun _ => rfl) rfl fun _ ht => ⟨_, .null ht, rfl⟩
  | .bool _ true, _ => .single (fun _ => rfl) rfl fun _ ht => ⟨_, .litTrue ht, rfl⟩
  | .bool _ false, _ => .single (fun _ => rfl) rfl fun _ ht => ⟨_, .litFalse ht, rfl⟩
  | .num _ _, _ => .single (fun _ => rfl) rfl fun _ ht => ⟨_, .number ht, rfl⟩
  | .str _ _, _ => .single (fun _ => rfl) rfl fun _ ht => ⟨_, .text ht, rfl⟩
  | .ident _ _, _ => .single (fun _ => rfl) rfl fun _ ht => ⟨_, .name ht, rfl⟩
  | .arr _ items, h => .array (printedExprs items h)
  | .obj _ entries, h => .object (printedEntries entries h)
  | .fn _ _ body, h => .function (printedStmts false body h.2).block
  | .call _ callee args, h => .call (callee.printed h.1) (printedExprs args h.2)
  | .index _ target index, h => .index (target.printed h.1) (index.printed h.2)
  | .prop _ target _, h => .property (target.printed h.1)
  | .binary _ _ left right, h => .infixed (left.printed h.1) (right.printed h.2)
  | .unary _ _ operand, h => .prefixed (operand.printed h)
  | .cond _ [] none, h => absurd rfl h.1
  | .cond _ [] (some _), h => absurd rfl h.1
  | .cond _ ((cond, body) :: arms) none, h =>
      .conditional (cond.printed h.2.1) (printedStmts false body h.2.2.1).block
        (printedArms arms h.2.2.2 .none) (fun _ => by simp [Expr.words, wordsOfArms])
        rfl
  | .cond _ ((cond, body) :: arms) (some last), h =>
      .conditional (cond.printed h.2.1.1) (printedStmts false body h.2.1.2.1).block
        (printedArms arms h.2.1.2.2 (.orElse (printedStmts false last h.2.2).block))
        (fun _ => by simp [Expr.words, wordsOfArms]) (by rw [Expr.nodes, nodesOfArms]; omega)

theorem printedExprs : ∀ items : List Expr, WritableExprs dialect items → PrintedExprs dialect items
  | [], _ => printedExprs_nil
  | item :: rest, h => printedExprs_cons (item.printed h.1) (printedExprs rest h.2)

theorem printedEntries : ∀ entries : List (String × Expr), WritableEntries dialect entries →
    PrintedEntries dialect entries
  | [], _ => printedEntries_nil
  | (_, value) :: rest, h => printedEntries_cons (value.printed h.1) (printedEntries rest h.2)

theorem printedArms {size : Nat} {words : List Word} {otherwise : Option (List Stmt)} :
    ∀ arms : List (Expr × List Stmt), WritableArms dialect arms →
      PrintedArms dialect size words [] otherwise →
      PrintedArms dialect (nodesOfArms arms + size) (wordsOfArms dialect .elseIf false arms ++ words)
        arms otherwise
  | [], _, hlast => by
      rw [nodesOfArms, Nat.zero_add]
      exact hlast
  | (cond, body) :: rest, h, hlast => by
      have := PrintedArms.elseIf (cond.printed h.1) (printedStmts false body h.2.1).block
        (printedArms rest h.2.2 hlast)
      simpa [wordsOfArms, nodesOfArms, Nat.add_assoc, Word.inline] using this

theorem Stmt.printed {top : Bool} : ∀ s : Stmt, s.Writable dialect top → s.Printed dialect top
  | .metadata _ _ value, h => by
      obtain ⟨rfl, -, hvalue, hstatic⟩ := h
      exact .metadata (value.printed hvalue) hstatic
  | .define _ _ _ value, h => .define (value.printed h.2)
  | .assign _ target _ value, h =>
      .assign h.1 h.2.1 (target.printed h.2.2.1) (value.printed h.2.2.2)
  | .out _ value, h => .out (value.printed h)
  | .back _ none, _ => .back
  | .back _ (some value), h => .backWith (value.printed h) h
  | .leave _, _ => .leave
  | .again _, _ => .again
  | .loop _ body, h => .loop (printedStmts false body h).block
  | .each _ _ items body, h => .each (items.printed h.2.1) (printedStmts false body h.2.2).block
  | .count _ _ times body, h => .count (times.printed h.2.1) (printedStmts false body h.2.2).block
  | .eval _ value, h => .eval (value.printed h)

theorem printedStmts (top : Bool) : ∀ body : List Stmt, WritableStmts dialect top body →
    PrintedStmts dialect top body
  | [], _ => .nil
  | s :: rest, h => .cons (s.printed h.1) (printedStmts top rest h.2) h.2

end

end ScriptLab.Program
