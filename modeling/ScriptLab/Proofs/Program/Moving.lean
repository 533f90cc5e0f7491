import ScriptLab.Proofs.Program.Lines
import ScriptLab.Proofs.Program.Lookahead
import ScriptLab.Proofs.Program.Shape

/-!
# Derivations elsewhere in a text

A derivation does not depend on where its tokens stand: with other positions they are a derivation of the
tree with those positions. Nor does it matter whether its first token starts a line.
-/

namespace ScriptLab.Program

open Text (Pos)

variable {w : Wording} {dialect : Dialect}

/-! ## Other positions -/

section

variable (f : Pos → Pos)

/-- The item with all its positions changed. -/
def Item.mapPos : Item → Item
  | .expr e => .expr (e.mapPos f)
  | .entry key value => .entry key (value.mapPos f)
  | .name word => .name word

theorem mapPosExprs_eq (items : List Expr) : mapPosExprs f items = items.map (Expr.mapPos f) := by
  induction items with
  | nil => rfl
  | cons item rest ih => rw [mapPosExprs, ih, List.map_cons]

theorem mapPosEntries_eq (entries : List (String × Expr)) :
    mapPosEntries f entries = entries.map fun entry => (entry.1, entry.2.mapPos f) := by
  induction entries with
  | nil => rfl
  | cons entry rest ih => rw [mapPosEntries, ih, List.map_cons]

theorem Expr.mapPos_cond (pos : Pos) (arms : List (Expr × List Stmt)) (otherwise : Option (List Stmt)) :
    (Expr.cond pos arms otherwise).mapPos f =
      .cond (f pos) (mapPosArms f arms) (otherwise.map (mapPosStmts f)) := by
  cases otherwise <;> rfl

theorem Expr.pos_mapPos (e : Expr) : (e.mapPos f).pos = f e.pos := by
  cases e with
  | cond pos arms otherwise => rw [Expr.mapPos_cond]; rfl
  | _ => rfl

theorem Token.mapPos_head? {ts : List Token} {p : Token → Prop} (h : ∀ t ∈ ts.head?, p (t.mapPos f)) :
    ∀ t ∈ (ts.map (Token.mapPos f)).head?, p t := by
  cases ts with
  | nil => exact fun _ ht => nomatch ht
  | cons u us =>
      rintro t ⟨⟩
      exact h u rfl

mutual

theorem DerivesExpr.mapPos {k o n : Nat} {ts : List Token} {e : Expr} :
    DerivesExpr w dialect k o n ts e →
      DerivesExpr w dialect k o n (ts.map (Token.mapPos f)) (e.mapPos f)
  | .null ht => .null (t := Token.mapPos f _) ht
  | .litTrue ht => .litTrue (t := Token.mapPos f _) ht
  | .litFalse ht => .litFalse (t := Token.mapPos f _) ht
  | .number ht => .number (t := Token.mapPos f _) ht
  | .text ht => .text (t := Token.mapPos f _) ht
  | .name ht => .name (t := Token.mapPos f _) ht
  | .array hl h hr => by
      have hitems := h.mapPos
      rw [List.map_map] at hitems
      rw [List.map_cons, List.map_append, Expr.mapPos, mapPosExprs_eq]
      exact .array (l := Token.mapPos f _) hl (by rwa [List.map_map]) hr
  | .object hl h hr => by
      have hitems := h.mapPos
      rw [List.map_map] at hitems
      rw [List.map_cons, List.map_append, Expr.mapPos, mapPosEntries_eq]
      exact .object (l := Token.mapPos f _) hl (by rwa [List.map_map]) hr
  | .function ht h => .function (t := Token.mapPos f _) ht h.mapPos
  | .conditional ht hc hm hb ha => by
      rw [List.map_cons, List.map_append, List.map_append, Expr.mapPos_cond]
      exact .conditional (t := Token.mapPos f _) ht hc.mapPos hm hb.mapPos ha.mapPos
  | .group hw hl h hm hr => by
      rw [List.map_cons, List.map_append]
      exact .group hw hl h.mapPos hm hr
  | .call hf hk hm hl hbreak h hm' hr => by
      have hitems := h.mapPos
      rw [List.map_map] at hitems
      rw [List.map_append, List.map_cons, List.map_append, Expr.mapPos, mapPosExprs_eq,
        ← Expr.pos_mapPos f]
      exact .call hf.mapPos hk hm hl hbreak (by rwa [List.map_map]) hm' hr
  | .index hf hk hm hl hbreak h hm' hr => by
      rw [List.map_append, List.map_cons, List.map_append, Expr.mapPos, ← Expr.pos_mapPos f]
      exact .index hf.mapPos hk hm hl hbreak h.mapPos hm' hr
  | .property hf hk hm hdot ht hn => by
      rw [List.map_append, Expr.mapPos, ← Expr.pos_mapPos f]
      exact .property (t := Token.mapPos f _) hf.mapPos hk hm hdot ht hn
  | .unary ht h hk hm => .unary (t := Token.mapPos f _) ht h.mapPos hk hm
  | .binary hl hk hm ht hr hk' hm' => by
      rw [List.map_append, List.map_cons, Expr.mapPos, ← Expr.pos_mapPos f]
      exact .binary hl.mapPos hk hm ht hr.mapPos hk' hm'

theorem DerivesItem.mapPos {n : Nat} {ts : List Token} {a : Item} :
    DerivesItem w dialect n ts a → DerivesItem w dialect n (ts.map (Token.mapPos f)) (a.mapPos f)
  | .expr h hm => .expr h.mapPos hm
  | .namedEntry ht hcolon h hm => .namedEntry (t := Token.mapPos f _) ht hcolon h.mapPos hm
  | .quotedEntry ht hcolon h hm => .quotedEntry (t := Token.mapPos f _) ht hcolon h.mapPos hm
  | .name ht => .name (t := Token.mapPos f _) ht

theorem DerivesItems.mapPos {n : Nat} {ts : List Token} {items : List Item} :
    DerivesItems w dialect n ts items →
      DerivesItems w dialect n (ts.map (Token.mapPos f)) (items.map (Item.mapPos f))
  | .nil => .nil
  | .last h => .last h.mapPos
  | .cons h hcomma hs hne => by
      rw [List.map_append, List.map_cons, List.map_cons]
      exact .cons h.mapPos hcomma hs.mapPos fun hw => by simpa using hne hw

theorem DerivesFunction.mapPos {n : Nat} {ts : List Token} {params : List String}
    {body : List Stmt} : DerivesFunction w dialect n ts params body →
      DerivesFunction w dialect n (ts.map (Token.mapPos f)) params (mapPosStmts f body)
  | .intro hl h hr hb => by
      have hitems := h.mapPos
      rw [List.map_map] at hitems
      rw [List.map_cons, List.map_append, List.map_cons]
      exact .intro hl hitems hr hb.mapPos

theorem DerivesArms.mapPos {n : Nat} {ts : List Token} {arms : List (Expr × List Stmt)}
    {otherwise : Option (List Stmt)} : DerivesArms w dialect n ts arms otherwise →
      DerivesArms w dialect n (ts.map (Token.mapPos f)) (mapPosArms f arms)
        (otherwise.map (mapPosStmts f))
  | .none => .none
  | .orElse ht hb => .orElse (t := Token.mapPos f _) ht hb.mapPos
  | .elseIf ht hc hm hb ha => by
      rw [List.map_cons, List.map_append, List.map_append]
      exact .elseIf (t := Token.mapPos f _) ht hc.mapPos hm hb.mapPos ha.mapPos

theorem DerivesBlock.mapPos {n : Nat} {ts : List Token} {body : List Stmt} :
    DerivesBlock w dialect n ts body →
      DerivesBlock w dialect n (ts.map (Token.mapPos f)) (mapPosStmts f body)
  | .intro hl h hm hr => by
      rw [List.map_cons, List.map_append]
      exact .intro (l := Token.mapPos f _) hl h.mapPos hm hr

theorem DerivesStmt.mapPos {top : Bool} {n : Nat} {ts : List Token} {s : Stmt} :
    DerivesStmt w dialect top n ts s →
      DerivesStmt w dialect top n (ts.map (Token.mapPos f)) (s.mapPos f)
  | .metadata ht h hm hstatic =>
      .metadata (t := Token.mapPos f _) ht h.mapPos hm (by rwa [Expr.isStatic_mapPos])
  | .namedMetadata ht hu h hm hstatic =>
      .namedMetadata (t := Token.mapPos f _) ht hu h.mapPos hm (by rwa [Expr.isStatic_mapPos])
  | .define ht hu hmark h hm => .define (t := Token.mapPos f _) ht hu hmark h.mapPos hm
  | .defineFunction ht hu h => .defineFunction (t := Token.mapPos f _) ht hu h.mapPos
  | .assign h hm hplace ht h' hm' => by
      rw [List.map_append, List.map_cons, Stmt.mapPos, ← Expr.pos_mapPos f]
      exact .assign h.mapPos hm (by rwa [Expr.isPlace_mapPos]) ht h'.mapPos hm'
  | .out ht h hm => .out (t := Token.mapPos f _) ht h.mapPos hm
  | .back ht => .back (t := Token.mapPos f _) ht
  | .backWith ht h hm hbreak =>
      .backWith (t := Token.mapPos f _) ht h.mapPos hm fun hw => Token.mapPos_head? f (hbreak hw)
  | .leave ht => .leave (t := Token.mapPos f _) ht
  | .again ht => .again (t := Token.mapPos f _) ht
  | .loop ht hb => .loop (t := Token.mapPos f _) ht hb.mapPos
  | .each ht hv hu hcomma h hm hb => by
      simp only [List.map_cons, List.map_append]
      exact .each (t := Token.mapPos f _) ht hv hu hcomma h.mapPos hm hb.mapPos
  | .count ht hv hu hcomma h hm hb => by
      simp only [List.map_cons, List.map_append]
      exact .count (t := Token.mapPos f _) ht hv hu hcomma h.mapPos hm hb.mapPos
  | .eval h hm => by
      rw [Stmt.mapPos, ← Expr.pos_mapPos f]
      exact .eval h.mapPos hm

theorem DerivesStmts.mapPos {top : Bool} {n : Nat} {ts : List Token} {body : List Stmt} :
    DerivesStmts w dialect top n ts body →
      DerivesStmts w dialect top n (ts.map (Token.mapPos f)) (mapPosStmts f body)
  | .nil => .nil
  | .semicolon hw ht h => .semicolon hw ht h.mapPos
  | .cons h hs hsep => by
      rw [List.map_append]
      exact .cons h.mapPos hs.mapPos fun hw => Token.mapPos_head? f (hsep hw)

end

end

/-! ## On a new line -/

theorem StartsExpr.ne_nil {k : Nat} {ts : List Token} (h : StartsExpr k ts) : ts ≠ [] := by
  cases h
  exact List.cons_ne_nil _ _

/-- An expression may start a line. -/
theorem DerivesExpr.startLine {k o n : Nat} {ts : List Token} {e : Expr}
    (h : DerivesExpr .written dialect k o n ts e) :
    DerivesExpr .written dialect k o n (Token.startLine ts) e := by
  cases h with
  | null ht => exact .null (t := Token.onNewLine _) ht
  | litTrue ht => exact .litTrue (t := Token.onNewLine _) ht
  | litFalse ht => exact .litFalse (t := Token.onNewLine _) ht
  | number ht => exact .number (t := Token.onNewLine _) ht
  | text ht => exact .text (t := Token.onNewLine _) ht
  | name ht => exact .name (t := Token.onNewLine _) ht
  | array hl h hr => exact .array (l := Token.onNewLine _) hl h hr
  | object hl h hr => exact .object (l := Token.onNewLine _) hl h hr
  | function ht h => exact .function (t := Token.onNewLine _) ht h
  | conditional ht hc hm hb ha =>
      exact .conditional (t := Token.onNewLine _) ht hc hm hb ha
  | group hw hl h hm hr => exact .group (l := Token.onNewLine _) hw hl h hm hr
  | call hf hk hm hl hbreak h hm' hr =>
      rw [Token.startLine_append hf.starts.ne_nil]
      exact .call hf.startLine hk hm hl hbreak h hm' hr
  | index hf hk hm hl hbreak h hm' hr =>
      rw [Token.startLine_append hf.starts.ne_nil]
      exact .index hf.startLine hk hm hl hbreak h hm' hr
  | property hf hk hm hdot ht hn =>
      rw [Token.startLine_append hf.starts.ne_nil]
      exact .property hf.startLine hk hm hdot ht hn
  | unary ht h hk hm => exact .unary (t := Token.onNewLine _) ht h hk hm
  | binary hl hk hm ht hr hk' hm' =>
      rw [Token.startLine_append hl.starts.ne_nil]
      exact .binary hl.startLine hk hm ht hr hk' hm'

/-- A statement may start a line. -/
theorem DerivesStmt.startLine {top : Bool} {n : Nat} {ts : List Token} {s : Stmt}
    (h : DerivesStmt .written dialect top n ts s) :
    DerivesStmt .written dialect top n (Token.startLine ts) s := by
  cases h with
  | metadata ht h hm hstatic => exact .metadata (t := Token.onNewLine _) ht h hm hstatic
  | namedMetadata ht hu h hm hstatic =>
      exact .namedMetadata (t := Token.onNewLine _) ht hu h hm hstatic
  | define ht hu hmark h hm => exact .define (t := Token.onNewLine _) ht hu hmark h hm
  | defineFunction ht hu h => exact .defineFunction (t := Token.onNewLine _) ht hu h
  | assign h hm hplace ht h' hm' =>
      rw [Token.startLine_append h.starts.ne_nil]
      exact .assign h.startLine hm hplace ht h' hm'
  | out ht h hm => exact .out (t := Token.onNewLine _) ht h hm
  | back ht => exact .back (t := Token.onNewLine _) ht
  | backWith ht h hm hbreak => exact .backWith (t := Token.onNewLine _) ht h hm hbreak
  | leave ht => exact .leave (t := Token.onNewLine _) ht
  | again ht => exact .again (t := Token.onNewLine _) ht
  | loop ht hb => exact .loop (t := Token.onNewLine _) ht hb
  | each ht hv hu hcomma h hm hb => exact .each (t := Token.onNewLine _) ht hv hu hcomma h hm hb
  | count ht hv hu hcomma h hm hb => exact .count (t := Token.onNewLine _) ht hv hu hcomma h hm hb
  | eval h hm => exact .eval h.startLine hm

/-- Statements may start a line. -/
theorem DerivesStmts.startLine {top : Bool} {n : Nat} {ts : List Token} {body : List Stmt}
    (h : DerivesStmts .written dialect top n ts body) :
    DerivesStmts .written dialect top n (Token.startLine ts) body := by
  cases h with
  | nil => exact .nil
  | semicolon hw ht h => exact .semicolon (t := Token.onNewLine _) hw ht h
  | cons h hs hsep =>
      obtain ⟨t, us, hts, -⟩ := h.starts
      rw [Token.startLine_append (by simp [hts])]
      exact .cons h.startLine hs hsep

/-- Statements go on with those of the next line. -/
theorem DerivesStmts.append {top : Bool} {n : Nat} {ts us : List Token} {body rest : List Stmt} :
    DerivesStmts .written dialect top n ts body → DerivesStmts .written dialect top n us rest →
      (∀ t ∈ us.head?, t.afterBreak = true) →
        DerivesStmts .written dialect top n (ts ++ us) (body ++ rest)
  | .nil, h', _ => h'
  | .semicolon hw ht h, h', hline => .semicolon hw ht (h.append h' hline)
  | @DerivesStmts.cons _ _ _ _ _ _ vs _ h hs hsep, h', hline => by
      rw [List.append_assoc]
      refine .cons h (hs.append h' hline) fun hw t ht => ?_
      cases vs with
      | nil => exact .inl (hline t ht)
      | cons v vs => exact hsep hw t ht

end ScriptLab.Program
