import ScriptLab.Proofs.Program.Derivation
import ScriptLab.Proofs.Program.Depth

/-!
# The parts of a derived tree

Every statement and every expression of a derived tree is itself derived from some of the tokens, which
stand in a row. It stands where the first of them does once the parentheses are skipped that only group,
and an assignment is always one to a place.
-/

namespace List.IsInfix

variable {α : Type} {a : α} {l r all : List α}

theorem of_cons (h : a :: l <:+: all) : l <:+: all :=
  (suffix_cons a l).isInfix.trans h

theorem of_append_left (h : l ++ r <:+: all) : l <:+: all :=
  (prefix_append l r).isInfix.trans h

theorem of_append_right (h : l ++ r <:+: all) : r <:+: all :=
  (suffix_append l r).isInfix.trans h

end List.IsInfix

namespace ScriptLab.Program

open Text (Pos)

variable {w : Wording} {dialect : Dialect}

/-! ## Rows of tokens -/

/-- The first token of a row behind the parentheses that it starts with. -/
def leading (ts : List Token) : Option Token :=
  ts.find? fun t => decide (t.kind ≠ .symbol .leftParen)

/-- A row of tokens starts at a place, but for the parentheses in front. -/
def StartsAt (ts : List Token) (pos : Pos) : Prop :=
  ∃ t, leading ts = some t ∧ pos = t.pos

namespace StartsAt

variable {ts : List Token} {pos : Pos}

theorem here {t : Token} (ht : t.kind ≠ .symbol .leftParen) : StartsAt (t :: ts) t.pos :=
  ⟨t, List.find?_cons_of_pos (decide_eq_true ht), rfl⟩

theorem opened {t : Token} (ht : t.kind = .symbol .leftParen) (h : StartsAt ts pos) :
    StartsAt (t :: ts) pos := by
  obtain ⟨u, hu, hpos⟩ := h
  refine ⟨u, ?_, hpos⟩
  rw [leading, List.find?_cons_of_neg (by simp [ht])]
  exact hu

theorem append (h : StartsAt ts pos) (us : List Token) : StartsAt (ts ++ us) pos := by
  obtain ⟨t, ht, hpos⟩ := h
  refine ⟨t, ?_, hpos⟩
  rw [leading, List.find?_append, show ts.find? _ = some t from ht, Option.some_or]

theorem mem (h : StartsAt ts pos) : ∃ t ∈ ts, t.kind ≠ .symbol .leftParen ∧ pos = t.pos := by
  obtain ⟨t, ht, hpos⟩ := h
  unfold leading at ht
  exact ⟨t, List.mem_of_find?_eq_some ht, by simpa using List.find?_some ht, hpos⟩

end StartsAt

theorem Token.not_leftParen_of_unaryOp? {t : Token} {op : UnaryOp} (h : t.unaryOp? = some op) :
    t.kind ≠ .symbol .leftParen := by
  intro hkind
  rw [Token.unaryOp?, hkind] at h
  cases h

theorem Dialect.defining_ne_leftParen (dialect : Dialect) (isMutable : Bool) :
    (dialect.defining isMutable).1 ≠ .symbol .leftParen := by
  cases dialect <;> cases isMutable <;> exact nofun

/-- An expression stands where its tokens start. -/
theorem DerivesExpr.startsAt {k o n : Nat} {ts : List Token} {e : Expr} :
    DerivesExpr w dialect k o n ts e → StartsAt ts e.pos
  | .null ht | .litTrue ht | .litFalse ht | .number ht | .text ht | .name ht | .array ht _ _
  | .object ht _ _ | .function ht _ | .conditional ht _ _ _ _ => .here (by rw [ht]; exact nofun)
  | .group _ hl h _ _ => .opened hl (h.startsAt.append _)
  | .call hf _ _ _ _ _ _ _ | .index hf _ _ _ _ _ _ _ | .property hf _ _ _ _ _
  | .binary hf _ _ _ _ _ _ => hf.startsAt.append _
  | .unary ht _ _ _ => .here (Token.not_leftParen_of_unaryOp? ht)

/-- A statement stands where its tokens start. -/
theorem DerivesStmt.startsAt {top : Bool} {n : Nat} {ts : List Token} {s : Stmt} :
    DerivesStmt w dialect top n ts s → StartsAt ts s.pos
  | .metadata ht _ _ _ | .namedMetadata ht _ _ _ _ | .defineFunction ht _ _ | .out ht _ _ | .back ht
  | .backWith ht _ _ _ | .leave ht | .again ht | .loop ht _ | .each ht _ _ _ _ _ _
  | .count ht _ _ _ _ _ _ => .here (by rw [ht]; exact nofun)
  | .define ht _ _ _ _ => .here (by rw [ht]; exact dialect.defining_ne_leftParen _)
  | .assign h _ _ _ _ _ => h.startsAt.append _
  | .eval h _ => h.startsAt

namespace Part

/-! ## Parts and their tokens -/

/-- The tokens that make up a part. Those of the function that a definition names are all tokens of the
definition, the name among them. -/
inductive Spans (w : Wording) (dialect : Dialect) : List Token → Part → Prop
  | stmt {top n ts s} (h : DerivesStmt w dialect top n ts s) : Spans w dialect ts (.stmt s)
  | expr {k o n ts e} (h : DerivesExpr w dialect k o n ts e) : Spans w dialect ts (.expr e)
  | named {n t u word ts params body} (ht : t.kind = .symbol .atSign) (hu : u.kind = .name word)
      (h : DerivesFunction w dialect n ts params body) :
      Spans w dialect (t :: u :: ts) (.expr (.fn t.pos params body))

theorem Spans.startsAt {ts : List Token} {p : Part} (h : p.Spans w dialect ts) : StartsAt ts p.pos := by
  cases h with
  | stmt h => exact h.startsAt
  | expr h => exact h.startsAt
  | named ht => exact .here (by rw [ht]; exact nofun)

/-- Some of the tokens that stand in a row make up the part. -/
def Spanned (w : Wording) (dialect : Dialect) (all : List Token) (p : Part) : Prop :=
  ∃ ts, ts <:+: all ∧ p.Spans w dialect ts

/-- Whether something holds of a part and of all parts inside it. -/
inductive Throughout (P : Part → Prop) : Part → Prop
  | intro {p} (here : P p) (inside : ∀ c ∈ p.children, Throughout P c) : Throughout P p

theorem Throughout.here {P : Part → Prop} {p : Part} (h : p.Throughout P) : P p := by
  cases h with
  | intro here _ => exact here

theorem Throughout.imp {P P' : Part → Prop} (himp : ∀ q, P q → P' q) {p : Part} (h : p.Throughout P) :
    p.Throughout P' := by
  induction h with
  | intro here _ ih => exact .intro (himp _ here) ih

/-- The parts of an item of a list. -/
def ofItem : Item → List Part
  | .expr e => [expr e]
  | .entry _ value => [expr value]
  | .name _ => []

/-- The parts of the arms of a conditional. -/
def ofArms (arms : List (Expr × List Stmt)) (otherwise : Option (List Stmt)) : List Part :=
  arms.flatMap (fun arm => expr arm.1 :: ofStmts arm.2) ++ ofStmts (otherwise.getD [])

theorem ofArms_cons (cond : Expr) (body : List Stmt) (arms : List (Expr × List Stmt))
    (otherwise : Option (List Stmt)) :
    ofArms ((cond, body) :: arms) otherwise = expr cond :: (ofStmts body ++ ofArms arms otherwise) := by
  rw [ofArms, List.flatMap_cons, List.append_assoc, List.cons_append]
  rfl

theorem ofItem_exprs (items : List Expr) : (items.map Item.expr).flatMap ofItem = ofExprs items := by
  induction items with
  | nil => rfl
  | cons item rest ih => exact congrArg (expr item :: ·) ih

theorem ofItem_entries (entries : List (String × Expr)) :
    (entries.map fun entry => Item.entry entry.1 entry.2).flatMap ofItem =
      ofExprs (entries.map Prod.snd) := by
  induction entries with
  | nil => rfl
  | cons entry rest ih => exact congrArg (expr entry.2 :: ·) ih

end Part

/-- All of some parts are made up of some of the tokens that stand in a row, throughout. -/
abbrev AllSpanned (w : Wording) (dialect : Dialect) (all : List Token) (parts : List Part) : Prop :=
  ∀ p ∈ parts, p.Throughout (Part.Spanned w dialect all)

section

variable {all : List Token}

theorem AllSpanned.arm {cond : Expr} {body : List Stmt} {arms : List (Expr × List Stmt)}
    {otherwise : Option (List Stmt)} (hc : (Part.expr cond).Throughout (Part.Spanned w dialect all))
    (hb : AllSpanned w dialect all (Part.ofStmts body))
    (ha : AllSpanned w dialect all (Part.ofArms arms otherwise)) :
    AllSpanned w dialect all (Part.ofArms ((cond, body) :: arms) otherwise) := by
  rw [Part.ofArms_cons]
  exact List.forall_mem_cons.2 ⟨hc, List.forall_mem_append.2 ⟨hb, ha⟩⟩

mutual

theorem DerivesExpr.spanned {k o n : Nat} {ts : List Token} {e : Expr} :
    DerivesExpr w dialect k o n ts e → ts <:+: all →
      (Part.expr e).Throughout (Part.Spanned w dialect all)
  | hd@(.null _), h | hd@(.litTrue _), h | hd@(.litFalse _), h | hd@(.number _), h | hd@(.text _), h
  | hd@(.name _), h => .intro ⟨_, h, .expr hd⟩ nofun
  | hd@(.array _ hi _), h => by
      refine .intro ⟨_, h, .expr hd⟩ ?_
      rw [Part.children, ← Part.ofItem_exprs]
      exact hi.spanned h.of_cons.of_append_left
  | hd@(.object _ hi _), h => by
      refine .intro ⟨_, h, .expr hd⟩ ?_
      rw [Part.children, ← Part.ofItem_entries]
      exact hi.spanned h.of_cons.of_append_left
  | hd@(.function _ hf), h => .intro ⟨_, h, .expr hd⟩ (hf.spanned h.of_cons)
  | hd@(.conditional _ hc _ hb ha), h =>
      have htail := h.of_cons.of_append_right
      .intro ⟨_, h, .expr hd⟩ <| AllSpanned.arm (hc.spanned h.of_cons.of_append_left)
        (hb.spanned htail.of_append_left) (ha.spanned htail.of_append_right)
  -- The parentheses are left out, and the expression inside has all its parts.
  | .group _ _ he _ _, h => he.spanned h.of_cons.of_append_left
  | hd@(.call hf _ _ _ _ hi _ _), h => by
      refine .intro ⟨_, h, .expr hd⟩ ?_
      rw [Part.children, ← Part.ofItem_exprs]
      exact List.forall_mem_cons.2
        ⟨hf.spanned h.of_append_left, hi.spanned h.of_append_right.of_cons.of_append_left⟩
  | hd@(.index hf _ _ _ _ hi _ _), h =>
      have hindex := hi.spanned h.of_append_right.of_cons.of_append_left
      .intro ⟨_, h, .expr hd⟩
        (List.forall_mem_cons.2 ⟨hf.spanned h.of_append_left, List.forall_mem_singleton.2 hindex⟩)
  | hd@(.property hf _ _ _ _ _), h =>
      .intro ⟨_, h, .expr hd⟩ (List.forall_mem_singleton.2 (hf.spanned h.of_append_left))
  | hd@(.unary _ he _ _), h =>
      .intro ⟨_, h, .expr hd⟩ (List.forall_mem_singleton.2 (he.spanned h.of_cons))
  | hd@(.binary hl _ _ _ hr _ _), h =>
      have hright := hr.spanned h.of_append_right.of_cons
      .intro ⟨_, h, .expr hd⟩
        (List.forall_mem_cons.2 ⟨hl.spanned h.of_append_left, List.forall_mem_singleton.2 hright⟩)

theorem DerivesItem.spanned {n : Nat} {ts : List Token} {a : Item} :
    DerivesItem w dialect n ts a → ts <:+: all → AllSpanned w dialect all (Part.ofItem a)
  | .expr hd _, h => List.forall_mem_singleton.2 (hd.spanned h)
  | .namedEntry _ _ hd _, h | .quotedEntry _ _ hd _, h =>
      List.forall_mem_singleton.2 (hd.spanned h.of_cons.of_cons)
  | .name _, _ => nofun

theorem DerivesItems.spanned {n : Nat} {ts : List Token} {items : List Item} :
    DerivesItems w dialect n ts items → ts <:+: all →
      AllSpanned w dialect all (items.flatMap Part.ofItem)
  | .nil, _ => nofun
  | .last hd, h => by
      rw [List.flatMap_singleton]
      exact hd.spanned h
  | .cons hd _ hs _, h => by
      rw [List.flatMap_cons]
      exact List.forall_mem_append.2
        ⟨hd.spanned h.of_append_left, hs.spanned h.of_append_right.of_cons⟩

theorem DerivesFunction.spanned {n : Nat} {ts : List Token} {params : List String}
    {body : List Stmt} : DerivesFunction w dialect n ts params body → ts <:+: all →
      AllSpanned w dialect all (Part.ofStmts body)
  | .intro _ _ _ hb, h => hb.spanned h.of_cons.of_append_right.of_cons

theorem DerivesArms.spanned {n : Nat} {ts : List Token} {arms : List (Expr × List Stmt)}
    {otherwise : Option (List Stmt)} : DerivesArms w dialect n ts arms otherwise →
      ts <:+: all → AllSpanned w dialect all (Part.ofArms arms otherwise)
  | .none, _ => nofun
  | .orElse _ hb, h => hb.spanned h.of_cons
  | .elseIf _ hc _ hb ha, h =>
      have htail := h.of_cons.of_append_right
      .arm (hc.spanned h.of_cons.of_append_left) (hb.spanned htail.of_append_left)
        (ha.spanned htail.of_append_right)

theorem DerivesBlock.spanned {n : Nat} {ts : List Token} {body : List Stmt} :
    DerivesBlock w dialect n ts body → ts <:+: all → AllSpanned w dialect all (Part.ofStmts body)
  | .intro _ hd _ _, h => hd.spanned h.of_cons.of_append_left

theorem DerivesStmt.spanned {top : Bool} {n : Nat} {ts : List Token} {s : Stmt} :
    DerivesStmt w dialect top n ts s → ts <:+: all →
      (Part.stmt s).Throughout (Part.Spanned w dialect all)
  | hd@(.metadata _ he _ _), h | hd@(.out _ he _), h | hd@(.backWith _ he _ _), h =>
      .intro ⟨_, h, .stmt hd⟩ (List.forall_mem_singleton.2 (he.spanned h.of_cons))
  | hd@(.namedMetadata _ _ he _ _), h =>
      .intro ⟨_, h, .stmt hd⟩ (List.forall_mem_singleton.2 (he.spanned h.of_cons.of_cons))
  | hd@(.define _ _ _ he _), h =>
      .intro ⟨_, h, .stmt hd⟩ (List.forall_mem_singleton.2 (he.spanned h.of_cons.of_cons.of_cons))
  | hd@(.defineFunction ht hu hf), h =>
      have hfunction := .intro ⟨_, h, .named ht hu hf⟩ (hf.spanned h.of_cons.of_cons)
      .intro ⟨_, h, .stmt hd⟩ (List.forall_mem_singleton.2 hfunction)
  | hd@(.assign ht _ _ _ hv _), h =>
      have hvalue := hv.spanned h.of_append_right.of_cons
      .intro ⟨_, h, .stmt hd⟩
        (List.forall_mem_cons.2 ⟨ht.spanned h.of_append_left, List.forall_mem_singleton.2 hvalue⟩)
  | hd@(.back _), h | hd@(.leave _), h | hd@(.again _), h => .intro ⟨_, h, .stmt hd⟩ nofun
  | hd@(.loop _ hb), h => .intro ⟨_, h, .stmt hd⟩ (hb.spanned h.of_cons)
  | hd@(.each _ _ _ _ he _ hb), h | hd@(.count _ _ _ _ he _ hb), h =>
      have hrow := h.of_cons.of_cons.of_cons.of_cons
      .intro ⟨_, h, .stmt hd⟩
        (List.forall_mem_cons.2 ⟨he.spanned hrow.of_append_left, hb.spanned hrow.of_append_right⟩)
  | hd@(.eval he _), h => .intro ⟨_, h, .stmt hd⟩ (List.forall_mem_singleton.2 (he.spanned h))

theorem DerivesStmts.spanned {top : Bool} {n : Nat} {ts : List Token} {body : List Stmt} :
    DerivesStmts w dialect top n ts body → ts <:+: all →
      AllSpanned w dialect all (Part.ofStmts body)
  | .nil, _ => nofun
  | .semicolon _ _ hs, h => hs.spanned h.of_cons
  | .cons hd hs _, h =>
      List.forall_mem_cons.2 ⟨hd.spanned h.of_append_left, hs.spanned h.of_append_right⟩

end

end

/-! ## Parts as a text writes them -/

variable {Q : Pos → Prop}

namespace Part

/-- A part as a text writes it: where it stands, and what is assigned to. -/
structure Written (Q : Pos → Prop) (p : Part) : Prop where
  pos : Q p.pos
  place : ∀ pos target op value, p = .stmt (.assign pos target op value) → target.isPlace = true

theorem Spanned.written {all : List Token} {p : Part} (h : p.Spanned w dialect all)
    (hall : ∀ t ∈ all, Q t.pos) : p.Written Q := by
  obtain ⟨ts, hts, hspans⟩ := h
  constructor
  · obtain ⟨t, ht, -, hpos⟩ := hspans.startsAt.mem
    exact hpos ▸ hall t (hts.subset ht)
  · rintro pos target op value rfl
    cases hspans with
    | stmt h =>
        cases h with
        | assign _ _ hplace => exact hplace

end Part

/-- All of some parts are as a text writes them, throughout. -/
abbrev AllWritten (Q : Pos → Prop) (parts : List Part) : Prop :=
  ∀ p ∈ parts, p.Throughout (Part.Written Q)

theorem DerivesStmts.parts {top : Bool} {n : Nat} {ts : List Token} {body : List Stmt}
    (h : DerivesStmts w dialect top n ts body) (hts : ∀ t ∈ ts, Q t.pos) :
    AllWritten Q (Part.ofStmts body) :=
  fun p hp => (h.spanned List.infix_rfl p hp).imp fun _ hspanned => hspanned.written hts

end ScriptLab.Program
