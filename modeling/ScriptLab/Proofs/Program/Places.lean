import ScriptLab.Program.Equality
import ScriptLab.Proofs.Program.Cutting
import ScriptLab.Proofs.Program.Joining
import ScriptLab.Proofs.Program.Parts

/-!
# Where the parts of a program stand

Each token of a text stands behind the one before it. A part of a program stands where its own tokens start,
so that nothing inside it stands before it, and the parts directly inside it stand one behind the other.
-/

namespace ScriptLab.Program

open Text (Pos)

variable {w : Wording} {dialect : Dialect}

/-! ## The order of tokens -/

/-- The places of parts that stand, in this order, at some of the tokens of a row. -/
def InOrder (ts : List Token) (parts : List Part) : Prop :=
  (parts.map Part.pos).Sublist (ts.map Token.pos)

namespace InOrder

variable {ts us : List Token} {parts rest : List Part}

theorem nil : InOrder ts [] :=
  List.nil_sublist _

theorem append (h : InOrder ts parts) (h' : InOrder us rest) : InOrder (ts ++ us) (parts ++ rest) := by
  unfold InOrder
  rw [List.map_append, List.map_append]
  exact List.Sublist.append h h'

theorem cons (h : InOrder ts parts) (t : Token) : InOrder (t :: ts) parts :=
  List.Sublist.cons t.pos h

theorem behind (h : InOrder ts parts) (us : List Token) : InOrder (ts ++ us) parts :=
  List.append_nil parts ▸ h.append nil

theorem single {p : Part} (h : StartsAt ts p.pos) : InOrder ts [p] := by
  obtain ⟨t, ht, -, hpos⟩ := h.mem
  exact List.singleton_sublist.2 (hpos ▸ List.mem_map_of_mem ht)

end InOrder

theorem DerivesExpr.inOrder {k o n : Nat} {ts : List Token} {e : Expr}
    (h : DerivesExpr w dialect k o n ts e) : InOrder ts [.expr e] :=
  .single h.startsAt

mutual

theorem DerivesItem.inOrder {n : Nat} {ts : List Token} {a : Item}
    (h : DerivesItem w dialect n ts a) : InOrder ts (Part.ofItem a) := by
  cases h with
  | expr h => exact h.inOrder
  | namedEntry _ _ h | quotedEntry _ _ h => exact (h.inOrder.cons _).cons _
  | name => exact .nil

theorem DerivesItems.inOrder {n : Nat} {ts : List Token} {items : List Item} :
    DerivesItems w dialect n ts items → InOrder ts (items.flatMap Part.ofItem)
  | .nil => .nil
  | .last h => by
      rw [List.flatMap_singleton]
      exact h.inOrder
  | .cons h _ hs _ => by
      rw [List.flatMap_cons]
      exact h.inOrder.append (hs.inOrder.cons _)

theorem DerivesStmts.inOrder {top : Bool} {n : Nat} {ts : List Token} {body : List Stmt} :
    DerivesStmts w dialect top n ts body → InOrder ts (Part.ofStmts body)
  | .nil => .nil
  | .semicolon _ _ hs => hs.inOrder.cons _
  | .cons h hs _ => (InOrder.single (p := .stmt _) h.startsAt).append hs.inOrder

theorem DerivesBlock.inOrder {n : Nat} {ts : List Token} {body : List Stmt}
    (h : DerivesBlock w dialect n ts body) : InOrder ts (Part.ofStmts body) := by
  cases h with
  | intro _ h => exact (h.inOrder.behind _).cons _

theorem DerivesFunction.inOrder {n : Nat} {ts : List Token} {params : List String} {body : List Stmt}
    (h : DerivesFunction w dialect n ts params body) : InOrder ts (Part.ofStmts body) := by
  cases h with
  | intro _ _ _ hb => exact (InOrder.nil.append (hb.inOrder.cons _)).cons _

theorem DerivesArms.inOrder {n : Nat} {ts : List Token} {arms : List (Expr × List Stmt)}
    {otherwise : Option (List Stmt)} :
    DerivesArms w dialect n ts arms otherwise → InOrder ts (Part.ofArms arms otherwise)
  | .none => .nil
  | .orElse _ hb => hb.inOrder.cons _
  | .elseIf _ hc _ hb ha => by
      rw [Part.ofArms_cons]
      exact (hc.inOrder.append (hb.inOrder.append ha.inOrder)).cons _

theorem DerivesExpr.children_inOrder {k o n : Nat} {ts : List Token} {e : Expr} :
    DerivesExpr w dialect k o n ts e → InOrder ts (Part.expr e).children
  | .null _ | .litTrue _ | .litFalse _ | .number _ | .text _ | .name _ => .nil
  | .array _ h _ => by
      rw [Part.children, ← Part.ofItem_exprs]
      exact (h.inOrder.behind _).cons _
  | .object _ h _ => by
      rw [Part.children, ← Part.ofItem_entries]
      exact (h.inOrder.behind _).cons _
  | .function _ h => h.inOrder.cons _
  | .conditional _ hc _ hb ha => by
      rw [Part.children, ← Part.ofArms, Part.ofArms_cons]
      exact (hc.inOrder.append (hb.inOrder.append ha.inOrder)).cons _
  | .group _ _ h _ _ => (h.children_inOrder.behind _).cons _
  | .call hf _ _ _ _ h _ _ => by
      rw [Part.children, ← Part.ofItem_exprs]
      exact hf.inOrder.append ((h.inOrder.behind _).cons _)
  | .index hf _ _ _ _ h _ _ => hf.inOrder.append ((h.inOrder.behind _).cons _)
  | .property hf _ _ _ _ _ => hf.inOrder.behind _
  | .unary _ h _ _ => h.inOrder.cons _
  | .binary hl _ _ _ hr _ _ => hl.inOrder.append (hr.inOrder.cons _)

end

theorem DerivesStmt.children_inOrder {top : Bool} {n : Nat} {ts : List Token} {s : Stmt}
    (h : DerivesStmt w dialect top n ts s) : InOrder ts (Part.stmt s).children := by
  cases h with
  | metadata _ h | out _ h | backWith _ h => exact h.inOrder.cons _
  | namedMetadata _ _ h => exact (h.inOrder.cons _).cons _
  | define _ _ _ h => exact ((h.inOrder.cons _).cons _).cons _
  | @defineFunction _ _ t u _ ts params body ht =>
      have hplace : StartsAt (t :: u :: ts) (Expr.fn t.pos params body).pos :=
        .here (by rw [ht]; exact nofun)
      exact .single hplace
  | assign h _ _ _ h' => exact h.inOrder.append (h'.inOrder.cons _)
  | back | leave | again => exact .nil
  | loop _ hb => exact hb.inOrder.cons _
  | each _ _ _ _ h _ hb | count _ _ _ _ h _ hb =>
      exact ((((h.inOrder.append hb.inOrder).cons _).cons _).cons _).cons _
  | eval h => exact h.inOrder

/-- The parts directly inside a part stand in their order at some of its tokens. -/
theorem Part.Spans.children_inOrder {ts : List Token} {p : Part} (h : p.Spans w dialect ts) :
    InOrder ts p.children := by
  cases h with
  | stmt h => exact h.children_inOrder
  | expr h => exact h.children_inOrder
  | named _ _ h => exact (h.inOrder.cons _).cons _

/-! ## Parts in their places -/

theorem Part.Spans.spanned {ts : List Token} {p : Part} (h : p.Spans w dialect ts) :
    p.Throughout (Part.Spanned w dialect ts) := by
  cases h with
  | stmt h => exact h.spanned List.infix_rfl
  | expr h => exact h.spanned List.infix_rfl
  | named ht hu h =>
      exact .intro ⟨_, List.infix_rfl, .named ht hu h⟩ (h.spanned List.infix_rfl.of_cons.of_cons)

end ScriptLab.Program
