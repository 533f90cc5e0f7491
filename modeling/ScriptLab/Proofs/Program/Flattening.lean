import ScriptLab.Proofs.Program.Depth
import ScriptLab.Proofs.Program.Lexing
import ScriptLab.Proofs.Program.Soundness

/-!
# Flattening

Without the tokens that leave no trace in the tree, what is left of the tokens of a program is the
program written out from left to right.
-/

namespace ScriptLab.Program

variable {dialect : Dialect}

/-- Tokens, and what is left of them without some matched pairs of parentheses, semicolons and
commas. -/
inductive Strips : List Token → List Token → Prop
  | nil : Strips [] []
  | keep {t ts us} (h : Strips ts us) : Strips (t :: ts) (t :: us)
  | group {l ts us r ts' us'} (hl : l.kind = .symbol .leftParen) (h : Strips ts us)
      (hr : r.kind = .symbol .rightParen) (h' : Strips ts' us') :
      Strips (l :: (ts ++ r :: ts')) (us ++ us')
  | drop {t ts us} (ht : t.kind = .symbol .semicolon ∨ t.kind = .symbol .comma)
      (h : Strips ts us) : Strips (t :: ts) us

theorem Strips.append {ts us ts' us' : List Token} (h : Strips ts us) (h' : Strips ts' us') :
    Strips (ts ++ ts') (us ++ us') := by
  induction h with
  | nil => exact h'
  | keep _ ih => exact .keep ih
  | group hl h hr _ _ ih =>
      have := Strips.group hl h hr ih
      simpa using this
  | drop ht _ ih => exact .drop ht ih

theorem Strips.single (t : Token) : Strips [t] [t] :=
  .keep .nil

/-- A condition on the tokens of a text, which the plain tokens of a tree need not meet. -/
theorem Wording.plain_ne {p : Prop} (h : Wording.plain = .written) : p := by
  cases h

mutual

theorem DerivesExpr.flatten {k o n : Nat} {ts : List Token} {e : Expr} :
    DerivesExpr .written dialect k o n ts e →
      ∃ us k o, Strips ts us ∧ ∀ n, DerivesExpr .plain dialect k o n us e
  | .null ht => ⟨_, _, _, .single _, fun _ => .null ht⟩
  | .litTrue ht => ⟨_, _, _, .single _, fun _ => .litTrue ht⟩
  | .litFalse ht => ⟨_, _, _, .single _, fun _ => .litFalse ht⟩
  | .number ht => ⟨_, _, _, .single _, fun _ => .number ht⟩
  | .text ht => ⟨_, _, _, .single _, fun _ => .text ht⟩
  | .name ht => ⟨_, _, _, .single _, fun _ => .name ht⟩
  | .array hl h hr => by
      obtain ⟨us, hs, hd⟩ := h.flatten
      exact ⟨_, _, _, .keep (hs.append (.single _)), fun n => .array hl (hd n) hr⟩
  | .object hl h hr => by
      obtain ⟨us, hs, hd⟩ := h.flatten
      exact ⟨_, _, _, .keep (hs.append (.single _)), fun n => .object hl (hd n) hr⟩
  | .function ht h => by
      obtain ⟨us, hs, hd⟩ := h.flatten
      exact ⟨_, _, _, .keep hs, fun n => .function ht (hd n)⟩
  | .conditional ht hc _ hb ha => by
      obtain ⟨us, k, o, hs, hd⟩ := hc.flatten
      obtain ⟨us', hs', hd'⟩ := hb.flatten
      obtain ⟨us'', hs'', hd''⟩ := ha.flatten
      exact ⟨_, _, _, .keep (hs.append (hs'.append hs'')),
        fun n => .conditional ht (hd n) Wording.plain_ne (hd' n) (hd'' n)⟩
  | .group _ hl h _ hr => by
      obtain ⟨us, k, o, hs, hd⟩ := h.flatten
      exact ⟨us ++ [], k, o, .group hl hs hr .nil, by rwa [List.append_nil]⟩
  | .call hf _ _ hl hbreak h _ hr => by
      obtain ⟨us, k, o, hs, hd⟩ := hf.flatten
      obtain ⟨us', hs', hd'⟩ := h.flatten
      exact ⟨_, _, _, hs.append (.keep (hs'.append (.single _))), fun n =>
        .call (hd n) Wording.plain_ne Wording.plain_ne hl hbreak (hd' n) Wording.plain_ne hr⟩
  | .index hf _ _ hl hbreak h _ hr => by
      obtain ⟨us, k, o, hs, hd⟩ := hf.flatten
      obtain ⟨us', k', o', hs', hd'⟩ := h.flatten
      exact ⟨_, _, _, hs.append (.keep (hs'.append (.single _))), fun n =>
        .index (hd n) Wording.plain_ne Wording.plain_ne hl hbreak (hd' n) Wording.plain_ne hr⟩
  | .property hf _ _ hdot ht _ => by
      obtain ⟨us, k, o, hs, hd⟩ := hf.flatten
      exact ⟨_, _, _, hs.append (.keep (.single _)), fun n =>
        .property (hd n) Wording.plain_ne Wording.plain_ne hdot ht Wording.plain_ne⟩
  | .unary ht h _ _ => by
      obtain ⟨us, k, o, hs, hd⟩ := h.flatten
      exact ⟨_, _, _, .keep hs, fun n => .unary ht (hd n) Wording.plain_ne Wording.plain_ne⟩
  | .binary hl _ _ ht hr _ _ => by
      obtain ⟨us, k, o, hs, hd⟩ := hl.flatten
      obtain ⟨us', k', o', hs', hd'⟩ := hr.flatten
      exact ⟨_, _, _, hs.append (.keep hs'), fun n =>
        .binary (hd n) Wording.plain_ne Wording.plain_ne ht (hd' n) Wording.plain_ne
          Wording.plain_ne⟩

theorem DerivesItem.flatten {n : Nat} {ts : List Token} {a : Item} :
    DerivesItem .written dialect n ts a →
      ∃ us, Strips ts us ∧ ∀ n, DerivesItem .plain dialect n us a
  | .expr h _ => by
      obtain ⟨us, k, o, hs, hd⟩ := h.flatten
      exact ⟨us, hs, fun n => .expr (hd n) Wording.plain_ne⟩
  | .namedEntry ht hcolon h _ => by
      obtain ⟨us, k, o, hs, hd⟩ := h.flatten
      exact ⟨_, .keep (.keep hs), fun n => .namedEntry ht hcolon (hd n) Wording.plain_ne⟩
  | .quotedEntry ht hcolon h _ => by
      obtain ⟨us, k, o, hs, hd⟩ := h.flatten
      exact ⟨_, .keep (.keep hs), fun n => .quotedEntry ht hcolon (hd n) Wording.plain_ne⟩
  | .name ht => ⟨_, .single _, fun _ => .name ht⟩

theorem DerivesItems.flatten {n : Nat} {ts : List Token} {items : List Item} :
    DerivesItems .written dialect n ts items →
      ∃ us, Strips ts us ∧ ∀ n, DerivesItems .plain dialect n us items
  | .nil => ⟨[], .nil, fun _ => .nil⟩
  | .last h => by
      obtain ⟨us, hs, hd⟩ := h.flatten
      exact ⟨us, hs, fun n => .last (hd n)⟩
  | @DerivesItems.cons _ _ _ _ _ _ _ rest h hcomma hs _ => by
      obtain ⟨us, hus, hd⟩ := h.flatten
      obtain ⟨us', hus', hd'⟩ := hs.flatten
      by_cases hne : rest = []
      -- A comma behind the last item goes.
      · subst hne
        have hnil : us' = [] := by
          cases hd' 0
          rfl
        subst hnil
        exact ⟨us ++ [], hus.append (.drop (.inr hcomma) hus'), fun n => by
          rw [List.append_nil]
          exact .last (hd n)⟩
      · exact ⟨_, hus.append (.keep hus'), fun n => .cons (hd n) hcomma (hd' n) fun _ => hne⟩

theorem DerivesFunction.flatten {n : Nat} {ts : List Token} {params : List String}
    {body : List Stmt} : DerivesFunction .written dialect n ts params body →
      ∃ us, Strips ts us ∧ ∀ n, DerivesFunction .plain dialect n us params body
  | .intro hl h hr hb => by
      obtain ⟨us, hs, hd⟩ := h.flatten
      obtain ⟨us', hs', hd'⟩ := hb.flatten
      exact ⟨_, .keep (hs.append (.keep hs')), fun n => .intro hl (hd n) hr (hd' n)⟩

theorem DerivesArms.flatten {n : Nat} {ts : List Token} {arms : List (Expr × List Stmt)}
    {otherwise : Option (List Stmt)} : DerivesArms .written dialect n ts arms otherwise →
      ∃ us, Strips ts us ∧ ∀ n, DerivesArms .plain dialect n us arms otherwise
  | .none => ⟨[], .nil, fun _ => .none⟩
  | .orElse ht hb => by
      obtain ⟨us, hs, hd⟩ := hb.flatten
      exact ⟨_, .keep hs, fun n => .orElse ht (hd n)⟩
  | .elseIf ht hc _ hb ha => by
      obtain ⟨us, k, o, hs, hd⟩ := hc.flatten
      obtain ⟨us', hs', hd'⟩ := hb.flatten
      obtain ⟨us'', hs'', hd''⟩ := ha.flatten
      exact ⟨_, .keep (hs.append (hs'.append hs'')),
        fun n => .elseIf ht (hd n) Wording.plain_ne (hd' n) (hd'' n)⟩

theorem DerivesBlock.flatten {n : Nat} {ts : List Token} {body : List Stmt} :
    DerivesBlock .written dialect n ts body →
      ∃ us, Strips ts us ∧ ∀ n, DerivesBlock .plain dialect n us body
  | .intro hl h _ hr => by
      obtain ⟨us, hs, hd⟩ := h.flatten
      exact ⟨_, .keep (hs.append (.single _)), fun n => .intro hl (hd n) Wording.plain_ne hr⟩

theorem DerivesStmt.flatten {top : Bool} {n : Nat} {ts : List Token} {s : Stmt} :
    DerivesStmt .written dialect top n ts s →
      ∃ us, Strips ts us ∧ ∀ n, DerivesStmt .plain dialect top n us s
  | .metadata ht h _ hstatic => by
      obtain ⟨us, k, o, hs, hd⟩ := h.flatten
      exact ⟨_, .keep hs, fun n => .metadata ht (hd n) Wording.plain_ne hstatic⟩
  | .namedMetadata ht hu h _ hstatic => by
      obtain ⟨us, k, o, hs, hd⟩ := h.flatten
      exact ⟨_, .keep (.keep hs), fun n => .namedMetadata ht hu (hd n) Wording.plain_ne hstatic⟩
  | .define ht hu hmark h _ => by
      obtain ⟨us, k, o, hs, hd⟩ := h.flatten
      exact ⟨_, .keep (.keep (.keep hs)), fun n => .define ht hu hmark (hd n) Wording.plain_ne⟩
  | .defineFunction ht hu h => by
      obtain ⟨us, hs, hd⟩ := h.flatten
      exact ⟨_, .keep (.keep hs), fun n => .defineFunction ht hu (hd n)⟩
  | .assign h _ hplace ht h' _ => by
      obtain ⟨us, k, o, hs, hd⟩ := h.flatten
      obtain ⟨us', k', o', hs', hd'⟩ := h'.flatten
      exact ⟨_, hs.append (.keep hs'), fun n =>
        .assign (hd n) Wording.plain_ne hplace ht (hd' n) Wording.plain_ne⟩
  | .out ht h _ => by
      obtain ⟨us, k, o, hs, hd⟩ := h.flatten
      exact ⟨_, .keep hs, fun n => .out ht (hd n) Wording.plain_ne⟩
  | .back ht => ⟨_, .single _, fun _ => .back ht⟩
  | .backWith ht h _ _ => by
      obtain ⟨us, k, o, hs, hd⟩ := h.flatten
      exact ⟨_, .keep hs, fun n => .backWith ht (hd n) Wording.plain_ne Wording.plain_ne⟩
  | .leave ht => ⟨_, .single _, fun _ => .leave ht⟩
  | .again ht => ⟨_, .single _, fun _ => .again ht⟩
  | .loop ht hb => by
      obtain ⟨us, hs, hd⟩ := hb.flatten
      exact ⟨_, .keep hs, fun n => .loop ht (hd n)⟩
  | .each ht hv hu hcomma h _ hb => by
      obtain ⟨us, k, o, hs, hd⟩ := h.flatten
      obtain ⟨us', hs', hd'⟩ := hb.flatten
      exact ⟨_, .keep (.keep (.keep (.keep (hs.append hs')))), fun n =>
        .each ht hv hu hcomma (hd n) Wording.plain_ne (hd' n)⟩
  | .count ht hv hu hcomma h _ hb => by
      obtain ⟨us, k, o, hs, hd⟩ := h.flatten
      obtain ⟨us', hs', hd'⟩ := hb.flatten
      exact ⟨_, .keep (.keep (.keep (.keep (hs.append hs')))), fun n =>
        .count ht hv hu hcomma (hd n) Wording.plain_ne (hd' n)⟩
  | .eval h _ => by
      obtain ⟨us, k, o, hs, hd⟩ := h.flatten
      exact ⟨us, hs, fun n => .eval (hd n) Wording.plain_ne⟩

theorem DerivesStmts.flatten {top : Bool} {n : Nat} {ts : List Token} {body : List Stmt} :
    DerivesStmts .written dialect top n ts body →
      ∃ us, Strips ts us ∧ ∀ n, DerivesStmts .plain dialect top n us body
  | .nil => ⟨[], .nil, fun _ => .nil⟩
  | .semicolon _ ht h => by
      obtain ⟨us, hs, hd⟩ := h.flatten
      exact ⟨us, .drop (.inl ht) hs, hd⟩
  | .cons h hs _ => by
      obtain ⟨us, hus, hd⟩ := h.flatten
      obtain ⟨us', hus', hd'⟩ := hs.flatten
      exact ⟨_, hus.append hus', fun n => .cons (hd n) (hd' n) Wording.plain_ne⟩

end

/-! ## Parsed programs -/

/-- A text that is parsed is a derivation of its program, up to the mark of its end, and without
grouping parentheses, semicolons and commas behind last items it is the program written out. -/
theorem parse_derives {dialect : Dialect} {code : String} {program : List Stmt}
    (h : parse dialect code = .ok program) :
    ∃ body last, tokens dialect code = .ok (body ++ [last]) ∧ last.kind = .done ∧
      DerivesStmts .written dialect true maxDepth body program ∧
      ∃ kept, Strips body kept ∧ DerivesStmts .plain dialect true maxDepth kept program := by
  obtain ⟨ts, hts, hp, -⟩ := parse_ok h
  obtain ⟨t, us, rfl, hended⟩ := ended_tokens hts
  obtain ⟨body, last, heq, hlast, hd⟩ := parseTokens_sound hended hp
  obtain ⟨kept, hkept, hplain⟩ := hd.flatten
  exact ⟨body, last, by rw [hts, heq], hlast, hd, kept, hkept, hplain maxDepth⟩

theorem parse_derives_grouped_product :
    ∃ program, parse .modern "a = (b + c) * d;" = .ok program ∧
      ∃ body last, tokens .modern "a = (b + c) * d;" = .ok (body ++ [last]) ∧ last.kind = .done ∧
        DerivesStmts .written .modern true maxDepth body program ∧
        ∃ kept, Strips body kept ∧ DerivesStmts .plain .modern true maxDepth kept program := by
  have hok : (parse .modern "a = (b + c) * d;").isOk = true := by
    decide +kernel
  cases h : parse .modern "a = (b + c) * d;" with
  | error fault =>
      rw [h] at hok
      cases hok
  | ok program => exact ⟨program, rfl, parse_derives h⟩

end ScriptLab.Program
