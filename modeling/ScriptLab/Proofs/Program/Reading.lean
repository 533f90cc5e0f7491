import ScriptLab.Program.Parser

/-!
# Reading tokens, step by step

Parsers as functions on cursors: what a sequence of parsers does, what the parsers for single tokens
do, and which tokens lie between two cursors.
-/

namespace ScriptLab.Program

variable {α β : Type} {dialect : Dialect}

/-! ## Sequencing -/

namespace Parser

theorem bind_apply (p : Parser α) (f : α → Parser β) (c : Cursor) :
    (p >>= f) c = match p c with
      | .ok (a, c') => f a c'
      | .error fault => .error fault := by
  change (p c >>= fun r => f r.1 r.2) = _
  cases p c <;> rfl

@[simp] theorem pure_apply (a : α) (c : Cursor) : (pure a : Parser α) c = .ok (a, c) := rfl

@[simp] theorem get_apply (c : Cursor) : (get : Parser Cursor) c = .ok (c, c) := rfl

@[simp] theorem modify_apply (f : Cursor → Cursor) (c : Cursor) :
    (modify f : Parser PUnit) c = .ok (⟨⟩, f c) := rfl

@[simp] theorem peek_apply (c : Cursor) : peek c = .ok (c.next, c) := rfl

@[simp] theorem take_apply (c : Cursor) : take c = .ok (c.next, c.advance) := rfl

@[simp] theorem rounds_apply (c : Cursor) : rounds c = .ok (c.rest.length + 1, c) := rfl

/-- A sequence succeeds as its parts do, one after the other. -/
theorem bind_ok {p : Parser α} {f : α → Parser β} {c c' : Cursor} {b : β}
    (h : (p >>= f) c = .ok (b, c')) : ∃ a c₁, p c = .ok (a, c₁) ∧ f a c₁ = .ok (b, c') := by
  rw [bind_apply] at h
  cases hp : p c with
  | ok r =>
      rw [hp] at h
      exact ⟨r.1, r.2, rfl, h⟩
  | error fault =>
      rw [hp] at h
      cases h

theorem bind_of_ok {p : Parser α} {c c₁ : Cursor} {a : α} (h : p c = .ok (a, c₁))
    (f : α → Parser β) : (p >>= f) c = f a c₁ := by
  rw [bind_apply, h]

theorem bind_of_error {p : Parser α} {c : Cursor} {fault : Fault} (h : p c = .error fault)
    (f : α → Parser β) : (p >>= f) c = .error fault := by
  rw [bind_apply, h]

end Parser

/-! ## Tokens before a cursor -/

namespace Cursor

/-- The cursor from which some tokens lead to this one. -/
def before (c : Cursor) : List Token → Cursor
  | [] => c
  | t :: ts => ⟨t, ts ++ c.next :: c.rest, c.depth⟩

@[simp] theorem before_nil (c : Cursor) : c.before [] = c := rfl

@[simp] theorem before_cons_next (c : Cursor) (t : Token) (ts : List Token) :
    (c.before (t :: ts)).next = t := rfl

@[simp] theorem before_depth (c : Cursor) (ts : List Token) : (c.before ts).depth = c.depth := by
  cases ts <;> rfl

theorem before_append (c : Cursor) (ts us : List Token) :
    c.before (ts ++ us) = (c.before us).before ts := by
  cases ts with
  | nil => rfl
  | cons t ts =>
      cases us with
      | nil => rw [List.append_nil]; rfl
      | cons u us => simp [before]

@[simp] theorem advance_before (c : Cursor) (t : Token) (ts : List Token) :
    (c.before (t :: ts)).advance = c.before ts := by
  cases ts <;> rfl

/-- The cursor with one level more open. -/
def deeper (c : Cursor) : Cursor :=
  { c with depth := c.depth + 1 }

@[simp] theorem deeper_depth (c : Cursor) : c.deeper.depth = c.depth + 1 := rfl

theorem deeper_before (c : Cursor) (ts : List Token) :
    (c.before ts).deeper = c.deeper.before ts := by
  cases ts <;> rfl

end Cursor

/-! ## Tokens of a dialect -/

/-- Whether a dialect has tokens of a kind. -/
def TokenKind.Belongs (dialect : Dialect) : TokenKind → Prop
  | .keyword word => (word.spelling? dialect).isSome = true
  | .symbol s => s ∈ Symbol.ofDialect dialect
  | _ => True

/-- Tokens, the first one apart, of which the last one and no other marks the end. -/
inductive Ended (dialect : Dialect) : Token → List Token → Prop
  | last {t} (ht : t.kind = .done) : Ended dialect t []
  | cons {t u ts} (ht : t.kind ≠ .done) (hd : t.kind.Belongs dialect) (h : Ended dialect u ts) :
      Ended dialect t (u :: ts)

/-- A cursor over tokens of a dialect up to the mark of the end. -/
def Cursor.Proper (dialect : Dialect) (c : Cursor) : Prop :=
  Ended dialect c.next c.rest

/-- The tokens that lie between a cursor and a later one. -/
structure Reads (dialect : Dialect) (c : Cursor) (ts : List Token) (c' : Cursor) : Prop where
  start : c = c'.before ts
  proper : c'.Proper dialect

namespace Reads

variable {c c₁ c' : Cursor} {ts us : List Token}

theorem refl (h : c.Proper dialect) : Reads dialect c [] c :=
  ⟨rfl, h⟩

theorem trans (h : Reads dialect c ts c₁) (h' : Reads dialect c₁ us c') :
    Reads dialect c (ts ++ us) c' :=
  ⟨by rw [h.start, h'.start, Cursor.before_append], h'.proper⟩

theorem depth (h : Reads dialect c ts c') : c'.depth = c.depth := by
  rw [h.start, Cursor.before_depth]

/-- The first token that is read is the next one. -/
theorem head (h : Reads dialect c ts c') {t : Token} (ht : t ∈ ts.head?) : t = c.next := by
  cases ts with
  | nil => cases ht
  | cons u us =>
      rw [h.start]
      cases ht
      rfl

/-- A token other than the last one is read by moving on. -/
theorem advance (h : c.Proper dialect) (hnext : c.next.kind ≠ .done) :
    Reads dialect c [c.next] c.advance := by
  obtain ⟨t, ts, depth⟩ := c
  cases h with
  | last ht => exact absurd ht hnext
  | cons _ _ h => exact ⟨rfl, h⟩

/-- Closing the level again leads to the cursor behind the same tokens. -/
theorem close {c c₁ : Cursor} (h : Reads dialect c.deeper ts c₁) :
    Reads dialect c ts { c₁ with depth := c₁.depth - 1 } := by
  refine ⟨?_, h.proper⟩
  have hdepth : c₁.depth = c.depth + 1 := h.depth
  have hstart := h.start
  cases ts with
  | nil =>
      have : c₁ = c.deeper := hstart.symm
      subst this
      rfl
  | cons t ts =>
      have hnext : c.next = t := congrArg Cursor.next hstart
      have hrest : c.rest = ts ++ c₁.next :: c₁.rest := congrArg Cursor.rest hstart
      obtain ⟨u, us, depth⟩ := c
      subst hnext hrest
      simp [Cursor.before, hdepth]

end Reads

theorem Cursor.Proper.deeper {c : Cursor} (h : c.Proper dialect) : c.deeper.Proper dialect := h

/-- The next token of a cursor is one of its dialect. -/
theorem Cursor.Proper.belongs {c : Cursor} (h : c.Proper dialect) :
    c.next.kind.Belongs dialect := by
  obtain ⟨t, ts, depth⟩ := c
  cases h with
  | last ht =>
      show t.kind.Belongs dialect
      rw [ht]
      trivial
  | cons _ hd _ => exact hd

/-! ## Operators -/

/-- An operator that goes on at a token binds at most as tightly as a precedence. -/
def Below (least : Nat) (t : Token) : Prop :=
  ∀ op, t.binaryOp? = some op → op.precedence ≤ least

theorem precedence_le (op : BinaryOp) : op.precedence ≤ 6 := by
  cases op <;> decide

/-! ## Parsers for single tokens -/

namespace Parser

variable {c c' : Cursor}

theorem name_ok {word : String} (h : name c = .ok (word, c')) (hc : c.Proper dialect) :
    ∃ t, t.kind = .name word ∧ Reads dialect c [t] c' := by
  unfold name at h
  rw [bind_of_ok (take_apply c)] at h
  cases hk : c.next.kind with
  | name w =>
      rw [hk] at h
      cases h
      exact ⟨c.next, hk, .advance hc (by rw [hk]; exact TokenKind.noConfusion)⟩
  | _ =>
      rw [hk] at h
      cases h

theorem expect_ok {kind : TokenKind} (h : expect kind c = .ok ((), c')) (hc : c.Proper dialect)
    (hkind : kind ≠ .done) : ∃ t, t.kind = kind ∧ Reads dialect c [t] c' := by
  unfold expect at h
  rw [bind_of_ok (get_apply c)] at h
  by_cases hk : c.next.kind = kind
  · rw [if_pos hk] at h
    cases h
    exact ⟨c.next, hk, .advance hc (by rw [hk]; exact hkind)⟩
  · rw [if_neg hk] at h
    cases h

theorem eat_apply (kind : TokenKind) (c : Cursor) :
    eat kind c = if c.next.kind = kind then .ok (true, c.advance) else .ok (false, c) := by
  unfold eat
  rw [bind_of_ok (get_apply c)]
  by_cases h : c.next.kind = kind
  · rw [if_pos h, if_pos h]
    rfl
  · rw [if_neg h, if_neg h]
    rfl

theorem eat_ok {kind : TokenKind} {b : Bool} (h : eat kind c = .ok (b, c')) :
    (b = true ∧ c.next.kind = kind ∧ c' = c.advance) ∨
      (b = false ∧ c.next.kind ≠ kind ∧ c' = c) := by
  rw [eat_apply] at h
  by_cases hk : c.next.kind = kind
  · rw [if_pos hk] at h
    cases h
    exact .inl ⟨rfl, hk, rfl⟩
  · rw [if_neg hk] at h
    cases h
    exact .inr ⟨rfl, hk, rfl⟩

theorem nested_apply (p : Parser α) (c : Cursor) :
    nested p c = if maxDepth < c.depth + 1 then .error ⟨.nestedTooDeep, c.next.pos⟩
      else match p c.deeper with
        | .ok (a, c') => .ok (a, { c' with depth := c'.depth - 1 })
        | .error fault => .error fault := by
  unfold nested
  rw [bind_of_ok (get_apply c)]
  by_cases h : maxDepth < c.depth + 1
  · rw [if_pos h, if_pos h]
    rfl
  · rw [if_neg h, if_neg h]
    change ((p >>= fun a => modify _ >>= fun _ => pure a) c.deeper) = _
    rw [bind_apply]
    cases p c.deeper <;> rfl

/-- A parser within one level more reads what it reads from the deeper cursor. -/
theorem nested_ok {p : Parser α} {a : α} (h : nested p c = .ok (a, c')) :
    c.depth + 1 ≤ maxDepth ∧ ∃ c₁, p c.deeper = .ok (a, c₁) ∧
      c' = { c₁ with depth := c₁.depth - 1 } := by
  rw [nested_apply] at h
  split at h
  · cases h
  · next hroom =>
      refine ⟨Nat.le_of_not_lt hroom, ?_⟩
      cases hp : p c.deeper with
      | ok r =>
          rw [hp] at h
          cases h
          exact ⟨r.2, rfl, rfl⟩
      | error fault =>
          rw [hp] at h
          cases h

end Parser

end ScriptLab.Program
