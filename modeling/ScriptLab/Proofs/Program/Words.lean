import ScriptLab.Proofs.Program.Spelling

/-!
# The words of a program read back

Every word of a program that a dialect can write is cut off a text as the token that it was printed for.
-/

namespace ScriptLab.Program

open Text (Pos)

/-- Words that are cut off a text as what they were printed for. -/
def ReadBack (dialect : Dialect) (words : List Word) : Prop :=
  ∀ word ∈ words, ReadsBack dialect word.kind (word.kind.spelling dialect)

variable {dialect : Dialect} {words rest : List Word} {line : Bool}

namespace ReadBack

theorem nil : ReadBack dialect [] :=
  fun _ h => nomatch h

theorem cons {word : Word} (h : ReadsBack dialect word.kind (word.kind.spelling dialect))
    (hrest : ReadBack dialect rest) : ReadBack dialect (word :: rest) := by
  intro other hother
  rcases List.mem_cons.1 hother with rfl | hother
  · exact h
  · exact hrest other hother

theorem append (h : ReadBack dialect words) (hrest : ReadBack dialect rest) :
    ReadBack dialect (words ++ rest) := by
  intro word hword
  rcases List.mem_append.1 hword with hword | hword
  · exact h word hword
  · exact hrest word hword

theorem shared_subset {s : Symbol} (hs : s ∈ Symbol.shared) : s ∈ Symbol.ofDialect dialect := by
  cases dialect with
  | legacy => exact List.mem_append_left _ (List.mem_cons_of_mem _ hs)
  | modern => exact List.mem_cons_of_mem _ (List.mem_cons_of_mem _ hs)

theorem symbol {s : Symbol} (hs : s ∈ Symbol.shared) (hrest : ReadBack dialect rest) :
    ReadBack dialect (⟨.symbol s, line⟩ :: rest) :=
  .cons (.symbol (shared_subset hs)) hrest

/-- The newer dialect has all keywords of the older one. -/
theorem spelling?_isSome {word : Keyword} (h : (word.spelling? .legacy).isSome = true) :
    (word.spelling? dialect).isSome = true := by
  cases dialect with
  | legacy => exact h
  | modern => cases word <;> rfl

theorem keyword {word : Keyword} (h : (word.spelling? .legacy).isSome = true)
    (hrest : ReadBack dialect rest) : ReadBack dialect (⟨.keyword word, line⟩ :: rest) :=
  .cons (.keyword (spelling?_isSome h)) hrest

theorem name {word : String} (h : dialect.Names word) (hrest : ReadBack dialect rest) :
    ReadBack dialect (⟨.name word, line⟩ :: rest) :=
  .cons (.name h) hrest

theorem grouped {needed : Bool} {words : Bool → List Word} (h : ∀ line, ReadBack dialect (words line)) :
    ReadBack dialect (grouped needed line words) := by
  cases needed with
  | false => exact h line
  | true => exact .symbol (by decide) ((h false).append (.symbol (by decide) .nil))

theorem separated {rows : List (List Word)} (h : ∀ row ∈ rows, ReadBack dialect row) :
    ReadBack dialect (separated rows) := by
  induction rows with
  | nil => exact .nil
  | cons row rows ih =>
    have hrow := h row List.mem_cons_self
    have hrows := ih fun row hrow => h row (List.mem_cons_of_mem _ hrow)
    cases rows with
    | nil => exact hrow
    | cons => exact hrow.append (.symbol (by decide) hrows)

theorem braced (h : ReadBack dialect words) : ReadBack dialect (braced words) :=
  .symbol (by decide) (h.append (.symbol (by decide) .nil))

/-- The first word of a definition, or of the variable of a loop. -/
theorem defining {isMutable : Bool} (hrest : ReadBack dialect rest) :
    ReadBack dialect (⟨(dialect.defining isMutable).1, line⟩ :: rest) := by
  cases dialect <;> cases isMutable
  · exact .cons (.symbol (by decide)) hrest
  · exact .cons (.symbol (by decide)) hrest
  · exact .cons (.keyword rfl) hrest
  · exact .cons (.keyword rfl) hrest

theorem defined {isMutable : Bool} (hrest : ReadBack dialect rest) :
    ReadBack dialect (⟨.symbol (dialect.defining isMutable).2, line⟩ :: rest) := by
  cases dialect <;> cases isMutable <;> exact .cons (.symbol (by decide)) hrest

theorem assigning {op : AssignOp} (hrest : ReadBack dialect rest) :
    ReadBack dialect (⟨.symbol (dialect.assigning op), line⟩ :: rest) := by
  cases dialect <;> cases op <;> exact .cons (.symbol (by decide)) hrest

theorem binary {op : BinaryOp} (hrest : ReadBack dialect rest) :
    ReadBack dialect (⟨.symbol op.symbol, line⟩ :: rest) :=
  .symbol (by cases op <;> decide) hrest

theorem unary {op : UnaryOp} (hrest : ReadBack dialect rest) :
    ReadBack dialect (⟨.symbol op.symbol, line⟩ :: rest) :=
  .symbol (by cases op <;> decide) hrest

end ReadBack

theorem readBack_params {params : List String} (h : ∀ param ∈ params, dialect.Names param) :
    ∀ row ∈ params.map (fun param => [Word.inline (.name param)]), ReadBack dialect row := by
  intro row hrow
  obtain ⟨param, hparam, rfl⟩ := List.mem_map.1 hrow
  exact .name (h param hparam) .nil

mutual

theorem Expr.readBack : ∀ (e : Expr), e.Writable dialect → ∀ line, ReadBack dialect (e.words dialect line)
  | .null _, _, _ => .keyword rfl .nil
  | .bool _ true, _, _ => .keyword rfl .nil
  | .bool _ false, _, _ => .keyword rfl .nil
  | .num _ _, h, _ => .cons (.number h) .nil
  | .str _ value, _, _ => .cons (.text value) .nil
  | .ident _ _, h, _ => .name h .nil
  | .arr _ items, h, _ =>
      .symbol (by decide) ((ReadBack.separated (readBackExprs items h)).append
        (.symbol (by decide) .nil))
  | .obj _ entries, h, _ =>
      .symbol (by decide) ((ReadBack.separated (readBackEntries entries h)).append
        (.symbol (by decide) .nil))
  | .fn _ _ body, h, _ =>
      .symbol (by decide) (.symbol (by decide) ((ReadBack.separated (readBack_params h.1)).append
        (.symbol (by decide) (readBackStmts body h.2 true).braced)))
  | .call _ callee args, h, _ =>
      (ReadBack.grouped (callee.readBack h.1)).append (.symbol (by decide)
        ((ReadBack.separated (readBackExprs args h.2)).append (.symbol (by decide) .nil)))
  | .index _ target index, h, _ =>
      (ReadBack.grouped (target.readBack h.1)).append (.symbol (by decide)
        ((index.readBack h.2 false).append (.symbol (by decide) .nil)))
  | .prop _ target _, h, _ =>
      (ReadBack.grouped (target.readBack h.1)).append (.symbol (by decide) (.name h.2 .nil))
  | .binary _ _ left right, h, _ =>
      (ReadBack.grouped (left.readBack h.1)).append (.binary (ReadBack.grouped (right.readBack h.2)))
  | .unary _ _ operand, h, _ => .unary (ReadBack.grouped (operand.readBack h))
  | .cond _ arms none, h, line => readBackArms arms h.2 rfl line
  | .cond _ arms (some body), h, line =>
      (readBackArms arms h.2.1 rfl line).append
        (.keyword rfl (readBackStmts body h.2.2 true).braced)

theorem readBackExprs : ∀ items : List Expr, WritableExprs dialect items →
    ∀ row ∈ wordsOfExprs dialect items, ReadBack dialect row
  | [], _, _, hrow => nomatch hrow
  | item :: rest, h, row, hrow => by
      rcases List.mem_cons.1 hrow with rfl | hrow
      · exact item.readBack h.1 false
      · exact readBackExprs rest h.2 row hrow

theorem readBackEntries : ∀ entries : List (String × Expr), WritableEntries dialect entries →
    ∀ row ∈ wordsOfEntries dialect entries, ReadBack dialect row
  | [], _, _, hrow => nomatch hrow
  | (key, value) :: rest, h, row, hrow => by
      rcases List.mem_cons.1 hrow with rfl | hrow
      · exact .cons (.text key) (.symbol (by decide) (value.readBack h.1 false))
      · exact readBackEntries rest h.2 row hrow

theorem readBackArms {word : Keyword} : ∀ arms : List (Expr × List Stmt), WritableArms dialect arms →
    (word.spelling? .legacy).isSome = true →
      ∀ line, ReadBack dialect (wordsOfArms dialect word line arms)
  | [], _, _, _ => .nil
  | (cond, body) :: rest, h, hword, _ =>
      .keyword hword ((cond.readBack h.1 false).append
        ((readBackStmts body h.2.1 true).braced.append (readBackArms rest h.2.2 rfl false)))

theorem Stmt.readBack {top : Bool} : ∀ s : Stmt, s.Writable dialect top →
    ∀ line, ReadBack dialect (s.words dialect line)
  | .metadata _ none value, h, _ => .symbol (by decide) (value.readBack h.2.2.1 false)
  | .metadata _ (some name) value, h, _ =>
      .symbol (by decide) (.name (h.2.1 name rfl) (value.readBack h.2.2.1 false))
  | .define _ _ _ value, h, _ => .defining (.name h.1 (.defined (value.readBack h.2 false)))
  | .assign _ target _ value, h, line =>
      (target.readBack h.2.2.1 line).append (.assigning (value.readBack h.2.2.2 false))
  | .out _ value, h, _ => .symbol (by decide) (value.readBack h false)
  | .back _ none, _, _ => .keyword rfl .nil
  | .back _ (some value), h, _ =>
      .keyword rfl (value.readBack h false)
  | .leave _, _, _ => .keyword rfl .nil
  | .again _, _, _ => .keyword rfl .nil
  | .loop _ body, h, _ =>
      .keyword rfl (readBackStmts body h true).braced
  | .each _ _ items body, h, _ =>
      .keyword rfl (.defining (.name h.1 (.symbol (by decide)
        ((items.readBack h.2.1 false).append (readBackStmts body h.2.2 true).braced))))
  | .count _ _ times body, h, _ =>
      .keyword rfl (.defining (.name h.1 (.symbol (by decide)
        ((times.readBack h.2.1 false).append (readBackStmts body h.2.2 true).braced))))
  | .eval _ value, h, line => value.readBack h line

theorem readBackStmts {top : Bool} : ∀ body : List Stmt, WritableStmts dialect top body →
    ∀ line, ReadBack dialect (wordsOfStmts dialect line body)
  | [], _, _ => .nil
  | s :: rest, h, line => (s.readBack h.1 line).append (readBackStmts rest h.2 true)

end

end ScriptLab.Program
