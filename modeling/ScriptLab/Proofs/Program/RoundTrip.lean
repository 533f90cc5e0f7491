import ScriptLab.Proofs.Program.Completeness
import ScriptLab.Proofs.Program.Lexing
import ScriptLab.Proofs.Program.Printing
import ScriptLab.Proofs.Program.Words

/-!
# The parser inverts printing

The text of a program is cut into the words it was printed as, and these are parsed as the program. Only
the limit on nesting can get in the way, and it does not for a small program.
-/

namespace ScriptLab.Program

open Text (Pos)

variable {dialect : Dialect} {cs rest gap : List Char} (pos : Pos) (cut : List Token)

/-! ## Cutting off one word -/

/-- A word behind a gap is cut off as the token it was printed for. -/
theorem cutTokens_word {kind : TokenKind} {chars : List Char} (h : ReadsBack dialect kind chars)
    (hrest : Apart rest) (hgap : gap = [] ∨ gap = [' '] ∨ gap = ['\n']) :
    ∃ pos' pos'', cutTokens dialect pos cut (gap ++ (chars ++ rest)) =
      cutTokens dialect pos'' (⟨kind, pos', gap.contains '\n'⟩ :: cut) rest := by
  obtain ⟨c, ds, rfl, hblank, hslash, hlexeme⟩ := h.lexeme rest hrest
  have hword (seen : List Char) := cutGap_word seen hblank hslash hrest
  have hcut : cutGap .blank [] (gap ++ (c :: ds ++ rest)) = .ok (gap, c :: (ds ++ rest)) := by
    rcases hgap with rfl | rfl | rfl
    · exact hword []
    · exact hword [' ']
    · exact hword ['\n']
  exact ⟨_, _, cutTokens_lexeme pos cut hcut hlexeme⟩

/-! ## Cutting a printed program -/

/-- The gap before a word that is not the first one. -/
def Word.separator (word : Word) : List Char :=
  if word.startsLine then ['\n'] else [' ']

theorem following_cons (word : Word) (rest : List Word) :
    following dialect (word :: rest) =
      word.separator ++ (word.kind.spelling dialect ++ following dialect rest) := by
  cases h : word.startsLine <;> simp [following, Word.separator, h]

theorem Word.separator_cases (word : Word) : word.separator = [] ∨ word.separator = [' '] ∨ word.separator = ['\n'] := by
  cases h : word.startsLine <;> simp [separator, h]

theorem Word.separator_contains (word : Word) : word.separator.contains '\n' = word.startsLine := by
  cases h : word.startsLine <;> simp [separator, h]

theorem apart_following (words : List Word) : Apart (following dialect words) := by
  cases words with
  | nil => exact .done
  | cons word rest =>
    rw [following_cons]
    cases h : word.startsLine with
    | false =>
      rw [Word.separator, h]
      exact .space
    | true =>
      rw [Word.separator, h]
      exact .line

theorem cutTokens_following {words : List Word} (h : ReadBack dialect words) :
    ∃ ts last, cutTokens dialect pos cut (following dialect words) =
      .ok (cut.reverse ++ (ts ++ [last])) ∧ last.kind = .done ∧ Spells ts words := by
  induction words generalizing pos cut with
  | nil =>
    have hgap : cutGap .blank [] [] = .ok ([], []) := rfl
    have hdone : cutTokens dialect pos cut [] = _ := cutTokens_done pos cut hgap
    rw [List.reverse_cons] at hdone
    exact ⟨[], _, hdone, rfl, rfl⟩
  | cons word rest ih =>
    have hword := h word List.mem_cons_self
    obtain ⟨pos', pos'', hcut⟩ :=
      cutTokens_word pos cut hword (apart_following rest) word.separator_cases
    rw [word.separator_contains] at hcut
    obtain ⟨ts, last, hts, hlast, hspells⟩ := ih pos''
      (⟨word.kind, pos', word.startsLine⟩ :: cut) (fun w hw => h w (List.mem_cons_of_mem _ hw))
    rw [List.reverse_cons, List.append_assoc] at hts
    refine ⟨⟨word.kind, pos', word.startsLine⟩ :: ts, last, ?_, hlast, ?_⟩
    · rw [following_cons, hcut, hts]
      rfl
    · exact congrArg (word :: ·) hspells

/-- A printed program is cut into its words. -/
theorem tokens_print {program : List Stmt} (h : WritableStmts dialect true program) :
    ∃ ts last, tokens dialect (print dialect program) = .ok (ts ++ [last]) ∧ last.kind = .done ∧
      Spells ts (wordsOfStmts dialect false program) := by
  have hread := readBackStmts program h false
  have hhead := head_wordsOfStmts false h
  unfold tokens print
  rw [String.toList_ofList]
  generalize wordsOfStmts dialect false program = words at hread hhead
  cases words with
  | nil => exact cutTokens_following .start [] hread
  | cons word rest =>
    have hline : word.startsLine = false := hhead word rfl
    obtain ⟨pos', pos'', hcut⟩ := cutTokens_word .start [] (hread word List.mem_cons_self)
      (apart_following rest) (.inl rfl)
    obtain ⟨ts, last, hts, hlast, hspells⟩ :=
      cutTokens_following pos'' [⟨word.kind, pos', false⟩]
        (fun w hw => hread w (List.mem_cons_of_mem _ hw))
    refine ⟨⟨word.kind, pos', false⟩ :: ts, last, hcut.trans hts, hlast, ?_⟩
    have hfirst : Token.word ⟨word.kind, pos', false⟩ = word := by
      rw [Token.word, ← hline]
    unfold Spells at hspells ⊢
    rw [List.map_cons, hfirst, hspells]

/-! ## Parsing a printed program -/

/-- Parsing gives back the program that was printed, or the program nests too deeply; one with at most
forty statements and expressions does not. -/
theorem parse_print (dialect : Dialect) (program : List Stmt) (h : WritableStmts dialect true program) :
    (∃ parsed, parse dialect (print dialect program) = .ok parsed ∧ SameShape parsed program) ∨
      40 < nodesOfStmts program ∧
        ∃ pos, parse dialect (print dialect program) = .error ⟨.nestedTooDeep, pos⟩ := by
  obtain ⟨ts, last, htokens, hlast, hspells⟩ := tokens_print h
  obtain ⟨parsed, hderives, hshape⟩ :=
    printedStmts true program h false ts (2 * nodesOfStmts program) (Nat.le_refl _) hspells
  have hnodes := hshape.nodes
  unfold parse
  rw [htokens]
  rcases parseTokens_of_derives hderives hlast with hok | ⟨hdeep, pos, herror⟩
  · have hbind : (parseTokens dialect (ts ++ [last]) : Except Fault (List Stmt)) = .ok parsed := hok
    cases htree : firstTooDeep parsed with
    | none =>
      refine .inl ⟨parsed, ?_, hshape⟩
      simp only [bind, Except.bind, hok, htree]
    | some pos =>
      refine .inr ⟨?_, pos, ?_⟩
      · by_contra hsmall
        rw [firstTooDeep_of_nodes_le (by rw [hnodes, maxTreeDepth]; omega)] at htree
        cases htree
      · simp only [bind, Except.bind, hok, htree]
  · refine .inr ⟨?_, pos, ?_⟩
    · rw [maxDepth] at hdeep
      omega
    · simp only [bind, Except.bind, herror]

theorem parse_print_grouped_sum :
    ∃ program, WritableStmts .legacy true program ∧ nodesOfStmts program = 8 ∧
      ∃ parsed, parse .legacy (print .legacy program) = .ok parsed ∧ SameShape parsed program := by
  have hliteral : IsLiteral (Number.ofNat 1) := ⟨4503599627370496, -52, by decide +kernel⟩
  have hname : Dialect.Names .legacy "a" := ⟨.of_all rfl rfl, by decide⟩
  let program : List Stmt :=
    [.define .start "a" false (.binary .start .mul
      (.binary .start .add (.num .start (Number.ofNat 1)) (.str .start "b\"")) (.ident .start "a")),
      .loop .start [.leave .start]]
  have hwritable : WritableStmts .legacy true program :=
    ⟨⟨hname, ⟨hliteral, trivial⟩, hname⟩, ⟨trivial, trivial⟩, trivial⟩
  have hnodes : nodesOfStmts program = 8 := rfl
  refine ⟨program, hwritable, hnodes, ?_⟩
  rcases parse_print .legacy program hwritable with hok | ⟨hmany, -⟩
  · exact hok
  · omega

end ScriptLab.Program
