import ScriptLab.Proofs.Program.Completeness
import ScriptLab.Proofs.Program.DataText
import ScriptLab.Proofs.Program.Depth
import ScriptLab.Proofs.Value.Literals

/-!
# Data read back

The display form of a value without functions is a program of the modern dialect: one expression, which
is a literal and denotes the value again. Numbers have to be finite, strings free of quotes and
backslashes, and keys names of the dialect; and there is a limit to the nesting.
-/

namespace ScriptLab

open Program

/-! ## Data -/

/-- A key that is one name of the modern dialect: the lexer reads all of it as this name. -/
def IsNameKey (key : String) : Prop :=
  ∃ token last, tokens .modern key = .ok [token, last] ∧ token.kind = .name key

namespace Tree

mutual

/-- A tree with one zero for both. -/
def mergeZeros : Tree → Tree
  | .num x => .num (Number.mergeZeros x)
  | .arr items => .arr (mergeZerosItems items)
  | .obj entries => .obj (mergeZerosEntries entries)
  | .null => .null
  | .bool b => .bool b
  | .str text => .str text
  | .fn text => .fn text
  | .cut => .cut

/-- The items of an array with one zero for both. -/
def mergeZerosItems : List Tree → List Tree
  | [] => []
  | item :: rest => mergeZeros item :: mergeZerosItems rest

/-- The entries of an object with one zero for both. -/
def mergeZerosEntries : List (String × Tree) → List (String × Tree)
  | [] => []
  | (key, item) :: rest => (key, mergeZeros item) :: mergeZerosEntries rest

end

theorem mergeZerosEntries_eq (entries : List (String × Tree)) :
    mergeZerosEntries entries = entries.map fun entry => (entry.1, entry.2.mergeZeros) := by
  induction entries with
  | nil => rfl
  | cons entry rest ih => rw [mergeZerosEntries, ih, List.map_cons]

/-- Data with at most so many arrays and objects one inside the other. The keys of an object are
different from each other, as they are in every object of the language. -/
inductive Data : Nat → Tree → Prop
  | null {n : Nat} : Data n .null
  | bool {n : Nat} (b : Bool) : Data n (.bool b)
  | num {n : Nat} {x : Float} {negative : Bool} {m : Nat} {e : Int}
    (hx : Number.form x = .finite negative m e) : Data n (.num x)
  | str {n : Nat} {text : String} (htext : ∀ c ∈ text.toList, c ≠ '"' ∧ c ≠ '\\') :
    Data n (.str text)
  | arr {n : Nat} {items : List Tree} (hitems : ∀ item ∈ items, Data n item) :
    Data (n + 1) (.arr items)
  | obj {n : Nat} {entries : List (String × Tree)} (hkeys : (entries.map Prod.fst).Nodup)
    (hnames : ∀ entry ∈ entries, IsNameKey entry.1)
    (hentries : ∀ entry ∈ entries, Data n entry.2) : Data (n + 1) (.obj entries)

end Tree

namespace Program

/-- A text that the lexer reads as one name, all of it, is a name. -/
theorem names_of_tokens {dialect : Dialect} {word : String} {token last : Token}
    (h : tokens dialect word = .ok [token, last]) (hkind : token.kind = .name word) :
    dialect.Names word := by
  obtain ⟨pieces, trailing, -, hcut, -, hts⟩ := cut_of_tokens h
  cases hcut with
  | nil => cases hts
  | @cons piece rest _ _ hlexeme _ =>
      have hspelled := hlexeme.spelled
      have hpiece : piece.kind = .name word := by
        rw [← hkind, (List.cons.inj hts).1]
      rw [hpiece] at hspelled
      generalize piece.chars = chars at hspelled
      generalize hname : TokenKind.name word = kind at hspelled
      cases hspelled with
      | word hchars =>
          unfold wordKind at hname
          split at hname
          next => cases hname
          next hfree =>
            obtain rfl := TokenKind.name.inj hname
            exact ⟨by rwa [String.toList_ofList], hfree⟩
      | whole | point | text | symbol => cases hname

/-! ## Literals -/

/-- An expression is a literal within a depth, and denotes a tree. -/
structure Denotes (e : Expr) (depth : Nat) (t : Tree) : Prop where
  tree : staticTree e = t
  static : e.isStatic = true
  within : (Part.expr e).Within depth

/-- The tokens of a text, wherever it stands, are a literal for a tree. -/
def Readable (n : Nat) (text : List Char) (t : Tree) : Prop :=
  ∀ gap, Spacing gap → ∃ pieces, Shows pieces (gap ++ text) ∧
    ∀ ts, Spells ts (pieces.map Piece.word) →
      ∃ k o e, DerivesExpr .written .modern k o (n + 1) ts e ∧ Denotes e (n + 2) t

namespace Readable

variable {n : Nat} {chars : List Char} {t : Tree}

theorem single {kind : TokenKind}
    (hlexes : ∀ rest, EndsValue rest → Lexes kind chars rest)
    (hderives : ∀ token : Token, token.kind = kind →
      ∃ e, DerivesExpr .written .modern 8 0 (n + 1) [token] e ∧ Denotes e (n + 2) t) :
    Readable n chars t := by
  intro gap hgap
  refine ⟨_, .lexeme hgap hlexes, fun ts hts => ?_⟩
  obtain ⟨token, rfl, hkind, -⟩ := hts.single
  obtain ⟨e, he, hdenotes⟩ := hderives token hkind
  exact ⟨8, 0, e, he, hdenotes⟩

theorem keyword {word : Keyword} (hchars : NameChars chars)
    (hkind : wordKind .modern chars = .keyword word)
    (hderives : ∀ token : Token, token.kind = .keyword word →
      ∃ e, DerivesExpr .written .modern 8 0 (n + 1) [token] e ∧ Denotes e (n + 2) t) :
    Readable n chars t :=
  single (fun _ hrest => hkind ▸ lexes_word hchars hrest.name) hderives

theorem null : Readable n (Tree.display .null).toList .null :=
  keyword (.of_all rfl rfl) rfl fun token hkind =>
    ⟨_, .null hkind, rfl, rfl, by rintro _ ⟨⟩⟩

theorem bool (b : Bool) : Readable n (Tree.display (.bool b)).toList (.bool b) := by
  cases b with
  | false =>
      exact keyword (.of_all rfl rfl) rfl fun token hkind =>
        ⟨_, .litFalse hkind, rfl, rfl, by rintro _ ⟨⟩⟩
  | true =>
      exact keyword (.of_all rfl rfl) rfl fun token hkind =>
        ⟨_, .litTrue hkind, rfl, rfl, by rintro _ ⟨⟩⟩

theorem text {text : String} (htext : ∀ c ∈ text.toList, c ≠ '"' ∧ c ≠ '\\') :
    Readable n (Tree.display (.str text)).toList (.str text) := by
  have hdisplay : (Tree.display (.str text)).toList = '"' :: (text.toList ++ ['"']) := by
    simp [Tree.display]
  rw [hdisplay]
  exact single (fun rest _ => lexes_text htext rest) fun token hkind =>
    ⟨_, .text hkind, rfl, rfl, by rintro _ ⟨⟩⟩

theorem number {x : Float} {negative : Bool} {m : Nat} {e : Int}
    (hx : Number.form x = .finite negative m e) :
    Readable n (Tree.display (.num x)).toList (.num (Number.mergeZeros x)) := by
  obtain ⟨digits, k, j, htext, hlit, hvalue⟩ := Number.text_literal hx
  have hdisplay : (Tree.display (.num x)).toList = (Number.text x).toList := rfl
  rw [hdisplay, htext, Number.mergeZeros_eq hx]
  have hlexes : ∀ rest, EndsValue rest → Lexes (.number (Number.double false m e)) digits rest :=
    fun rest hrest => hvalue false ▸ lexes_number hlit hrest
  cases hsign : negative && m != 0 with
  | false =>
      exact single hlexes fun token hkind => ⟨_, .number hkind, rfl, rfl, by rintro _ ⟨⟩⟩
  | true =>
      -- a minus sign in front of the magnitude
      intro gap hgap
      obtain ⟨c, cs, hdigits, hc⟩ := hlit.first
      have hequals : c ≠ '=' := by
        rintro rfl
        cases hc
      refine ⟨[⟨gap, ['-'], .symbol .minus⟩, ⟨[], digits, .number (Number.double false m e)⟩],
        ⟨fun last => by simp [joined], fun last hlast => ?_⟩, fun ts hts => ?_⟩
      · refine (lexes_minus ?_).cut hgap ((hlexes last hlast).cut (.inl rfl) .nil)
        rw [joined, hdigits]
        rintro _ ⟨⟩
        exact hequals
      · obtain ⟨minus, us, rfl, hminus, -, hus⟩ := hts.cons
        obtain ⟨token, rfl, hkind, -⟩ := hus.single
        have hop : minus.unaryOp? = some .neg := unaryOp?_of_symbol hminus
        refine ⟨_, _, _, .unary hop (.number (n := n) hkind) (fun _ => by decide) fun _ => Nat.le_refl _,
          ?_, rfl, ?_⟩
        · exact congrArg Tree.num (Number.neg_double (Number.canonical_of_form hx) false)
        · rintro _ (_ | ⟨_, ⟨⟩⟩)
          rintro _ ⟨⟩

/-! ## Lists -/

/-- The tokens of a text are an item of a list. -/
def Row (n : Nat) (text : List Char) (like : Item → Prop) : Prop :=
  ∀ gap, Spacing gap → ∃ pieces, Shows pieces (gap ++ text) ∧
    ∀ ts, Spells ts (pieces.map Piece.word) →
      ∃ item, DerivesItem .written .modern n ts item ∧ like item

/-- Items with commas between them are a list. -/
theorem rows {α : Type} {xs : List α} {text : α → List Char} {like : α → Item → Prop} (hne : xs ≠ [])
    (h : ∀ x ∈ xs, Row n (text x) (like x)) (gap : List Char) (hgap : Spacing gap) :
    ∃ pieces, Shows pieces (gap ++ [',', ' '].intercalate (xs.map text)) ∧
      ∀ ts, Spells ts (pieces.map Piece.word) →
        ∃ items, DerivesItems .written .modern n ts items ∧ List.Forall₂ like xs items := by
  induction xs generalizing gap with
  | nil => exact absurd rfl hne
  | cons x xs ih =>
      obtain ⟨hx, hxs⟩ := List.forall_mem_cons.1 h
      obtain ⟨pieces, hshows, hreads⟩ := hx gap hgap
      by_cases hnil : xs = []
      · subst hnil
        refine ⟨pieces, by simpa using hshows, fun ts hts => ?_⟩
        obtain ⟨item, hitem, hlike⟩ := hreads ts hts
        exact ⟨[item], .last hitem, .cons hlike .nil⟩
      · obtain ⟨others, hothers, hreads'⟩ := ih hnil hxs [' '] (.inr rfl)
        refine ⟨pieces ++ ⟨[], [','], .symbol .comma⟩ :: others, ⟨fun last => ?_, fun last hlast => ?_⟩,
          fun ts hts => ?_⟩
        · rw [joined_append, hshows.text, joined, hothers.text, List.map_cons,
            List.intercalate_cons_of_ne_nil (by simpa using hnil)]
          simp
        · have hcut := (lexes_mark (s := .comma) (by decide) _).cut (.inl rfl) (hothers.cut last hlast)
          exact (hshows.cut _ .comma).append hcut
        · rw [List.map_append] at hts
          obtain ⟨us, vs, rfl, hus, hvs⟩ := hts.append
          obtain ⟨comma, ws, rfl, hcomma, -, hws⟩ := hvs.cons
          obtain ⟨item, hitem, hlike⟩ := hreads us hus
          obtain ⟨items, hitems, hlikes⟩ := hreads' ws hws
          exact ⟨item :: items, .cons hitem hcomma hitems Wording.noConfusion, .cons hlike hlikes⟩

/-- Items with commas between them, or none, between two brackets. -/
theorem enclosed {α : Type} {xs : List α} {text : α → List Char} {like : α → Item → Prop}
    (h : ∀ x ∈ xs, Row n (text x) (like x)) :
    ∃ pieces, Shows pieces ([',', ' '].intercalate (xs.map text)) ∧
      ∀ ts, Spells ts (pieces.map Piece.word) →
        ∃ items, DerivesItems .written .modern n ts items ∧ List.Forall₂ like xs items := by
  by_cases hnil : xs = []
  · subst hnil
    refine ⟨[], ⟨fun _ => rfl, fun _ _ => .nil⟩, fun ts hts => ?_⟩
    obtain rfl := hts.nil
    exact ⟨[], .nil, .nil⟩
  · exact rows hnil h [] (.inl rfl)

/-- The items of an array are expressions, which denote its items. -/
theorem exprs_of_rows {xs : List Tree} {items : List Item}
    (h : List.Forall₂ (fun x item => ∃ e, item = .expr e ∧ Denotes e (n + 2) x.mergeZeros) xs items) :
    ∃ es : List Expr, items = es.map .expr ∧ staticTrees es = Tree.mergeZerosItems xs ∧
      allStatic es = true ∧ ∀ e ∈ es, (Part.expr e).Within (n + 2) := by
  induction h with
  | nil => exact ⟨[], rfl, rfl, rfl, nofun⟩
  | cons hitem _ ih =>
      obtain ⟨e, rfl, he⟩ := hitem
      obtain ⟨es, rfl, htrees, hstatic, hwithin⟩ := ih
      refine ⟨e :: es, rfl, ?_, ?_, List.forall_mem_cons.2 ⟨he.within, hwithin⟩⟩
      · rw [staticTrees, Tree.mergeZerosItems, he.tree, htrees]
      · rw [allStatic, he.static, hstatic]
        rfl

/-- The items of an object are entries, whose values denote those of the object. -/
theorem entries_of_rows {xs : List (String × Tree)} {items : List Item}
    (h : List.Forall₂ (fun x item => ∃ e, item = .entry x.1 e ∧ Denotes e (n + 2) x.2.mergeZeros)
      xs items) :
    ∃ es : List (String × Expr), items = es.map (fun entry => .entry entry.1 entry.2) ∧
      es.map (fun entry => (entry.1, staticTree entry.2)) = Tree.mergeZerosEntries xs ∧
      entriesStatic es = true ∧ ∀ entry ∈ es, (Part.expr entry.2).Within (n + 2) := by
  induction h with
  | nil => exact ⟨[], rfl, rfl, rfl, nofun⟩
  | @cons x _ _ _ hitem _ ih =>
      obtain ⟨e, rfl, he⟩ := hitem
      obtain ⟨es, rfl, htrees, hstatic, hwithin⟩ := ih
      refine ⟨(x.1, e) :: es, rfl, ?_, ?_, List.forall_mem_cons.2 ⟨he.within, hwithin⟩⟩
      · rw [List.map_cons, Tree.mergeZerosEntries, he.tree, htrees]
      · rw [entriesStatic, he.static, hstatic]
        rfl

/-! ## Arrays and objects -/

theorem row (h : Readable n chars t) :
    Row (n + 2) chars fun item => ∃ e, item = .expr e ∧ Denotes e (n + 2) t := by
  intro gap hgap
  obtain ⟨pieces, hshows, hreads⟩ := h gap hgap
  refine ⟨pieces, hshows, fun ts hts => ?_⟩
  obtain ⟨k, o, e, he, hdenotes⟩ := hreads ts hts
  exact ⟨.expr e, .expr he fun _ => Nat.le_refl _, e, rfl, hdenotes⟩

theorem namedRow {key : String} (hkey : Dialect.Names .modern key) (h : Readable n chars t) :
    Row (n + 2) (key.toList ++ ':' :: ' ' :: chars) fun item =>
      ∃ e, item = .entry key e ∧ Denotes e (n + 2) t := by
  intro gap hgap
  obtain ⟨pieces, hshows, hreads⟩ := h [' '] (.inr rfl)
  have hkind : wordKind .modern key.toList = .name key := by
    unfold wordKind
    rw [String.ofList_toList, hkey.free]
  refine ⟨⟨gap, key.toList, .name key⟩ :: ⟨[], [':'], .symbol .colon⟩ :: pieces,
    ⟨fun last => ?_, fun last hlast => ?_⟩, fun ts hts => ?_⟩
  · rw [joined, joined, hshows.text]
    simp
  · have hrest := (lexes_mark (s := .colon) (by decide) _).cut (.inl rfl) (hshows.cut last hlast)
    have hname : Lexes (wordKind .modern key.toList) key.toList
        (joined (⟨[], [':'], .symbol .colon⟩ :: pieces) last) := by
      refine lexes_word hkey.chars fun capital seen => ?_
      -- a colon belongs to a name only where the next segment follows at once
      rw [joined, hshows.text]
      cases capital <;> rfl
    exact (hkind ▸ hname).cut hgap hrest
  · obtain ⟨name, us, rfl, hname, -, hus⟩ := hts.cons
    obtain ⟨colon, vs, rfl, hcolon, -, hvs⟩ := hus.cons
    obtain ⟨k, o, e, he, hdenotes⟩ := hreads vs hvs
    exact ⟨.entry key e, .namedEntry hname hcolon he fun _ => Nat.le_refl _, e, rfl, hdenotes⟩

theorem array {items : List Tree}
    (h : ∀ item ∈ items, Readable n item.display.toList item.mergeZeros) :
    Readable (n + 1) (Tree.display (.arr items)).toList (.arr (Tree.mergeZerosItems items)) := by
  intro gap hgap
  obtain ⟨pieces, hshows, hreads⟩ := enclosed fun item hitem => (h item hitem).row
  refine ⟨⟨gap, ['['], .symbol .leftBracket⟩ :: (pieces ++ [⟨[], [']'], .symbol .rightBracket⟩]),
    ⟨fun last => ?_, fun last hlast => ?_⟩, fun ts hts => ?_⟩
  · rw [joined, joined_append, hshows.text, Tree.display, Tree.displayItems_eq]
    simp [joined, String.toList_intercalate, Function.comp_def]
  · have hclose : Cut .modern last [⟨[], [']'], .symbol .rightBracket⟩] :=
      (lexes_mark (s := .rightBracket) (by decide) last).cut (.inl rfl) .nil
    exact (lexes_mark (s := .leftBracket) (by decide) _).cut hgap ((hshows.cut _ .bracket).append hclose)
  · rw [List.map_cons, List.map_append] at hts
    obtain ⟨l, us, r, rfl, hl, -, hus, hr⟩ := hts.between
    obtain ⟨found, hfound, hlikes⟩ := hreads us hus
    obtain ⟨es, rfl, htrees, hstatic, hwithin⟩ := exprs_of_rows hlikes
    refine ⟨8, 0, _, .array hl hfound hr, congrArg Tree.arr htrees, hstatic, fun part hpart => ?_⟩
    obtain ⟨e, he, rfl⟩ := List.mem_map.1 hpart
    exact hwithin e he

/-- What stands between the braces of an object: nothing, or its entries set off by spaces. -/
theorem between_braces {entries : List (String × Tree)}
    (hnames : ∀ entry ∈ entries, Dialect.Names .modern entry.1)
    (h : ∀ entry ∈ entries, Readable n entry.2.display.toList entry.2.mergeZeros) :
    ∃ pieces inner close, Spacing close ∧
      (Tree.display (.obj entries)).toList = '\x7b' :: (inner ++ close ++ ['\x7d']) ∧
      (∀ last, joined pieces last = inner ++ last) ∧
      (∀ last, Cut .modern (close ++ '\x7d' :: last) pieces) ∧
      ∀ ts, Spells ts (pieces.map Piece.word) →
        ∃ items, DerivesItems .written .modern (n + 2) ts items ∧
          List.Forall₂ (fun x item => ∃ e, item = .entry x.1 e ∧ Denotes e (n + 2) x.2.mergeZeros)
            entries items := by
  cases entries with
  | nil =>
      refine ⟨[], [], [], .inl rfl, rfl, fun _ => rfl, fun _ => .nil, fun ts hts => ?_⟩
      obtain rfl := hts.nil
      exact ⟨[], .nil, .nil⟩
  | cons entry rest =>
      obtain ⟨pieces, hshows, hreads⟩ := rows (List.cons_ne_nil entry rest)
        (fun x hx => (h x hx).namedRow (hnames x hx)) [' '] (.inr rfl)
      refine ⟨pieces, _, [' '], .inr rfl, ?_, hshows.text, fun _ => hshows.cut _ .space, hreads⟩
      have htext (x : String × Tree) : (x.1 ++ ": " ++ x.2.display).toList =
          x.1.toList ++ ':' :: ' ' :: x.2.display.toList := by simp
      rw [Tree.display, Tree.displayEntries_eq, String.toList_append, String.toList_append,
        String.toList_intercalate, List.map_map]
      simp only [Function.comp_def, htext]
      generalize (entry :: rest).map _ = texts
      simp

theorem object {entries : List (String × Tree)} (hkeys : (entries.map Prod.fst).Nodup)
    (hnames : ∀ entry ∈ entries, Dialect.Names .modern entry.1)
    (h : ∀ entry ∈ entries, Readable n entry.2.display.toList entry.2.mergeZeros) :
    Readable (n + 1) (Tree.display (.obj entries)).toList (.obj (Tree.mergeZerosEntries entries)) := by
  intro gap hgap
  obtain ⟨pieces, inner, close, hclose, hdisplay, htext, hcut, hreads⟩ := between_braces hnames h
  refine ⟨⟨gap, ['\x7b'], .symbol .leftBrace⟩ :: (pieces ++ [⟨close, ['\x7d'], .symbol .rightBrace⟩]),
    ⟨fun last => ?_, fun last _ => ?_⟩, fun ts hts => ?_⟩
  · rw [joined, joined_append, htext, hdisplay]
    simp [joined]
  · have hbrace : Cut .modern last [⟨close, ['\x7d'], .symbol .rightBrace⟩] :=
      (lexes_mark (s := .rightBrace) (by decide) last).cut hclose .nil
    exact (lexes_mark (s := .leftBrace) (by decide) _).cut hgap (Cut.append (hcut last) hbrace)
  · rw [List.map_cons, List.map_append] at hts
    obtain ⟨l, us, r, rfl, hl, -, hus, hr⟩ := hts.between
    obtain ⟨found, hfound, hlikes⟩ := hreads us hus
    obtain ⟨es, rfl, htrees, hstatic, hwithin⟩ := entries_of_rows hlikes
    have hnodup : (es.map Prod.fst).Nodup := by
      have hfst := congrArg (List.map Prod.fst) htrees
      rw [Tree.mergeZerosEntries_eq, List.map_map, List.map_map] at hfst
      have hsame : es.map Prod.fst = entries.map Prod.fst := hfst
      rwa [hsame]
    refine ⟨8, 0, _, .object hl hfound hr, ?_, hstatic, fun part hpart => ?_⟩
    · rw [staticTree, staticTreeEntries_of_nodup (by simpa using hnodup), List.nil_append, htrees]
    · obtain ⟨e, he, rfl⟩ := List.mem_map.1 hpart
      obtain ⟨entry, hentry, rfl⟩ := List.mem_map.1 he
      exact hwithin entry hentry

end Readable

/-- The display form of data reads as a literal for the data. -/
theorem readable_display {n : Nat} {t : Tree} (h : t.Data n) :
    Readable n t.display.toList t.mergeZeros := by
  induction h with
  | null => exact .null
  | bool b => exact .bool b
  | num hx => exact .number hx
  | str htext => exact .text htext
  | arr _ ih => exact .array ih
  | obj hkeys hnames _ ih =>
      refine .object hkeys (fun entry hentry => ?_) ih
      obtain ⟨token, last, htokens, hkind⟩ := hnames entry hentry
      exact names_of_tokens htokens hkind

/-! ## Whole programs -/

/-- A readable text is parsed as one statement, unless it needs more levels of nesting than there are. -/
theorem parse_readable {n : Nat} {code : String} {t : Tree} (hn : n ≤ 100)
    (h : Readable n code.toList t) :
    ∃ pos e, parse .modern code = .ok [.eval pos e] ∧ staticTree e = t ∧ e.isStatic = true := by
  obtain ⟨pieces, hshows, hreads⟩ := h [] (.inl rfl)
  have hcode : code.toList = joined pieces [] := by rw [hshows.text]; simp
  have htokens := tokens_joined hcode (hshows.cut [] .done) (.closed .nil)
  obtain ⟨ts, done, hts, hdone, hspells⟩ := spells_tokensOf [] pieces []
  obtain ⟨k, o, e, he, htree, hstatic, hwithin⟩ := hreads ts hspells
  have hbody : DerivesStmts .written .modern true (n + 2) (ts ++ []) [.eval e.pos e] :=
    .cons (.eval he fun _ => Nat.le_refl _) .nil nofun
  rw [List.append_nil] at hbody
  rw [hts] at htokens
  refine ⟨e.pos, e, ?_, htree, hstatic⟩
  rcases parseTokens_of_derives hbody hdone with hparse | ⟨hdeep, -⟩
  · have hdepth : firstTooDeep [.eval e.pos e] = none := by
      refine (firstTooDeep_eq_none_iff _).2 (List.forall_mem_singleton.2 ?_)
      have hstmt : (Part.stmt (.eval e.pos e)).Within (n + 3) := by
        simpa [Part.Within, Part.children] using hwithin
      exact hstmt.mono (by rw [maxTreeDepth]; omega)
    unfold parse
    rw [htokens]
    simp only [bind, Except.bind, hparse, hdepth]
  · rw [maxDepth] at hdeep
    omega

end Program

/-- The display form of data reads back. A value without cycles that is made of `null`, booleans, finite
numbers, strings without quotes and backslashes, arrays, and objects whose keys are names, at most a
hundred arrays and objects one inside the other, is shown as a program of the modern dialect. This is
one expression, which is static, and whose value is equal to the one shown, with one zero for both. -/
theorem display_reads_back {s : Store} {v : Value} {t : Tree} (hv : s.Unfolds v t) (ht : t.Data 100) :
    ∃ pos e, parse .modern (s.repr v) = .ok [.eval pos e] ∧ e.isStatic = true ∧
      ∀ store : Store, (staticValue e store).2.Unfolds (staticValue e store).1 t.mergeZeros := by
  have hrepr : s.repr v = t.display := by rw [Store.repr_eq_display, ← hv.eq_tree]
  obtain ⟨pos, e, hparse, htree, hstatic⟩ := parse_readable (Nat.le_refl _) (readable_display ht)
  refine ⟨pos, e, hrepr ▸ hparse, hstatic, fun store => ?_⟩
  rw [← htree]
  exact (staticValue_madeAs e store).unfolds _ (.refl _)

/-- A negative number, an object, and a string with a comment mark and a line break. -/
theorem display_reads_back_mixed :
    let s : Store :=
      { arrays := #[#[.num (-0.5), .obj 0, .str "// a\nb"]], objects := #[[("Key", .bool true)]] }
    let t : Tree := .arr [.num (-0.5), .obj [("Key", .bool true)], .str "// a\nb"]
    s.Unfolds (.arr 0) t ∧ t.Data 100 ∧
      ∃ pos e, parse .modern (s.repr (.arr 0)) = .ok [.eval pos e] ∧ e.isStatic = true ∧
        ∀ store : Store, (staticValue e store).2.Unfolds (staticValue e store).1 t.mergeZeros := by
  intro s t
  have hobj : s.Unfolds (.obj 0) (.obj [("Key", .bool true)]) :=
    Store.unfolds_obj (.cons ⟨rfl, .bool true⟩ .nil)
  have hv : s.Unfolds (.arr 0) t :=
    Store.unfolds_arr (.cons (.num _) (.cons hobj (.cons (.str _) .nil)))
  have hform : Number.form (-0.5) = .finite true 4503599627370496 (-53) := by decide +kernel
  have hkey : IsNameKey "Key" := ⟨⟨.name "Key", .start, false⟩, ⟨.done, ⟨1, 4⟩, false⟩, by decide +kernel, rfl⟩
  have ht : t.Data 100 := by
    refine .arr fun item hitem => ?_
    simp only [List.mem_cons, List.not_mem_nil, or_false] at hitem
    obtain rfl | rfl | rfl := hitem
    · exact .num hform
    · exact .obj (by simp) (by simpa using hkey) (by simpa using Tree.Data.bool true)
    · exact .str (by simp)
  exact ⟨hv, ht, display_reads_back hv ht⟩

end ScriptLab
