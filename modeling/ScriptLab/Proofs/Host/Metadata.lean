import ScriptLab.Host.Runner
import ScriptLab.Proofs.Machine.Faults
import ScriptLab.Proofs.Machine.Literals

/-!
# What metadata mean

Parsing a program gives the metadata of its blocks without a run. Each name has one entry, at the place of
its first block, and its value is that of its last block: what every run would make of the expression that
stands there.
-/

namespace ScriptLab

open Program

/-! ## Repeated keys -/

namespace Entries

variable {κ α : Type} [DecidableEq κ]

/-- Puts some pairs one after the other, behind what is there. -/
def putAll (made : Entries κ α) (pairs : List (κ × α)) : Entries κ α :=
  pairs.foldl (fun entries pair => entries.put pair.1 pair.2) made

theorem putAll_cons (made : Entries κ α) (key : κ) (a : α) (rest : List (κ × α)) :
    made.putAll ((key, a) :: rest) = (made.put key a).putAll rest := rfl

theorem keys_putAll [BEq κ] [LawfulBEq κ] (made : Entries κ α) (pairs : List (κ × α)) :
    (made.putAll pairs).map Prod.fst =
      made.map Prod.fst ++
        ((pairs.map Prod.fst).filter fun key => key ∉ made.map Prod.fst).eraseDups := by
  induction pairs generalizing made with
  | nil => simp [putAll]
  | cons pair rest ih =>
    obtain ⟨key, a⟩ := pair
    rw [putAll_cons, ih, keys_put, List.map_cons]
    by_cases hkey : key ∈ made.map Prod.fst
    · rw [if_pos hkey, List.filter_cons_of_neg (by simpa using hkey)]
    · rw [if_neg hkey, List.filter_cons_of_pos (by simpa using hkey), List.eraseDups_cons,
        List.filter_filter, List.append_assoc, List.singleton_append]
      congr 3
      apply List.filter_congr
      intro other _
      simp only [List.mem_append, List.mem_singleton, not_or, Bool.decide_and]
      rw [Bool.and_comm]
      by_cases h : other = key <;> simp [h]

/-- The keys of a list of pairs stand in the order in which they first occur. -/
theorem keys_ofList [BEq κ] [LawfulBEq κ] (pairs : List (κ × α)) :
    (ofList pairs).map Prod.fst = (pairs.map Prod.fst).eraseDups := by
  show (putAll [] pairs).map Prod.fst = _
  rw [keys_putAll]
  simp

theorem find?_putAll_of_notMem (made : Entries κ α) {pairs : List (κ × α)} {key : κ}
    (h : key ∉ pairs.map Prod.fst) : (made.putAll pairs).find? key = made.find? key := by
  induction pairs generalizing made with
  | nil => rfl
  | cons pair rest ih =>
    simp only [List.map_cons, List.mem_cons, not_or] at h
    rw [putAll_cons, ih _ h.2, find?_put, if_neg (Ne.symm h.1)]

/-- The last pair with a key gives its value. -/
theorem find?_ofList {before after : List (κ × α)} {key : κ} (a : α)
    (h : key ∉ after.map Prod.fst) : (ofList (before ++ (key, a) :: after)).find? key = some a := by
  have hsplit : ofList (before ++ (key, a) :: after) =
      ((ofList before).put key a).putAll after := by
    simp [ofList, putAll]
  rw [hsplit, find?_putAll_of_notMem _ h, find?_put, if_pos rfl]

end Entries

/-! ## Blocks of metadata -/

/-- The blocks of metadata of a program, with their names. -/
def metadataBlocks (program : List Stmt) : List (Option String × Expr) :=
  program.filterMap fun stmt =>
    match stmt with
    | .metadata _ name value => some (name, value)
    | _ => none

theorem mem_of_metadataBlocks {program : List Stmt} {name : Option String} {value : Expr}
    (h : (name, value) ∈ metadataBlocks program) : ∃ pos, .metadata pos name value ∈ program := by
  obtain ⟨x, hx, hblock⟩ := List.mem_filterMap.1 h
  cases x with
  | metadata pos name' value' =>
    simp only [Option.some.injEq, Prod.mk.injEq] at hblock
    obtain ⟨rfl, rfl⟩ := hblock
    exact ⟨pos, hx⟩
  | _ => simp at hblock

/-- The tree of each name: the one of its last block. -/
def metadataTrees (program : List Stmt) : Entries (Option String) Tree :=
  .ofList ((metadataBlocks program).map fun block => (block.1, staticTree block.2))

theorem metadataFrom_unfolds (program : List Stmt) (made : Entries (Option String) Value)
    (trees : Entries (Option String) Tree) (s : Store)
    (hmade : ∀ later, s.Extends later →
      List.Forall₂ (fun entry tree => entry.1 = tree.1 ∧ later.Unfolds entry.2 tree.2) made trees) :
    List.Forall₂ (fun entry tree => entry.1 = tree.1 ∧
        (metadataFrom made program s).2.Unfolds entry.2 tree.2)
      (metadataFrom made program s).1
      (trees.putAll ((metadataBlocks program).map fun block => (block.1, staticTree block.2))) := by
  induction program generalizing made trees s with
  | nil => exact hmade s (.refl s)
  | cons x rest ih =>
    cases x with
    | metadata pos name value =>
      -- What is made for this block stays as it is while the others are made.
      obtain ⟨hgrows, hunfolds⟩ := staticValue_madeAs value s
      apply ih
      intro later hlater
      exact Entries.forall₂_put (hmade later (hgrows.trans hlater)) name (hunfolds later hlater)
    | _ => exact ih made trees s hmade

/-- Metadata are the JSON values of the trees. -/
theorem metadataJson_eq (program : List Stmt) :
    metadataJson program = (metadataTrees program).map fun entry => (entry.1, entry.2.json) := by
  have hunfolds : List.Forall₂ _ _ (metadataTrees program) :=
    metadataFrom_unfolds program [] [] {} fun _ _ => .nil
  show (metadataFrom [] program {}).1.map (fun entry =>
    (entry.1, (metadataFrom [] program {}).2.json entry.2)) = _
  apply List.ext_getElem
  · simpa using hunfolds.length_eq
  · intro i hi hi'
    simp only [List.length_map] at hi hi'
    obtain ⟨hkey, htree⟩ := hunfolds.get hi hi'
    simp only [List.get_eq_getElem] at hkey htree
    rw [List.getElem_map, List.getElem_map, hkey, Store.json_eq_json, ← htree.eq_tree]

/-- The entry of a name is the JSON value of its last block. -/
theorem find?_metadataJson {program : List Stmt} {before after : List (Option String × Expr)}
    {name : Option String} {value : Expr}
    (hblocks : metadataBlocks program = before ++ (name, value) :: after)
    (hlast : name ∉ after.map Prod.fst) :
    (metadataJson program).find? name = some (staticTree value).json := by
  have htree : (metadataTrees program).find? name = some (staticTree value) := by
    unfold metadataTrees
    rw [hblocks, List.map_append, List.map_cons]
    apply Entries.find?_ofList
    simpa using hlast
  have hjson : metadataJson program = (metadataTrees program).mapValues Tree.json :=
    metadataJson_eq program
  rw [hjson, Entries.find?_mapValues, htree]
  rfl

theorem keys_metadataJson (program : List Stmt) :
    (metadataJson program).map Prod.fst = ((metadataBlocks program).map Prod.fst).eraseDups := by
  have hkeys := Entries.keys_ofList
    ((metadataBlocks program).map fun block => (block.1, staticTree block.2))
  rw [metadataJson_eq, List.map_map]
  simpa [Function.comp_def, metadataTrees] using hkeys

/-- The values of blocks of metadata are literals. -/
theorem isStatic_of_derives {dialect : Dialect} {top : Bool} {n : Nat} {name : Option String}
    {value : Expr} {pos : Text.Pos} : ∀ {ts : List Token} {program : List Stmt},
    DerivesStmts .written dialect top n ts program → .metadata pos name value ∈ program →
      value.isStatic = true
  | _, _, .nil, hmem => by simp at hmem
  | _, _, .semicolon _ _ h, hmem => isStatic_of_derives h hmem
  | _, _, .cons h hs _, hmem => by
    rcases List.mem_cons.1 hmem with rfl | hmem
    · cases h with
      | metadata _ _ _ hstatic => exact hstatic
      | namedMetadata _ _ _ _ hstatic => exact hstatic
    · exact isStatic_of_derives hs hmem

/-- All that occurs in a literal is a literal. -/
theorem isStatic_of_occurs {x value : Expr} (h : Machine.Occurs (.expr x) (.expr value))
    (hstatic : value.isStatic = true) : x.isStatic = true := by
  generalize hpart : Part.expr value = part at h
  induction h generalizing value with
  | here =>
    cases hpart
    exact hstatic
  | inside hchild _ ih =>
    subst hpart
    obtain ⟨y, rfl, hy⟩ := isStatic_of_mem_children hstatic hchild
    exact ih hy rfl

/-- What stands in a block of metadata of a parsed program: a literal that is not too deep. -/
theorem literal_of_parse {dialect : Dialect} {code : String} {program : List Stmt}
    (h : parse dialect code = .ok program) {name : Option String} {value : Expr}
    (hblock : (name, value) ∈ metadataBlocks program) :
    value.isStatic = true ∧ (Part.expr value).Within (maxTreeDepth - 1) := by
  obtain ⟨pos, hmem⟩ := mem_of_metadataBlocks hblock
  obtain ⟨_, _, -, -, hderives, -⟩ := derivesStmts_of_parse h
  have hdepth := within_of_parse h _ hmem
  exact ⟨isStatic_of_derives hderives hmem, hdepth (.expr value) List.mem_cons_self⟩

namespace Host

open Machine

theorem Runner.parse_eq_ok {r : Runner} {code : String} {tree : Tree} {found : Metadata}
    (h : r.parse code = .ok (tree, found)) :
    Program.parse r.release.dialect code = .ok tree.program ∧
      found = metadataJson tree.program := by
  unfold Runner.parse at h
  split at h
  · next program hprogram =>
    cases h
    exact ⟨hprogram, rfl⟩
  · cases h

theorem Runner.parse_of_program {r : Runner} {code : String} {program : List Stmt}
    (h : Program.parse r.release.dialect code = .ok program) :
    r.parse code = .ok (⟨r.release, program⟩, metadataJson program) := by
  unfold Runner.parse
  rw [show r.release.parse code = .ok program from h]

/-- Metadata mean what their expressions mean. What parsing gives has one entry for each name of a block,
in the order in which the names first occur. Each block holds a literal, in which nothing but `null` has
no value of its own. Evaluated in any scope and any state, with room for as many open evaluations as it is
deep, it makes new containers and does nothing else, and its value there and the one that it has without a
run unfold to one tree. The entry of a name is the JSON value of its last block. -/
theorem Runner.metadata_evaluated (r : Runner) {code : String} {tree : Tree} {found : Metadata}
    (hparse : r.parse code = .ok (tree, found)) :
    found.map Prod.fst = ((metadataBlocks tree.program).map Prod.fst).eraseDups ∧
      ∀ before name value after, metadataBlocks tree.program = before ++ (name, value) :: after →
        (∀ x, Occurs (.expr x) (.expr value) → ∀ earlier,
          (staticValue x earlier).1 = .null → ∃ pos, x = .null pos) ∧
        (Part.expr value).Within (maxTreeDepth - 1) ∧
        ∀ {ω : Type} (s : Setting ω) n, (Part.expr value).Within n → ∀ env calls (p : Progress ω),
          ∃ v store, evalWithin s n value env calls p = .ok v { p with store } ∧
            p.store.Grown store ∧
            (∀ earlier, ∃ t, (staticValue value earlier).2.Unfolds (staticValue value earlier).1 t ∧
              store.Unfolds v t) ∧
            (name ∉ after.map Prod.fst → found.find? name = some (store.json v)) := by
  obtain ⟨hprogram, rfl⟩ := parse_eq_ok hparse
  refine ⟨keys_metadataJson _, fun before name value after hblocks => ?_⟩
  have hmem : (name, value) ∈ metadataBlocks tree.program := by simp [hblocks]
  obtain ⟨hstatic, hdepth⟩ := literal_of_parse hprogram hmem
  refine ⟨fun x hx earlier hnull => staticValue_eq_null (isStatic_of_occurs hx hstatic) hnull, hdepth,
    fun s n hn env calls p => ?_⟩
  have hvalue := fun earlier => (staticValue_madeAs value earlier).unfolds _ (.refl _)
  refine ⟨_, _, evalWithin_static s hstatic hn env calls p, grown_staticValue value p.store,
    fun earlier => ⟨staticTree value, hvalue earlier, hvalue p.store⟩, fun hlast => ?_⟩
  rw [find?_metadataJson hblocks hlast, Store.json_eq_json, ← (hvalue p.store).eq_tree]

/-- Two blocks of one name, and one without a name between them. -/
def labelledTwice : List Stmt :=
  [.metadata ⟨1, 1⟩ (some "a") (.obj ⟨1, 5⟩ []), .metadata ⟨2, 1⟩ none (.arr ⟨2, 4⟩ []),
    .metadata ⟨3, 1⟩ (some "a") (.arr ⟨3, 5⟩ [.null ⟨3, 6⟩])]

theorem Runner.metadata_evaluated_labelled_twice :
    let r : Runner := ⟨.v0_16_0, {}, true⟩
    let value : Expr := .arr ⟨3, 5⟩ [.null ⟨3, 6⟩]
    let s : Setting String := { limits := { maxSteps := some 0 }, record := Store.output, rounds := 0 }
    let p : Progress String := { store := { arrays := #[#[]] }, aborted := true }
    ∃ found, r.parse "###a{}\n###[]\n###a[null]" = .ok (⟨.v0_16_0, labelledTwice⟩, found) ∧
      found.map Prod.fst = [some "a", none] ∧ (Part.expr value).Within 2 ∧
      ∃ v store, evalWithin s 2 value ⟨0, []⟩ 0 p = .ok v { p with store } ∧
        found.find? (some "a") = some (store.json v) := by
  intro r value s p
  have hprogram : Program.parse .modern "###a{}\n###[]\n###a[null]" = .ok labelledTwice := by
    decide +kernel
  have hparse : r.parse "###a{}\n###[]\n###a[null]" =
      .ok (⟨.v0_16_0, labelledTwice⟩, metadataJson labelledTwice) :=
    parse_of_program hprogram
  have hdepth : (Part.expr value).Within 2 := by
    simp [value, Part.Within, Part.children, Part.ofExprs]
  obtain ⟨hkeys, hblocks⟩ := r.metadata_evaluated hparse
  obtain ⟨-, -, hevaluated⟩ :=
    hblocks [(some "a", .obj ⟨1, 5⟩ []), (none, .arr ⟨2, 4⟩ [])] (some "a") value [] rfl
  obtain ⟨v, store, heval, -, -, hfound⟩ := hevaluated s 2 hdepth ⟨0, []⟩ 0 p
  exact ⟨_, hparse, hkeys, hdepth, v, store, heval, hfound (by simp)⟩

end Host

end ScriptLab
