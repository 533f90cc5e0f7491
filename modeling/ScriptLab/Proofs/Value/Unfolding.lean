import Mathlib.Data.List.Forall2
import Mathlib.Logic.Relation
import ScriptLab.Proofs.Value.Rendering

/-!
# Renderings and trees

What a rendering shows of a value is a tree: arrays and objects are written out at each occurrence,
whether or not they are shared, and cut where they stand inside themselves. The form of the
language and the JSON value are two readings of one and the same tree.
-/

namespace ScriptLab

/-! ## Trees -/

/-- A value without sharing. `cut` stands for a container that is not written out. -/
inductive Tree where
  | null
  | bool (b : Bool)
  | num (x : Float)
  | str (text : String)
  | fn (text : String)
  | arr (items : List Tree)
  | obj (entries : List (String × Tree))
  | cut

namespace Tree

mutual

/-- A tree in the form of the language. -/
def display : Tree → String
  | .null => "null"
  | .bool b => if b then "true" else "false"
  | .num x => Number.text x
  | .str text => "\"" ++ text ++ "\""
  | .fn text => text
  | .arr items => "[" ++ ", ".intercalate (displayItems items) ++ "]"
  | .obj [] => "\x7b\x7d"
  | .obj (entry :: rest) =>
    "\x7b " ++ ", ".intercalate (displayEntries (entry :: rest)) ++ " \x7d"
  | .cut => "..."

/-- The items of an array in the form of the language. -/
def displayItems : List Tree → List String
  | [] => []
  | item :: rest => display item :: displayItems rest

/-- The entries of an object in the form of the language. -/
def displayEntries : List (String × Tree) → List String
  | [] => []
  | (key, item) :: rest => (key ++ ": " ++ display item) :: displayEntries rest

end

mutual

/-- A tree as a JSON value. -/
def json : Tree → Json
  | .null => .null
  | .bool b => .bool b
  | .num x => .ofNumber x
  | .str text => .str text
  | .fn _ => .str "<function>"
  | .arr items => .arr (jsonItems items)
  | .obj entries => .obj (jsonEntries entries)
  | .cut => .null

/-- The items of an array as JSON values. -/
def jsonItems : List Tree → List Json
  | [] => []
  | item :: rest => json item :: jsonItems rest

/-- The entries of an object as JSON values. -/
def jsonEntries : List (String × Tree) → List (String × Json)
  | [] => []
  | (key, item) :: rest => (key, json item) :: jsonEntries rest

end

theorem displayItems_eq (items : List Tree) : displayItems items = items.map display := by
  induction items with
  | nil => rfl
  | cons item rest ih => rw [displayItems, ih, List.map_cons]

theorem displayEntries_eq (entries : List (String × Tree)) :
    displayEntries entries = entries.map fun entry => entry.1 ++ ": " ++ entry.2.display := by
  induction entries with
  | nil => rfl
  | cons entry rest ih => rw [displayEntries, ih, List.map_cons]

theorem jsonItems_eq (items : List Tree) : jsonItems items = items.map json := by
  induction items with
  | nil => rfl
  | cons item rest ih => rw [jsonItems, ih, List.map_cons]

theorem jsonEntries_eq (entries : List (String × Tree)) :
    jsonEntries entries = entries.map fun entry => (entry.1, entry.2.json) := by
  induction entries with
  | nil => rfl
  | cons entry rest ih => rw [jsonEntries, ih, List.map_cons]

/-- Nothing in a tree is cut. -/
inductive Whole : Tree → Prop
  | null : Whole .null
  | bool (b : Bool) : Whole (.bool b)
  | num (x : Float) : Whole (.num x)
  | str (text : String) : Whole (.str text)
  | fn (text : String) : Whole (.fn text)
  | arr {items : List Tree} (hitems : ∀ item ∈ items, Whole item) : Whole (.arr items)
  | obj {entries : List (String × Tree)} (hentries : ∀ entry ∈ entries, Whole entry.2) :
    Whole (.obj entries)

end Tree

/-! ## Containers inside containers -/

/-- A container as a value. -/
def Container.value : Container → Value
  | .arr id => .arr id
  | .obj id => .obj id

namespace Store

variable (s : Store)

/-- The values that a container holds directly. -/
def held : Container → List Value
  | .arr id => (s.items id).toList
  | .obj id => (s.entries id).map Prod.snd

/-- One container holds another one directly. -/
def Holds (c d : Container) : Prop :=
  d.value ∈ s.held c

/-- No container that is reached from a value is inside itself. -/
def Acyclic (v : Value) : Prop :=
  ∀ root c : Container, v = root.value → Relation.ReflTransGen s.Holds root c →
    ¬ Relation.TransGen s.Holds c c

/-! ## What a tree has of a value -/

/-- A tree is what is drawn of a value inside the containers around it. The parameter says which
occurrences of a container are cut; at all others it is written out. -/
inductive Drawn (s : Store) (Cut : List Container → Container → Prop) :
    List Container → Value → Tree → Prop
  | null {around : List Container} : Drawn s Cut around .null .null
  | bool {around : List Container} (b : Bool) : Drawn s Cut around (.bool b) (.bool b)
  | num {around : List Container} (x : Float) : Drawn s Cut around (.num x) (.num x)
  | str {around : List Container} (text : String) : Drawn s Cut around (.str text) (.str text)
  | fn {around : List Container} (id : Nat) :
    Drawn s Cut around (.fn id) (.fn (s.callableText id))
  | arr {around : List Container} {id : Nat} {trees : List Tree} (hcut : ¬ Cut around (.arr id))
    (hlength : (s.items id).size = trees.length)
    (hitems : ∀ i (hi : i < (s.items id).size) (hi' : i < trees.length),
      Drawn s Cut (.arr id :: around) (s.items id)[i] trees[i]) :
    Drawn s Cut around (.arr id) (.arr trees)
  | obj {around : List Container} {id : Nat} {trees : List (String × Tree)}
    (hcut : ¬ Cut around (.obj id)) (hkeys : (s.entries id).map Prod.fst = trees.map Prod.fst)
    (hentries : ∀ i (hi : i < (s.entries id).length) (hi' : i < trees.length),
      Drawn s Cut (.obj id :: around) (s.entries id)[i].2 trees[i].2) :
    Drawn s Cut around (.obj id) (.obj trees)
  | cutArr {around : List Container} {id : Nat} (hcut : Cut around (.arr id)) :
    Drawn s Cut around (.arr id) .cut
  | cutObj {around : List Container} {id : Nat} (hcut : Cut around (.obj id)) :
    Drawn s Cut around (.obj id) .cut

/-- A container is cut inside itself and nowhere else. -/
def InsideItself (around : List Container) (c : Container) : Prop :=
  c ∈ around

/-- The structural rendering of a value: a container is written out in full at each occurrence,
except inside itself. -/
def Renders (v : Value) (t : Tree) : Prop :=
  s.Drawn InsideItself [] v t

/-- The unfolding of a value: all containers are written out in full. -/
def Unfolds (v : Value) (t : Tree) : Prop :=
  s.Drawn (fun _ _ => False) [] v t

/-- The tree of a value within the containers being written. -/
def treeWithin (s : Store) : Nat → List Container → Value → Tree
  | _, _, .null => .null
  | _, _, .bool b => .bool b
  | _, _, .num x => .num x
  | _, _, .str text => .str text
  | _, _, .fn id => .fn (s.callableText id)
  | 0, _, .arr _ => .cut
  | 0, _, .obj _ => .cut
  | n + 1, around, .arr id =>
    if .arr id ∈ around then .cut
    else .arr ((s.items id).toList.map (treeWithin s n (.arr id :: around)))
  | n + 1, around, .obj id =>
    if .obj id ∈ around then .cut
    else .obj ((s.entries id).map fun entry =>
      (entry.1, treeWithin s n (.obj id :: around) entry.2))

/-- The tree that the renderings of a value show. -/
def tree (v : Value) : Tree :=
  s.treeWithin s.nestingBound [] v

variable {s}

/-! ## The renderings are readings of the tree -/

theorem reprWithin_eq_display (n : Nat) (around : List Container) (v : Value) :
    s.reprWithin n around v = (s.treeWithin n around v).display := by
  induction n generalizing around v with
  | zero => cases v <;> rfl
  | succ n ih =>
    cases v with
    | arr id =>
      rw [reprWithin, treeWithin, funext (ih (.arr id :: around))]
      split
      · rfl
      · rw [Tree.display, Tree.displayItems_eq, List.map_map]
        rfl
    | obj id =>
      simp only [reprWithin, treeWithin, ih (.obj id :: around)]
      split
      · rfl
      · cases s.entries id with
        | nil => rfl
        | cons entry rest =>
          simp only [List.map_cons, Tree.display, Tree.displayEntries, Tree.displayEntries_eq,
            List.map_map, Function.comp_def]
    | _ => rfl

theorem jsonWithin_eq_json (n : Nat) (around : List Container) (v : Value) :
    s.jsonWithin n around v = (s.treeWithin n around v).json := by
  induction n generalizing around v with
  | zero => cases v <;> rfl
  | succ n ih =>
    cases v with
    | arr id =>
      rw [jsonWithin, treeWithin, funext (ih (.arr id :: around))]
      split
      · rfl
      · rw [Tree.json, Tree.jsonItems_eq, List.map_map]
        rfl
    | obj id =>
      simp only [jsonWithin, treeWithin, ih (.obj id :: around)]
      split
      · rfl
      · rw [Tree.json, Tree.jsonEntries_eq, List.map_map]
        rfl
    | _ => rfl

/-! ## Existence and uniqueness -/

/-- A tree within more containers than are left is the structural rendering. -/
theorem drawn_treeWithin {n : Nat} {around : List Container} (hn : s.unwritten around < n)
    (v : Value) : s.Drawn InsideItself around v (s.treeWithin n around v) := by
  induction n generalizing around v with
  | zero => exact absurd hn (Nat.not_lt_zero _)
  | succ n ih =>
    cases v with
    | null => exact .null
    | bool b => exact .bool b
    | num x => exact .num x
    | str text => exact .str text
    | fn id => exact .fn id
    | arr id =>
      rw [treeWithin]
      split
      case isTrue haround => exact .cutArr haround
      case isFalse haround =>
        refine .arr haround (by simp) fun i hi hi' => ?_
        have hless := unwritten_cons (arr_mem_containers (Array.getElem_mem hi)) haround
        rw [List.getElem_map, Array.getElem_toList]
        exact ih (by omega) _
    | obj id =>
      rw [treeWithin]
      split
      case isTrue haround => exact .cutObj haround
      case isFalse haround =>
        refine .obj haround (by simp) fun i hi hi' => ?_
        have hless := unwritten_cons (obj_mem_containers (List.getElem_mem hi)) haround
        rw [List.getElem_map]
        exact ih (by omega) _

theorem renders_tree (v : Value) : s.Renders v (s.tree v) :=
  drawn_treeWithin s.unwritten_nil v

/-- At most one tree is drawn of a value. -/
theorem Drawn.unique {Cut : List Container → Container → Prop} {around : List Container}
    {v : Value} {t u : Tree} (ht : s.Drawn Cut around v t) (hu : s.Drawn Cut around v u) :
    t = u := by
  induction ht generalizing u with
  | null => cases hu; rfl
  | bool => cases hu; rfl
  | num => cases hu; rfl
  | str => cases hu; rfl
  | fn => cases hu; rfl
  | arr hcut hlength _ ih =>
    cases hu with
    | cutArr hcut' => exact absurd hcut' hcut
    | arr _ hlength' hitems' =>
      refine congrArg Tree.arr (List.ext_getElem (hlength.symm.trans hlength') fun i hi hi' => ?_)
      have hsize := hlength ▸ hi
      exact ih i hsize hi (hitems' i hsize hi')
  | obj hcut hkeys _ ih =>
    cases hu with
    | cutObj hcut' => exact absurd hcut' hcut
    | obj _ hkeys' hentries' =>
      have hsame := hkeys.symm.trans hkeys'
      have hlength := congrArg List.length hkeys
      have hlength' := congrArg List.length hkeys'
      simp only [List.length_map] at hlength hlength'
      refine congrArg Tree.obj (List.ext_getElem (hlength.symm.trans hlength') fun i hi hi' => ?_)
      have hkey := List.getElem_of_eq hsame (i := i) (by simpa using hi)
      simp only [List.getElem_map] at hkey
      have hsize := hlength ▸ hi
      exact Prod.ext hkey (ih i hsize hi (hentries' i hsize hi'))
  | cutArr hcut =>
    cases hu with
    | cutArr => rfl
    | arr hcut' => exact absurd hcut hcut'
  | cutObj hcut =>
    cases hu with
    | cutObj => rfl
    | obj hcut' => exact absurd hcut hcut'

/-- Where nothing is cut, it does not matter what stands around. -/
theorem Drawn.around {around others : List Container} {v : Value} {t : Tree}
    (h : s.Drawn (fun _ _ => False) around v t) : s.Drawn (fun _ _ => False) others v t := by
  induction h generalizing others with
  | null => exact .null
  | bool b => exact .bool b
  | num x => exact .num x
  | str text => exact .str text
  | fn id => exact .fn id
  | arr hcut hlength _ ih => exact .arr hcut hlength fun i hi hi' => ih i hi hi'
  | obj hcut hkeys _ ih => exact .obj hcut hkeys fun i hi hi' => ih i hi hi'
  | cutArr hcut => exact hcut.elim
  | cutObj hcut => exact hcut.elim

theorem unfolds_arr {id : Nat} {trees : List Tree}
    (h : List.Forall₂ s.Unfolds (s.items id).toList trees) : s.Unfolds (.arr id) (.arr trees) := by
  obtain ⟨hlength, hitems⟩ := List.forall₂_iff_get.1 h
  exact .arr not_false hlength fun i hi hi' => (hitems i hi hi').around

theorem unfolds_obj {id : Nat} {trees : List (String × Tree)}
    (h : List.Forall₂ (fun entry tree => entry.1 = tree.1 ∧ s.Unfolds entry.2 tree.2)
      (s.entries id) trees) : s.Unfolds (.obj id) (.obj trees) := by
  obtain ⟨hlength, hentries⟩ := List.forall₂_iff_get.1 h
  have hkeys : (s.entries id).map Prod.fst = trees.map Prod.fst := by
    refine List.ext_getElem (by simpa using hlength) fun i hi hi' => ?_
    simp only [List.length_map] at hi hi'
    simpa using (hentries i hi hi').1
  exact .obj not_false hkeys fun i hi hi' => (hentries i hi hi').2.around

/-! ## Values without cycles -/

/-- What a container holds has a smaller unfolding. -/
theorem Unfolds.held {c : Container} {t : Tree} (h : s.Unfolds c.value t) {v : Value}
    (hv : v ∈ s.held c) : ∃ u, s.Unfolds v u ∧ sizeOf u < sizeOf t := by
  cases c with
  | arr id =>
    cases h with
    | cutArr hcut => exact hcut.elim
    | @arr _ _ trees _ hlength hitems =>
      obtain ⟨i, hi, rfl⟩ := Array.mem_iff_getElem.1 (Array.mem_toList_iff.1 hv)
      have hsmaller := List.sizeOf_lt_of_mem (List.getElem_mem (hlength ▸ hi))
      refine ⟨trees[i], (hitems i hi (hlength ▸ hi)).around, ?_⟩
      simp only [Tree.arr.sizeOf_spec]
      omega
  | obj id =>
    cases h with
    | cutObj hcut => exact hcut.elim
    | @obj _ _ trees _ hkeys hentries =>
      obtain ⟨entry, hentry, rfl⟩ := List.mem_map.1 hv
      obtain ⟨i, hi, rfl⟩ := List.mem_iff_getElem.1 hentry
      have hlength := congrArg List.length hkeys
      simp only [List.length_map] at hlength
      have hsmaller := List.sizeOf_lt_of_mem (List.getElem_mem (hlength ▸ hi))
      refine ⟨trees[i].2, (hentries i hi (hlength ▸ hi)).around, ?_⟩
      have hpair : sizeOf trees[i] = 1 + sizeOf trees[i].1 + sizeOf trees[i].2 := rfl
      simp only [Tree.obj.sizeOf_spec]
      omega

theorem Unfolds.inside {c d : Container} {t : Tree} (h : s.Unfolds c.value t)
    (hd : Relation.TransGen s.Holds c d) : ∃ u, s.Unfolds d.value u ∧ sizeOf u < sizeOf t := by
  induction hd with
  | single hold => exact h.held hold
  | tail _ hold ih =>
    obtain ⟨u, hu, hsmaller⟩ := ih
    obtain ⟨w, hw, hless⟩ := hu.held hold
    exact ⟨w, hw, Nat.lt_trans hless hsmaller⟩

/-- Only a value without cycles has an unfolding: that of a container inside itself would be
smaller than itself. -/
theorem Unfolds.acyclic {v : Value} {t : Tree} (h : s.Unfolds v t) : s.Acyclic v := by
  rintro root c rfl hreach hself
  obtain ⟨u, hu⟩ : ∃ u, s.Unfolds c.value u := by
    obtain rfl | hinside := Relation.reflTransGen_iff_eq_or_transGen.1 hreach
    · exact ⟨t, h⟩
    · obtain ⟨u, hu, -⟩ := h.inside hinside
      exact ⟨u, hu⟩
  obtain ⟨w, hw, hless⟩ := hu.inside hself
  obtain rfl := hu.unique hw
  exact Nat.lt_irrefl _ hless

/-- What an acyclic value holds is acyclic. -/
theorem Acyclic.held {c : Container} (h : s.Acyclic c.value) {v : Value} (hv : v ∈ s.held c) :
    s.Acyclic v := by
  rintro root d rfl hreach
  exact h c d rfl (.head hv hreach)

/-- The structural rendering of an acyclic value cuts nothing. The containers around it are those
in which it stands. -/
theorem Drawn.unfolds {around : List Container} {v : Value} {t : Tree}
    (h : s.Drawn InsideItself around v t) (hv : s.Acyclic v)
    (haround : ∀ c ∈ around, ∀ d : Container, v = d.value → Relation.TransGen s.Holds c d) :
    s.Drawn (fun _ _ => False) around v t := by
  -- what is held by a container stands inside it and inside all that it stands in
  have inner : ∀ {around : List Container} {c : Container} {v : Value},
      (∀ a ∈ around, ∀ d : Container, c.value = d.value → Relation.TransGen s.Holds a d) →
      v ∈ s.held c → ∀ a ∈ c :: around, ∀ d : Container, v = d.value →
        Relation.TransGen s.Holds a d := by
    rintro around c v haround hv a ha d rfl
    obtain rfl | ha := List.mem_cons.1 ha
    · exact .single hv
    · exact (haround a ha c rfl).tail hv
  induction h with
  | null => exact .null
  | bool b => exact .bool b
  | num x => exact .num x
  | str text => exact .str text
  | fn id => exact .fn id
  | @arr around id _ _ hlength _ ih =>
    refine .arr not_false hlength fun i hi hi' => ?_
    have hheld : (s.items id)[i] ∈ s.held (.arr id) :=
      Array.mem_toList_iff.2 (Array.getElem_mem hi)
    exact ih i hi hi' (Acyclic.held (c := .arr id) hv hheld) (inner (c := .arr id) haround hheld)
  | @obj around id _ _ hkeys _ ih =>
    refine .obj not_false hkeys fun i hi hi' => ?_
    have hheld : (s.entries id)[i].2 ∈ s.held (.obj id) :=
      List.mem_map_of_mem (List.getElem_mem hi)
    exact ih i hi hi' (Acyclic.held (c := .obj id) hv hheld) (inner (c := .obj id) haround hheld)
  | @cutArr around id hcut =>
    exact absurd (haround _ hcut (.arr id) rfl) (hv (.arr id) (.arr id) rfl .refl)
  | @cutObj around id hcut =>
    exact absurd (haround _ hcut (.obj id) rfl) (hv (.obj id) (.obj id) rfl .refl)

/-- A tree in which nothing is cut is the unfolding. -/
theorem Drawn.of_whole {Cut : List Container → Container → Prop} {around : List Container}
    {v : Value} {t : Tree} (h : s.Drawn Cut around v t) (ht : t.Whole) :
    s.Drawn (fun _ _ => False) around v t := by
  induction h with
  | null => exact .null
  | bool b => exact .bool b
  | num x => exact .num x
  | str text => exact .str text
  | fn id => exact .fn id
  | arr _ hlength _ ih =>
    cases ht with
    | arr hitems =>
      exact .arr not_false hlength fun i hi hi' => ih i hi hi' (hitems _ (List.getElem_mem hi'))
  | obj _ hkeys _ ih =>
    cases ht with
    | obj hentries =>
      exact .obj not_false hkeys fun i hi hi' => ih i hi hi' (hentries _ (List.getElem_mem hi'))
  | cutArr => cases ht
  | cutObj => cases ht

theorem Drawn.whole {around : List Container} {v : Value} {t : Tree}
    (h : s.Drawn (fun _ _ => False) around v t) : t.Whole := by
  induction h with
  | null => exact .null
  | bool b => exact .bool b
  | num x => exact .num x
  | str text => exact .str text
  | fn id => exact .fn _
  | arr _ hlength _ ih =>
    refine .arr fun item hitem => ?_
    obtain ⟨i, hi, rfl⟩ := List.mem_iff_getElem.1 hitem
    exact ih i (hlength ▸ hi) hi
  | obj _ hkeys _ ih =>
    refine .obj fun entry hentry => ?_
    obtain ⟨i, hi, rfl⟩ := List.mem_iff_getElem.1 hentry
    have hlength := congrArg List.length hkeys
    simp only [List.length_map] at hlength
    exact ih i (hlength ▸ hi) hi
  | cutArr hcut => exact hcut.elim
  | cutObj hcut => exact hcut.elim

/-! ## The renderings of a value -/

theorem unfolds_tree {v : Value} (hv : s.Acyclic v) : s.Unfolds v (s.tree v) :=
  (s.renders_tree v).unfolds hv fun _ hc => absurd hc List.not_mem_nil

/-- The unfolding of a value is the tree that its renderings show. -/
theorem Unfolds.eq_tree {v : Value} {t : Tree} (h : s.Unfolds v t) : t = s.tree v :=
  h.unique (unfolds_tree h.acyclic)

theorem tree_whole_iff {v : Value} : (s.tree v).Whole ↔ s.Acyclic v :=
  ⟨fun h => Unfolds.acyclic ((s.renders_tree v).of_whole h), fun h => (unfolds_tree h).whole⟩

theorem repr_eq_display (v : Value) : s.repr v = (s.tree v).display :=
  reprWithin_eq_display s.nestingBound [] v

theorem json_eq_json (v : Value) : s.json v = (s.tree v).json :=
  jsonWithin_eq_json s.nestingBound [] v

/-- Over every store, whatever is shared in it and whatever cycles it has, the two renderings of a
value are readings of one tree: its structural rendering, of which there is exactly one. Nothing in
it is cut just if the value is acyclic. It is the unfolding of the value then, and every value with
that unfolding, in any store, has the same renderings. -/
theorem renderings_structural (s : Store) (v : Value) :
    ∃ t : Tree, (∀ u, s.Renders v u ↔ u = t) ∧ s.repr v = t.display ∧ s.json v = t.json ∧
      (t.Whole ↔ s.Acyclic v) ∧ (∀ u, s.Unfolds v u ↔ s.Acyclic v ∧ u = t) ∧
      ∀ (other : Store) (w : Value), other.Unfolds w t →
        other.repr w = s.repr v ∧ other.json w = s.json v := by
  refine ⟨s.tree v, fun u => ⟨fun h => h.unique (s.renders_tree v), ?_⟩, repr_eq_display v,
    json_eq_json v, tree_whole_iff, fun u => ⟨fun h => ⟨h.acyclic, h.eq_tree⟩, ?_⟩,
    fun other w h => ?_⟩
  · rintro rfl
    exact s.renders_tree v
  · rintro ⟨hv, rfl⟩
    exact unfolds_tree hv
  · rw [repr_eq_display, repr_eq_display, json_eq_json, json_eq_json, ← h.eq_tree]
    exact ⟨rfl, rfl⟩

/-- An array that is held twice is written out twice, as two arrays are. -/
theorem renderings_structural_shared :
    let shared : Store := { arrays := #[#[.arr 1, .arr 1], #[.null]] }
    let copied : Store := { arrays := #[#[.arr 1, .arr 2], #[.null], #[.null]] }
    shared.repr (.arr 0) = copied.repr (.arr 0) ∧ shared.json (.arr 0) = copied.json (.arr 0) := by
  intro shared copied
  have hitem : ∀ (s : Store) (around : List Container) (id : Nat), s.items id = #[.null] →
      s.Drawn (fun _ _ => False) around (.arr id) (.arr [.null]) := by
    intro s around id hid
    refine .arr not_false (by rw [hid]; rfl) fun i hi hi' => ?_
    obtain rfl : i = 0 := Nat.lt_one_iff.1 hi'
    simp only [hid]
    exact .null
  have hcopied : copied.Unfolds (.arr 0) (.arr [.arr [.null], .arr [.null]]) :=
    .arr not_false rfl fun
      | 0, _, _ => hitem copied _ 1 rfl
      | 1, _, _ => hitem copied _ 2 rfl
  have hshared : shared.Unfolds (.arr 0) (.arr [.arr [.null], .arr [.null]]) :=
    .arr not_false rfl fun
      | 0, _, _ => hitem shared _ 1 rfl
      | 1, _, _ => hitem shared _ 1 rfl
  obtain ⟨t, -, -, -, -, hunfolds, hsame⟩ := renderings_structural copied (.arr 0)
  obtain ⟨-, rfl⟩ := (hunfolds _).1 hcopied
  exact hsame shared (.arr 0) hshared

/-- An array inside itself is cut there, one that is held twice is not. -/
example : ({ arrays := #[#[.arr 0, .arr 1, .arr 1], #[.null]] } : Store).repr (.arr 0) =
    "[..., [null], [null]]" := by
  decide +kernel

end Store

end ScriptLab
