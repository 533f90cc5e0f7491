import ScriptLab.Proofs.Value.Unfolding
import ScriptLab.Value.Metadata

/-!
# The values of literals

What a literal denotes is a tree, read off the expression alone. Its value is made of new arrays and
objects and unfolds to this tree, in the store with which it comes and in every later one that leaves
them as they are.
-/

namespace ScriptLab

open Program (Expr)

/-! ## The tree of a literal -/

mutual

/-- The tree that a literal denotes. -/
def staticTree : Expr → Tree
  | .bool _ b => .bool b
  | .num _ x => .num x
  | .str _ text => .str text
  | .arr _ items => .arr (staticTrees items)
  | .obj _ entries => .obj (staticTreeEntries [] entries)
  | .unary _ .neg operand =>
    match staticTree operand with
    | .num x => .num (-x)
    | _ => .null
  | _ => .null

/-- The trees of literals. -/
def staticTrees : List Expr → List Tree
  | [] => []
  | item :: rest => staticTree item :: staticTrees rest

/-- The entries of an object of literals, behind those already made. -/
def staticTreeEntries : Entries String Tree → List (String × Expr) → Entries String Tree
  | made, [] => made
  | made, (key, item) :: rest => staticTreeEntries (made.put key (staticTree item)) rest

end

theorem Entries.put_of_notMem {α : Type} {entries : Entries String α} {key : String}
    (h : key ∉ entries.map Prod.fst) (a : α) : entries.put key a = entries ++ [(key, a)] := by
  induction entries with
  | nil => rfl
  | cons entry rest ih =>
      obtain ⟨k, b⟩ := entry
      rw [List.map_cons, List.mem_cons, not_or] at h
      rw [put, if_neg (Ne.symm h.1), ih h.2, List.cons_append]

/-- The entries of a literal stay as they are if no key is repeated. -/
theorem staticTreeEntries_of_nodup {made : Entries String Tree} {entries : List (String × Expr)}
    (h : (made.map Prod.fst ++ entries.map Prod.fst).Nodup) :
    staticTreeEntries made entries =
      made ++ entries.map fun entry => (entry.1, staticTree entry.2) := by
  induction entries generalizing made with
  | nil => simp [staticTreeEntries]
  | cons entry rest ih =>
      obtain ⟨key, item⟩ := entry
      have hkey : key ∉ made.map Prod.fst := fun hmem =>
        (List.nodup_append.1 h).2.2 key hmem key (by simp) rfl
      rw [staticTreeEntries, Entries.put_of_notMem hkey, ih (by simpa using h)]
      simp

/-! ## Later stores -/

namespace Store

/-- A later store still has the containers of an earlier one, as they were. -/
structure Extends (s t : Store) : Prop where
  arrays : s.arrays.size ≤ t.arrays.size
  objects : s.objects.size ≤ t.objects.size
  items : ∀ id < s.arrays.size, t.items id = s.items id
  entries : ∀ id < s.objects.size, t.entries id = s.entries id

namespace Extends

theorem refl (s : Store) : Extends s s :=
  ⟨Nat.le_refl _, Nat.le_refl _, fun _ _ => rfl, fun _ _ => rfl⟩

theorem trans {s t u : Store} (h : Extends s t) (h' : Extends t u) : Extends s u where
  arrays := Nat.le_trans h.arrays h'.arrays
  objects := Nat.le_trans h.objects h'.objects
  items id hid := (h'.items id (Nat.lt_of_lt_of_le hid h.arrays)).trans (h.items id hid)
  entries id hid := (h'.entries id (Nat.lt_of_lt_of_le hid h.objects)).trans (h.entries id hid)

theorem newArray (s : Store) (items : Array Value) : Extends s (s.newArray items).2 where
  arrays := by simp [Store.newArray]
  objects := Nat.le_refl _
  items id hid := by simp [Store.newArray, Store.items, Array.getElem?_push_lt, hid]
  entries _ _ := rfl

theorem newObject (s : Store) (entries : Entries String Value) :
    Extends s (s.newObject entries).2 where
  arrays := Nat.le_refl _
  objects := by simp [Store.newObject]
  items _ _ := rfl
  entries id hid := by
    simp [Store.newObject, Store.entries, Array.getElem?_push_lt, hid]

end Extends

end Store

/-! ## Values of literals -/

/-- A value that comes with a store, and the tree that it unfolds to from then on. -/
structure MadeAs (before : Store) (made : Value × Store) (t : Tree) : Prop where
  grows : before.Extends made.2
  unfolds : ∀ later, made.2.Extends later → later.Unfolds made.1 t

namespace MadeAs

variable {before : Store}

theorem newArray {values : List Value} {s : Store} {trees : List Tree} (hs : before.Extends s)
    (h : ∀ later, s.Extends later → List.Forall₂ later.Unfolds values trees) :
    MadeAs before (s.newArray values.toArray) (.arr trees) where
  grows := hs.trans (.newArray s _)
  unfolds later hlater := by
    have hitems : later.items s.arrays.size = values.toArray := by
      rw [hlater.items _ (by simp [Store.newArray])]
      simp [Store.newArray, Store.items]
    refine Store.unfolds_arr ?_
    rw [hitems]
    exact h later ((Store.Extends.newArray s _).trans hlater)

theorem newObject {entries : Entries String Value} {s : Store} {trees : Entries String Tree}
    (hs : before.Extends s)
    (h : ∀ later, s.Extends later →
      List.Forall₂ (fun entry tree => entry.1 = tree.1 ∧ later.Unfolds entry.2 tree.2) entries trees) :
    MadeAs before (s.newObject entries) (.obj trees) where
  grows := hs.trans (.newObject s _)
  unfolds later hlater := by
    have hentries : later.entries s.objects.size = entries := by
      rw [hlater.entries _ (by simp [Store.newObject])]
      simp [Store.newObject, Store.entries]
    refine Store.unfolds_obj ?_
    rw [hentries]
    exact h later ((Store.Extends.newObject s _).trans hlater)

end MadeAs

/-- Putting related values keeps entries related. -/
theorem Entries.forall₂_put {κ α β : Type} [DecidableEq κ] {R : α → β → Prop}
    {entries : Entries κ α} {others : Entries κ β}
    (h : List.Forall₂ (fun entry other => entry.1 = other.1 ∧ R entry.2 other.2) entries others)
    (key : κ) {a : α} {b : β} (hab : R a b) :
    List.Forall₂ (fun entry other => entry.1 = other.1 ∧ R entry.2 other.2) (entries.put key a)
      (others.put key b) := by
  induction h with
  | nil => exact .cons ⟨rfl, hab⟩ .nil
  | @cons entry other entries others hentry hrest ih =>
      obtain ⟨k, v⟩ := entry
      obtain ⟨k', v'⟩ := other
      obtain ⟨rfl, hv⟩ := hentry
      rw [put, put]
      split
      · exact .cons ⟨rfl, hab⟩ hrest
      · exact .cons ⟨rfl, hv⟩ ih

mutual

/-- The value of a literal unfolds to the tree that the literal denotes. -/
theorem staticValue_madeAs : ∀ (e : Expr) (s : Store), MadeAs s (staticValue e s) (staticTree e)
  | .null _, s | .ident .., s | .fn .., s | .call .., s | .index .., s | .prop .., s | .binary .., s
  | .cond .., s | .unary _ .not _, s => ⟨.refl s, fun _ _ => .null⟩
  | .bool _ b, s => ⟨.refl s, fun _ _ => .bool b⟩
  | .num _ x, s => ⟨.refl s, fun _ _ => .num x⟩
  | .str _ text, s => ⟨.refl s, fun _ _ => .str text⟩
  | .arr _ items, s =>
    have h := staticItems_madeAs items s
    .newArray h.1 h.2
  | .obj _ entries, s =>
    have h := staticEntries_madeAs entries [] [] s fun _ _ => .nil
    .newObject h.1 h.2
  | .unary _ .neg operand, s => by
    obtain ⟨hgrows, hunfolds⟩ := staticValue_madeAs operand s
    have hoperand := hunfolds _ (.refl _)
    rw [staticValue, staticTree]
    revert hgrows hoperand
    generalize staticValue operand s = made
    generalize staticTree operand = t
    obtain ⟨v, after⟩ := made
    intro hgrows hoperand
    cases hoperand with
    | num x => exact ⟨hgrows, fun _ _ => .num (-x)⟩
    | _ => exact ⟨hgrows, fun _ _ => .null⟩

theorem staticItems_madeAs : ∀ (items : List Expr) (s : Store),
    s.Extends (staticItems items s).2 ∧ ∀ later, (staticItems items s).2.Extends later →
      List.Forall₂ later.Unfolds (staticItems items s).1 (staticTrees items)
  | [], s => ⟨.refl s, fun _ _ => .nil⟩
  | item :: rest, s => by
    obtain ⟨hitem, hunfolds⟩ := staticValue_madeAs item s
    obtain ⟨hrest, hothers⟩ := staticItems_madeAs rest (staticValue item s).2
    exact ⟨hitem.trans hrest, fun later h => .cons (hunfolds later (hrest.trans h)) (hothers later h)⟩

theorem staticEntries_madeAs : ∀ (entries : List (String × Expr)) (made : Entries String Value)
    (trees : Entries String Tree) (s : Store),
    (∀ later, s.Extends later →
      List.Forall₂ (fun entry tree => entry.1 = tree.1 ∧ later.Unfolds entry.2 tree.2) made trees) →
    s.Extends (staticEntries made entries s).2 ∧
      ∀ later, (staticEntries made entries s).2.Extends later →
        List.Forall₂ (fun entry tree => entry.1 = tree.1 ∧ later.Unfolds entry.2 tree.2)
          (staticEntries made entries s).1 (staticTreeEntries trees entries)
  | [], made, trees, s, hmade => ⟨.refl s, hmade⟩
  | (key, item) :: rest, made, trees, s, hmade => by
    obtain ⟨hitem, hunfolds⟩ := staticValue_madeAs item s
    have hput : ∀ later, (staticValue item s).2.Extends later → List.Forall₂ _ _ _ := fun later h =>
      Entries.forall₂_put (hmade later (hitem.trans h)) key (hunfolds later h)
    obtain ⟨hrest, hothers⟩ := staticEntries_madeAs rest _ _ (staticValue item s).2 hput
    exact ⟨hitem.trans hrest, hothers⟩

end

end ScriptLab
