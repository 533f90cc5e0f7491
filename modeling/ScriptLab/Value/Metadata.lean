import ScriptLab.Value.Rendering

/-!
# Metadata

The metadata of a program are the values of its blocks of metadata, by name. They are literals, so
that they have values without a run.
-/

namespace ScriptLab

open Program (Stmt Expr UnaryOp)

mutual

/-- The value of a literal. -/
def staticValue : Expr → Store → Value × Store
  | .bool _ b, store => (.bool b, store)
  | .num _ x, store => (.num x, store)
  | .str _ t, store => (.str t, store)
  | .arr _ items, store =>
    let (values, store) := staticItems items store
    store.newArray values.toArray
  | .obj _ entries, store =>
    let (values, store) := staticEntries [] entries store
    store.newObject values
  | .unary _ .neg operand, store =>
    match staticValue operand store with
    | (.num x, store) => (.num (-x), store)
    | (_, store) => (.null, store)
  | _, store => (.null, store)

/-- The values of literals. -/
def staticItems : List Expr → Store → List Value × Store
  | [], store => ([], store)
  | item :: rest, store =>
    let (value, store) := staticValue item store
    let (values, store) := staticItems rest store
    (value :: values, store)

/-- The entries of an object of literals, behind those already made. -/
def staticEntries : Entries String Value → List (String × Expr) → Store →
    Entries String Value × Store
  | made, [], store => (made, store)
  | made, (key, item) :: rest, store =>
    let (value, store) := staticValue item store
    staticEntries (made.put key value) rest store

end

/-- The metadata of a program, behind those already collected. A repeated name keeps its first place
and its last value. -/
def metadataFrom : Entries (Option String) Value → List Stmt → Store →
    Entries (Option String) Value × Store
  | made, [], store => (made, store)
  | made, .metadata _ name value :: rest, store =>
    let (value, store) := staticValue value store
    metadataFrom (made.put name value) rest store
  | made, _ :: rest, store => metadataFrom made rest store

/-- The metadata of a program, with a store for their values. -/
def metadata (program : List Stmt) (store : Store) : Entries (Option String) Value × Store :=
  metadataFrom [] program store

/-- The metadata of a program as JSON values. -/
def metadataJson (program : List Stmt) : Entries (Option String) Json :=
  let (entries, store) := metadata program {}
  entries.map fun entry => (entry.1, store.json entry.2)

end ScriptLab
