import ScriptLab.Proofs.Json.Reading

/-!
# Fields by name

A structure is read from an object by the names of its fields. Where each of them is listed once or not
at all, in whatever order and beside whatever other fields, those that are listed have the listed values.
-/

namespace ScriptLab.Json

/-- The values that an object gives to a name, in order. -/
def named {α : Type} (name : String) (entries : List (String × α)) : List (String × α) :=
  entries.filter fun entry => entry.1 = name

theorem named_cons {α : Type} (name : String) (entry : String × α) (rest : List (String × α)) :
    named name (entry :: rest) =
      if entry.1 = name then entry :: named name rest else named name rest := by
  by_cases hname : entry.1 = name <;> simp [named, hname]

/-- The entries have the names of the fields, and their texts are read as the values of these. -/
abbrev EntriesRead (entries : List (String × List Char)) (read : List (String × Document)) : Prop :=
  List.Forall₂ (fun entry field => entry.1 = field.1 ∧ Reads entry.2 field.2) entries read

theorem EntriesRead.named {entries : List (String × List Char)} {read : List (String × Document)}
    (h : EntriesRead entries read) (name : String) :
    EntriesRead (Json.named name entries) (Json.named name read) := by
  induction h with
  | nil => exact .nil
  | @cons entry field _ _ hfirst _ ih =>
    rw [named_cons, named_cons, hfirst.1]
    by_cases hname : field.1 = name
    · rw [if_pos hname, if_pos hname]
      exact .cons hfirst ih
    · rw [if_neg hname, if_neg hname]
      exact ih

theorem lookup_eq_head {α : Type} (name : String) (fields : List (String × α)) :
    fields.lookup name = (named name fields).head?.map Prod.snd := by
  induction fields with
  | nil => rfl
  | cons field rest ih =>
    rw [named_cons]
    by_cases hname : field.1 = name
    · simp [List.lookup, hname]
    · have hbeq : (name == field.1) = false := beq_false_of_ne (Ne.symm hname)
      simp [List.lookup, hname, hbeq, ih]

theorem named_given {α : Type} {names : List String} {name : String} (h : name ∈ names)
    (fields : List (String × α)) :
    named name (fields.filter fun field => names.contains field.1) = named name fields := by
  unfold named
  rw [List.filter_filter]
  apply List.filter_congr
  intro field _
  by_cases hname : field.1 = name
  · simp [hname, h]
  · simp [hname]

theorem named?_map_some (fields : List (String × Document)) :
    Document.named? (fields.map fun field => (some field.1, field.2)) = some fields := by
  induction fields with
  | nil => rfl
  | cons field rest ih =>
    rw [List.map_cons, Document.named?, ih]
    rfl

/-- An object gives its fields of the given names, if each of these is there at most once. -/
theorem fields?_obj (names : List String) (fields : List (String × Document))
    (h : ∀ name ∈ names, (named name fields).length ≤ 1) :
    (Document.obj (fields.map fun field => (some field.1, field.2))).fields? names =
      some (fields.filter fun field => names.contains field.1) := by
  have hnodup : ((fields.filter fun field => names.contains field.1).map Prod.fst).Nodup := by
    rw [List.nodup_iff_count_le_one]
    intro name
    have hcount : ((fields.filter fun field => names.contains field.1).map Prod.fst).count name =
        (named name (fields.filter fun field => names.contains field.1)).length := by
      rw [List.count_eq_countP, List.countP_map, List.countP_eq_length_filter]
      rfl
    rw [hcount]
    by_cases hname : name ∈ names
    · rw [named_given hname]
      exact h name hname
    · have hnone : named name (fields.filter fun field => names.contains field.1) = [] := by
        simp only [named, List.filter_filter, List.filter_eq_nil_iff]
        intro field _
        by_cases heq : field.1 = name
        · simp [heq, hname]
        · simp [heq]
      rw [hnone]
      exact Nat.zero_le 1
  simp only [Document.fields?, named?_map_some, Option.bind_eq_bind, Option.bind_some]
  exact if_pos hnodup

/-- An object gives a name a text of the given kind, once, or gives it none. -/
def Gives (entries : List (String × List Char)) (name : String) (listed : Bool)
    (kind : List Char → Prop) : Prop :=
  if listed then ∃ cs, kind cs ∧ named name entries = [(name, cs)] else named name entries = []

theorem Gives.length_le {entries : List (String × List Char)} {read : List (String × Document)}
    {name : String} {listed : Bool} {kind : List Char → Prop} (h : Gives entries name listed kind)
    (hread : EntriesRead entries read) : (named name read).length ≤ 1 := by
  rw [← (hread.named name).length_eq]
  cases listed with
  | false => simp [show named name entries = [] from h]
  | true =>
    obtain ⟨cs, -, hnamed⟩ := h
    simp [hnamed]

/-- A field has the value that is listed for it, or else its default. -/
theorem Gives.field? {entries : List (String × List Char)} {read : List (String × Document)}
    {name : String} {listed : Bool} {kind : List Char → Prop} {α : Type} {value : α}
    {readAs : Document → Option α} (h : Gives entries name listed kind)
    (hread : EntriesRead entries read) (names : List String) (hname : name ∈ names)
    (hkind : ∀ cs, kind cs → ∃ document, Reads cs document ∧ readAs document = some value)
    (otherwise : α) :
    Document.field? (read.filter fun field => names.contains field.1) name otherwise readAs =
      some (if listed then value else otherwise) := by
  have hnamed := hread.named name
  unfold Document.field?
  rw [lookup_eq_head, named_given hname]
  cases listed with
  | false =>
    rw [show named name entries = [] from h] at hnamed
    cases hnone : named name read with
    | nil => rfl
    | cons field rest =>
      rw [hnone] at hnamed
      cases hnamed
  | true =>
    obtain ⟨cs, hcs, hentries⟩ := h
    obtain ⟨document, hreads, hvalue⟩ := hkind cs hcs
    rw [hentries] at hnamed
    cases hfound : named name read with
    | nil =>
      rw [hfound] at hnamed
      cases hnamed
    | cons field rest =>
      rw [hfound] at hnamed
      cases hnamed with
      | cons hfirst _ =>
        show readAs field.2 = some value
        rw [hfirst.2.unique hreads]
        exact hvalue

end ScriptLab.Json
