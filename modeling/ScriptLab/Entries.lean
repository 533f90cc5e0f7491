/-!
# Entries in order of insertion

A table of keys and values that keeps its keys in the order in which they were first put. Objects of
the language, variables of a scope, the releases of a registry and the metadata of a program are such
tables.
-/

namespace ScriptLab

/-- Keys with their values, oldest key first. -/
abbrev Entries (κ : Type) (α : Type) := List (κ × α)

namespace Entries

variable {κ α : Type} [DecidableEq κ]

/-- The value of a key. -/
def find? : Entries κ α → κ → Option α
  | [], _ => none
  | (k, a) :: rest, key => if k = key then some a else find? rest key

/-- Replaces the value of a key in its place, or adds a new key at the end. -/
def put : Entries κ α → κ → α → Entries κ α
  | [], key, value => [(key, value)]
  | (k, a) :: rest, key, value =>
    if k = key then (k, value) :: rest else (k, a) :: put rest key value

/-- Puts the pairs one after the other: a repeated key keeps its first place and its last value. -/
def ofList (pairs : List (κ × α)) : Entries κ α :=
  pairs.foldl (fun entries pair => entries.put pair.1 pair.2) []

/-- Removes a key. -/
def erase : Entries κ α → κ → Entries κ α
  | [], _ => []
  | (k, a) :: rest, key => if k = key then rest else (k, a) :: erase rest key

theorem mem_of_find? {entries : Entries κ α} {key : κ} {value : α}
    (h : entries.find? key = some value) : (key, value) ∈ entries := by
  induction entries with
  | nil => cases h
  | cons entry rest ih =>
    obtain ⟨k, a⟩ := entry
    unfold find? at h
    split at h
    · next hk =>
      cases h
      rw [hk]
      exact List.mem_cons_self
    · exact List.mem_cons_of_mem _ (ih h)

theorem find?_put (entries : Entries κ α) (key other : κ) (value : α) :
    (entries.put key value).find? other =
      if key = other then some value else entries.find? other := by
  induction entries with
  | nil => simp [put, find?]
  | cons pair rest ih =>
    obtain ⟨k, a⟩ := pair
    by_cases h : k = key
    · subst h
      by_cases h' : k = other <;> simp [put, find?, h']
    · by_cases h' : k = other
      · subst h'
        simp [put, find?, h, Ne.symm h]
      · simp [put, find?, h, h', ih]

/-- A new key goes to the end; a known one keeps its place. -/
theorem keys_put (entries : Entries κ α) (key : κ) (value : α) :
    (entries.put key value).map Prod.fst =
      if key ∈ entries.map Prod.fst then entries.map Prod.fst
      else entries.map Prod.fst ++ [key] := by
  induction entries with
  | nil => simp [put]
  | cons pair rest ih =>
    obtain ⟨k, a⟩ := pair
    by_cases h : k = key
    · simp [put, h]
    · have h' : ¬key = k := fun e => h e.symm
      by_cases hm : key ∈ rest.map Prod.fst
      · simp [put, h, ih, hm]
      · simp only [put, h, if_false, List.map_cons, ih, hm, List.mem_cons, h', or_self,
          List.cons_append]

theorem nodup_put {entries : Entries κ α} (hnodup : (entries.map Prod.fst).Nodup) (key : κ)
    (value : α) : ((entries.put key value).map Prod.fst).Nodup := by
  rw [keys_put]
  by_cases hm : key ∈ entries.map Prod.fst
  · rw [if_pos hm]
    exact hnodup
  · rw [if_neg hm, List.nodup_append]
    refine ⟨hnodup, by simp, ?_⟩
    intro k hk other hother heq
    rw [List.mem_singleton.1 hother] at heq
    exact hm (heq ▸ hk)

theorem find?_eq_none_iff (entries : Entries κ α) (key : κ) :
    entries.find? key = none ↔ key ∉ entries.map Prod.fst := by
  induction entries with
  | nil => simp [find?]
  | cons pair rest ih =>
    obtain ⟨k, a⟩ := pair
    by_cases h : k = key
    · simp [find?, h]
    · simp [find?, h, Ne.symm h, ih]

/-- Among entries without a repeated key, each is the one that is found. -/
theorem find?_eq_some_iff {entries : Entries κ α} (hnodup : (entries.map Prod.fst).Nodup) (key : κ)
    (value : α) : entries.find? key = some value ↔ (key, value) ∈ entries := by
  induction entries with
  | nil => simp [find?]
  | cons pair rest ih =>
    obtain ⟨k, a⟩ := pair
    rw [List.map_cons, List.nodup_cons] at hnodup
    by_cases h : k = key
    · subst h
      have hrest : (k, value) ∉ rest := fun hmem => hnodup.1 (List.mem_map.2 ⟨_, hmem, rfl⟩)
      simp [find?, hrest, eq_comm]
    · simp [find?, h, Ne.symm h, ih hnodup.2]

theorem keys_erase (entries : Entries κ α) (key : κ) :
    (entries.erase key).map Prod.fst = (entries.map Prod.fst).erase key := by
  induction entries with
  | nil => rfl
  | cons pair rest ih =>
    obtain ⟨k, a⟩ := pair
    by_cases h : k = key
    · simp [erase, h]
    · simp [erase, h, ih]

theorem nodup_erase {entries : Entries κ α} (hnodup : (entries.map Prod.fst).Nodup) (key : κ) :
    ((entries.erase key).map Prod.fst).Nodup := by
  rw [keys_erase]
  exact hnodup.sublist List.erase_sublist

theorem find?_erase {entries : Entries κ α} (hnodup : (entries.map Prod.fst).Nodup)
    (key other : κ) :
    (entries.erase key).find? other = if key = other then none else entries.find? other := by
  induction entries with
  | nil => simp [erase, find?]
  | cons pair rest ih =>
    obtain ⟨k, a⟩ := pair
    rw [List.map_cons, List.nodup_cons] at hnodup
    by_cases h : k = key
    · subst h
      by_cases h' : k = other
      · subst h'
        simpa [erase] using (find?_eq_none_iff rest k).2 hnodup.1
      · simp [erase, find?, h']
    · by_cases h' : k = other
      · subst h'
        simp [erase, find?, h, Ne.symm h]
      · simp [erase, find?, h, h', ih hnodup.2]

end Entries

end ScriptLab
