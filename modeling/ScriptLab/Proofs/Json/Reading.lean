import ScriptLab.Proofs.Json.Leaves

/-!
# Reading what the grammar allows

Every JSON value is read, whatever may stand behind it, and the fields of an object are read with the
names that their keys denote. The depth that reading is given is never felt.
-/

namespace ScriptLab.Json

/-! ## First characters -/

theorem readValue_quote (n : Nat) (cs : List Char) :
    readValue (n + 1) ('"' :: cs) = do
      let (text, rest) ← readString cs
      return (.str text, rest) := rfl

theorem readValue_bracket (n : Nat) (cs : List Char) :
    readValue (n + 1) ('[' :: cs) =
      match skipBlanks cs with
      | ']' :: rest => some (.arr [], rest)
      | _ => do
        let (items, rest) ← readItems n cs
        return (.arr items, rest) := rfl

theorem readValue_brace (n : Nat) (cs : List Char) :
    readValue (n + 1) ('\x7b' :: cs) =
      match skipBlanks cs with
      | '\x7d' :: rest => some (.obj [], rest)
      | _ => do
        let (fields, rest) ← readFields n cs
        return (.obj fields, rest) := rfl

/-- Behind an item there are others, or the array ends. -/
theorem readItems_succ (n : Nat) (cs : List Char) :
    readItems (n + 1) cs =
      (readValue n cs).bind fun (item, rest) =>
        match skipBlanks rest with
        | ',' :: rest => (readItems n rest).bind fun (items, rest) => some (item :: items, rest)
        | ']' :: rest => some ([item], rest)
        | _ => none := rfl

/-! ## Values in front of others -/

/-- A text is read as a document, behind any blanks and in front of what may stand behind a value. -/
def Reads (cs : List Char) (document : Document) : Prop :=
  ∀ fuel gap rest, 2 * cs.length ≤ fuel → Blank gap → Ends rest →
    readValue fuel (gap ++ (cs ++ rest)) = some (document, rest)

/-- A text is read as one document only. -/
theorem Reads.unique {cs : List Char} {document other : Document} (h : Reads cs document)
    (h' : Reads cs other) : document = other := by
  have hread := h _ [] [] (Nat.le_refl _) nofun nofun
  rw [h' _ [] [] (Nat.le_refl _) nofun nofun] at hread
  cases hread
  rfl

theorem readValue_append {gap : List Char} (hgap : Blank gap) (fuel : Nat) (cs : List Char) :
    readValue fuel (gap ++ cs) = readValue fuel cs := by
  cases fuel with
  | zero => rfl
  | succ n => rw [readValue, readValue, skipBlanks_append hgap]

/-- A text that does not start with blanks is read as a document if that is so in front of every
end. -/
theorem Reads.intro {c : Char} {cs : List Char} {document : Document}
    (h : ∀ n rest, 2 * cs.length < n → Ends rest →
      readValue (n + 1) (c :: (cs ++ rest)) = some (document, rest)) :
    Reads (c :: cs) document := by
  intro fuel gap rest hfuel hgap hrest
  rw [List.length_cons] at hfuel
  obtain ⟨n, rfl⟩ : ∃ n, fuel = n + 1 := ⟨fuel - 1, by omega⟩
  rw [readValue_append hgap]
  exact h n rest (by omega) hrest

theorem Ends.of_blank {gap rest : List Char} (hgap : Blank gap) (hrest : Ends rest) :
    Ends (gap ++ rest) := by
  cases gap with
  | nil => exact hrest
  | cons c others =>
    rintro _ ⟨⟩
    rcases hgap c List.mem_cons_self with hc | hc | hc | hc <;> simp [hc]

/-! ## Words, numbers and strings -/

theorem reads_null : Reads ['n', 'u', 'l', 'l'] .null :=
  .intro fun _ _ _ _ => rfl

theorem reads_yes : Reads ['t', 'r', 'u', 'e'] (.bool true) :=
  .intro fun _ _ _ _ => rfl

theorem reads_no : Reads ['f', 'a', 'l', 's', 'e'] (.bool false) :=
  .intro fun _ _ _ _ => rfl

theorem isBlank_of_number {c : Char} (hc : c = '-' ∨ c.isDigit = true) : isBlank c = false := by
  rw [Bool.eq_false_iff]
  intro hblank
  rcases (isBlank_iff c).1 hblank with rfl | rfl | rfl | rfl <;> exact absurd hc (by decide)

/-- A text that starts with a digit or a minus sign is read as a number. -/
theorem readValue_number {c : Char} (hc : c = '-' ∨ c.isDigit = true) (n : Nat) (cs : List Char) :
    readValue (n + 1) (c :: cs) = readNumber (c :: cs) := by
  have hne : ∀ d : Char, ¬(d = '-' ∨ d.isDigit = true) → c ≠ d := fun d hd heq => hd (heq ▸ hc)
  rw [readValue, skipBlanks_cons (isBlank_of_number hc)]
  split
  · next heq => exact absurd (List.cons.inj heq).1 (hne _ (by decide))
  · next heq => exact absurd (List.cons.inj heq).1 (hne _ (by decide))
  · next heq => exact absurd (List.cons.inj heq).1 (hne _ (by decide))
  · next heq =>
    cases heq
    exact if_pos hc
  · next heq => cases heq

theorem reads_natural (n : Nat) : Reads (Nat.repr n).toList (.natural n) := by
  have hread := fun rest (hrest : Ends rest) => readNumber_natural n hrest
  obtain ⟨c, others, heq⟩ := List.exists_cons_of_ne_nil (Number.repr_ne_nil n)
  have hc : c.isDigit = true :=
    Number.isDigit_of_mem_repr (n := n) (by rw [heq]; exact List.mem_cons_self)
  rw [heq] at hread ⊢
  apply Reads.intro
  intro fuel rest _ hrest
  rw [readValue_number (.inr hc)]
  exact hread rest hrest

theorem reads_number {cs : List Char} {negative : Bool} {n : Nat} {k : Int}
    (h : Number.JsonNumber cs negative n k) : ∃ document, Reads cs document := by
  obtain ⟨document, hread⟩ := readNumber_append h
  obtain ⟨c, others, rfl, hc⟩ := h.first
  refine ⟨document, .intro fun fuel rest _ hrest => ?_⟩
  rw [readValue_number hc]
  exact hread rest hrest

theorem Body.reads {cs : List Char} (h : Body cs) :
    ∃ read : Option String, (∀ text, Spells cs text → read = some (String.ofList text)) ∧
      Reads ('"' :: (cs ++ ['"'])) (.str read) := by
  obtain ⟨read, hspells, hread⟩ := h.readString
  refine ⟨read, hspells, .intro fun fuel rest _ _ => ?_⟩
  rw [readValue_quote, List.append_assoc, List.singleton_append]
  simp [hread]

/-- A string is read as the characters that it denotes. -/
theorem reads_text {cs text : List Char} (h : Spells cs text) :
    Reads ('"' :: (cs ++ ['"'])) (.str (some (String.ofList text))) := by
  obtain ⟨read, hspells, hreads⟩ := h.body.reads
  rw [hspells text h] at hreads
  exact hreads

/-! ## Arrays -/

/-- A value starts neither with a blank nor with the end of an array. -/
theorem Value.first {cs : List Char} (h : Value cs) :
    ∃ c rest, cs = c :: rest ∧ isBlank c = false ∧ c ≠ ']' := by
  cases h with
  | number h =>
    obtain ⟨c, rest, rfl, hc⟩ := h.first
    refine ⟨c, rest, rfl, isBlank_of_number hc, ?_⟩
    rintro rfl
    exact absurd hc (by decide)
  | null | yes | no | text | emptyArr | arr | emptyObj | obj =>
    exact ⟨_, _, rfl, by decide, by decide⟩

theorem Items.first {cs : List Char} (h : Items cs) (tail : List Char) :
    ∃ c rest, skipBlanks (cs ++ tail) = c :: rest ∧ c ≠ ']' := by
  cases h with
  | last hbefore hvalue | cons hbefore hvalue =>
    obtain ⟨c, rest, rfl, hblank, hc⟩ := hvalue.first
    rw [List.append_assoc, skipBlanks_append hbefore, List.cons_append, List.cons_append,
      skipBlanks_cons hblank]
    exact ⟨c, _, rfl, hc⟩

theorem reads_emptyArr {gap : List Char} (hgap : Blank gap) :
    Reads ('[' :: (gap ++ [']'])) (.arr []) := by
  apply Reads.intro
  intro n rest _ _
  rw [readValue_bracket, List.append_assoc, List.singleton_append]
  simp [skipBlanks_append hgap, skipBlanks_cons (show isBlank ']' = false by decide)]

/-- An array is read if its items are. -/
theorem Items.reads_arr {inner : List Char} (h : Items inner) {documents : List Document}
    (hread : ∀ n rest, 2 * inner.length < n →
      readItems n (inner ++ ']' :: rest) = some (documents, rest)) :
    Reads ('[' :: (inner ++ [']'])) (.arr documents) := by
  apply Reads.intro
  intro n rest hn _
  obtain ⟨c, tail, hskip, hc⟩ := h.first (']' :: rest)
  have hitems := hread n rest (by simp at hn; omega)
  rw [readValue_bracket, List.append_assoc, List.singleton_append]
  simp only [hskip]
  split
  · next heq => exact absurd (List.cons.inj heq).1 hc
  · rw [hitems]
    rfl

variable {before item behind : List Char} {document : Document}

theorem readItems_last (hbefore : Blank before) (h : Reads item document)
    (hbehind : Blank behind) {n : Nat} (hn : 2 * item.length ≤ n) (rest : List Char) :
    readItems (n + 1) (before ++ (item ++ (behind ++ ']' :: rest))) = some ([document], rest) := by
  have hends : Ends (behind ++ ']' :: rest) := Ends.of_blank hbehind (by rintro _ ⟨⟩; simp)
  rw [readItems_succ, h n before _ hn hbefore hends]
  simp [skipBlanks_append hbehind, skipBlanks_cons (show isBlank ']' = false by decide)]

theorem readItems_cons (hbefore : Blank before) (h : Reads item document)
    (hbehind : Blank behind) {n : Nat} (hn : 2 * item.length ≤ n) (rest : List Char) :
    readItems (n + 1) (before ++ (item ++ (behind ++ ',' :: rest))) =
      (readItems n rest).map fun found => (document :: found.1, found.2) := by
  have hends : Ends (behind ++ ',' :: rest) := Ends.of_blank hbehind (by rintro _ ⟨⟩; simp)
  rw [readItems_succ, h n before _ hn hbefore hends]
  simp only [Option.bind_some, skipBlanks_append hbehind,
    skipBlanks_cons (show isBlank ',' = false by decide)]
  cases readItems n rest <;> rfl

/-! ## Objects -/

/-- A field is read as its value, under the name that its key denotes. -/
def FieldReads (field : List Char × List Char) (read : Option String × Document) : Prop :=
  (∀ text, Spells field.1 text → read.1 = some (String.ofList text)) ∧ Reads field.2 read.2

theorem Field.first {cs : List Char} {field : List Char × List Char} (h : Field cs field)
    (tail : List Char) : ∃ rest, skipBlanks (cs ++ tail) = '"' :: rest := by
  cases h with
  | mk hbefore =>
    rw [List.append_assoc, skipBlanks_append hbefore, List.cons_append,
      skipBlanks_cons (by decide)]
    exact ⟨_, rfl⟩

theorem Fields.first {cs : List Char} {fields : List (List Char × List Char)} (h : Fields cs fields)
    (tail : List Char) : ∃ rest, skipBlanks (cs ++ tail) = '"' :: rest := by
  cases h with
  | last hfield => exact hfield.first tail
  | cons hfield _ =>
    rw [List.append_assoc]
    exact hfield.first _

theorem reads_emptyObj {gap : List Char} (hgap : Blank gap) :
    Reads ('\x7b' :: (gap ++ ['\x7d'])) (.obj []) := by
  apply Reads.intro
  intro n rest _ _
  rw [readValue_brace, List.append_assoc, List.singleton_append]
  simp [skipBlanks_append hgap, skipBlanks_cons (show isBlank '\x7d' = false by decide)]

/-- An object is read if its fields are. -/
theorem Fields.reads_obj {inner : List Char} {fields : List (List Char × List Char)}
    (h : Fields inner fields) {read : List (Option String × Document)}
    (hread : ∀ n rest, 2 * inner.length < n →
      readFields n (inner ++ '\x7d' :: rest) = some (read, rest)) :
    Reads ('\x7b' :: (inner ++ ['\x7d'])) (.obj read) := by
  apply Reads.intro
  intro n rest hn _
  obtain ⟨tail, hskip⟩ := h.first ('\x7d' :: rest)
  have hfields := hread n rest (by simp at hn; omega)
  rw [readValue_brace, List.append_assoc, List.singleton_append]
  simp only [hskip, hfields]
  rfl

variable {key middle gap : List Char}

/-- A field is read with its value, and a comma behind it says that there are others. -/
theorem readFields_field (hbefore : Blank before) (hkey : Body key) (hmiddle : Blank middle)
    (hgap : Blank gap) (h : Reads item document) (hbehind : Blank behind) :
    ∃ read, FieldReads (key, item) read ∧ ∀ n c rest, 2 * item.length ≤ n → c = ',' ∨ c = '\x7d' →
      readFields (n + 1)
        (before ++ '"' :: (key ++ '"' :: (middle ++ ':' :: (gap ++ (item ++ (behind ++ c :: rest)))))) =
      if c = ',' then (readFields n rest).map fun found => (read :: found.1, found.2)
      else some ([read], rest) := by
  obtain ⟨name, hname, hread⟩ := hkey.readString
  refine ⟨(name, document), ⟨hname, h⟩, fun n c rest hn hc => ?_⟩
  have hends : Ends (behind ++ c :: rest) := by
    apply Ends.of_blank hbehind
    rintro _ ⟨⟩
    rcases hc with rfl | rfl <;> simp
  have hblank : isBlank c = false := by rcases hc with rfl | rfl <;> decide
  rw [readFields, skipBlanks_append hbefore, skipBlanks_cons (by decide)]
  simp only [hread, Option.bind_eq_bind, Option.bind_some, skipBlanks_append hmiddle,
    skipBlanks_cons (show isBlank ':' = false by decide), h n gap _ hn hgap hends,
    skipBlanks_append hbehind, skipBlanks_cons hblank]
  rcases hc with rfl | rfl
  · show (readFields n rest).bind (fun found => some ((name, document) :: found.1, found.2)) = _
    cases readFields n rest <;> rfl
  · rfl

mutual

/-- Every value is read. -/
theorem Value.reads : ∀ {cs : List Char}, Value cs → ∃ document, Reads cs document
  | _, .null => ⟨_, reads_null⟩
  | _, .yes => ⟨_, reads_yes⟩
  | _, .no => ⟨_, reads_no⟩
  | _, .number h => reads_number h
  | _, .text h => by
    obtain ⟨read, -, hreads⟩ := h.reads
    exact ⟨_, hreads⟩
  | _, .emptyArr hgap => ⟨_, reads_emptyArr hgap⟩
  | _, .arr h => by
    obtain ⟨documents, hread⟩ := h.reads
    exact ⟨_, h.reads_arr hread⟩
  | _, .emptyObj hgap => ⟨_, reads_emptyObj hgap⟩
  | _, .obj h => by
    obtain ⟨read, -, hread⟩ := h.reads
    exact ⟨_, h.reads_obj hread⟩

/-- The items of an array are read up to its end. -/
theorem Items.reads : ∀ {cs : List Char}, Items cs →
    ∃ documents, ∀ n rest, 2 * cs.length < n →
      readItems n (cs ++ ']' :: rest) = some (documents, rest)
  | _, .last hbefore h hbehind => by
    obtain ⟨document, hreads⟩ := h.reads
    refine ⟨[document], fun n rest hn => ?_⟩
    obtain ⟨m, rfl⟩ : ∃ m, n = m + 1 := ⟨n - 1, by omega⟩
    rw [List.append_assoc, List.append_assoc]
    exact readItems_last hbefore hreads hbehind (by simp at hn; omega) rest
  | _, .cons hbefore h hbehind hrest => by
    obtain ⟨document, hreads⟩ := h.reads
    obtain ⟨documents, hdocuments⟩ := hrest.reads
    refine ⟨document :: documents, fun n rest hn => ?_⟩
    obtain ⟨m, rfl⟩ : ∃ m, n = m + 1 := ⟨n - 1, by omega⟩
    rw [List.append_assoc, List.append_assoc, List.append_assoc, List.cons_append,
      readItems_cons hbefore hreads hbehind (by simp at hn; omega),
      hdocuments m rest (by simp at hn; omega)]
    rfl

/-- A field is read up to what stands behind it. -/
theorem Field.reads : ∀ {cs : List Char} {field : List Char × List Char}, Field cs field →
    ∃ read, FieldReads field read ∧ ∀ n c rest, 2 * cs.length ≤ n → c = ',' ∨ c = '\x7d' →
      readFields (n + 1) (cs ++ c :: rest) =
        if c = ',' then (readFields n rest).map fun found => (read :: found.1, found.2)
        else some ([read], rest)
  | _, _, .mk hbefore hkey hmiddle hgap h hbehind => by
    obtain ⟨document, hreads⟩ := h.reads
    obtain ⟨read, hfield, hread⟩ := readFields_field hbefore hkey hmiddle hgap hreads hbehind
    refine ⟨read, hfield, fun n c rest hn hc => ?_⟩
    have h := hread n c rest (by simp at hn; omega) hc
    simpa using h

/-- The fields of an object are read up to its end. -/
theorem Fields.reads : ∀ {cs : List Char} {fields : List (List Char × List Char)},
    Fields cs fields →
    ∃ read, List.Forall₂ FieldReads fields read ∧ ∀ n rest, 2 * cs.length < n →
      readFields n (cs ++ '\x7d' :: rest) = some (read, rest)
  | _, _, .last h => by
    obtain ⟨read, hfield, hread⟩ := h.reads
    refine ⟨[read], .cons hfield .nil, fun n rest hn => ?_⟩
    obtain ⟨m, rfl⟩ : ∃ m, n = m + 1 := ⟨n - 1, by omega⟩
    rw [hread m '\x7d' rest (by omega) (.inr rfl), if_neg (by decide)]
  | _, _, .cons h hrest => by
    obtain ⟨read, hfield, hread⟩ := h.reads
    obtain ⟨others, hothers, hreads⟩ := hrest.reads
    refine ⟨read :: others, .cons hfield hothers, fun n rest hn => ?_⟩
    obtain ⟨m, rfl⟩ : ∃ m, n = m + 1 := ⟨n - 1, by omega⟩
    rw [List.append_assoc, List.cons_append, hread m ',' _ (by simp at hn; omega) (.inl rfl),
      if_pos rfl,
      hreads m rest (by simp at hn; omega)]
    rfl

end

/-- The fields that were read have the names that their keys denote. -/
theorem FieldReads.named {fields : List (List Char × List Char)}
    {found : List (Option String × Document)} {entries : List (String × List Char)}
    (hfound : List.Forall₂ FieldReads fields found)
    (hnames : List.Forall₂ (fun field entry => Spells field.1 entry.1.toList ∧ field.2 = entry.2)
      fields entries) :
    ∃ read : List (String × Document), found = read.map (fun entry => (some entry.1, entry.2)) ∧
      List.Forall₂ (fun entry field => entry.1 = field.1 ∧ Reads entry.2 field.2) entries read := by
  induction hnames generalizing found with
  | nil =>
    cases hfound
    exact ⟨[], rfl, .nil⟩
  | @cons field entry _ _ hname _ ih =>
    cases hfound with
    | @cons _ first _ others hfirst hothers =>
      obtain ⟨read, hsame, hentries⟩ := ih hothers
      obtain ⟨hspells, hvalue⟩ := hname
      have hkey := hfirst.1 _ hspells
      rw [String.ofList_toList] at hkey
      refine ⟨(entry.1, first.2) :: read, ?_, .cons ⟨rfl, hvalue ▸ hfirst.2⟩ hentries⟩
      rw [hsame, List.map_cons]
      exact congrArg (· :: _) (Prod.ext hkey rfl)

/-- An object is read as its values, under the names of its fields. -/
theorem Object.reads {cs : List Char} {entries : List (String × List Char)}
    (h : Object cs entries) :
    ∃ read : List (String × Document), Reads cs (.obj (read.map fun entry => (some entry.1, entry.2))) ∧
      List.Forall₂ (fun entry field => entry.1 = field.1 ∧ Reads entry.2 field.2) entries read := by
  cases h with
  | empty hgap => exact ⟨[], reads_emptyObj hgap, .nil⟩
  | fields h hnames =>
    obtain ⟨found, hfound, hread⟩ := h.reads
    obtain ⟨read, rfl, hentries⟩ := FieldReads.named hfound hnames
    exact ⟨read, h.reads_obj hread, hentries⟩

end ScriptLab.Json
