import ScriptLab.Proofs.Json.Reading

/-!
# What is written is JSON

A string in quotes denotes its characters, and the pretty text of an object is an object with its keys,
if the texts of its values are JSON.
-/

namespace ScriptLab.Json

/-! ## Strings -/

theorem hexDigit_digit (n : Nat) : HexDigit (hexDigit n) (n % 16) :=
  ⟨Nat.mod_lt n (by decide), .inl rfl⟩

/-- What stands for a character in a string denotes the character. -/
theorem spells_escape (c : Char) {rest text : List Char} (h : Spells rest text) :
    Spells (escape c ++ rest) (c :: text) := by
  unfold escape
  split
  · exact .short (by decide) h
  · exact .short (by decide) h
  · exact .short (by decide) h
  · exact .short (by decide) h
  · exact .short (by decide) h
  · next hquote hslash _ _ _ =>
    by_cases hback : c.toNat = 8
    · rw [if_pos hback]
      have hc : c = '\x08' := Char.toNat_inj.1 hback
      subst hc
      exact .short (by decide) h
    · rw [if_neg hback]
      by_cases hfeed : c.toNat = 12
      · rw [if_pos hfeed]
        have hc : c = '\x0c' := Char.toNat_inj.1 hfeed
        subst hc
        exact .short (by decide) h
      · rw [if_neg hfeed]
        by_cases hcontrol : c.toNat < 0x20
        · rw [if_pos hcontrol]
          have hdigits : Hex ['0', '0', hexDigit (c.toNat / 16), hexDigit c.toNat] c.toNat := by
            have hzero : HexDigit '0' 0 := ⟨by decide, .inl rfl⟩
            have hfour := Hex.four hzero hzero (hexDigit_digit (c.toNat / 16))
              (hexDigit_digit c.toNat)
            have hvalue : 4096 * 0 + 256 * 0 + 16 * (c.toNat / 16 % 16) + c.toNat % 16 = c.toNat := by
              omega
            rwa [hvalue] at hfour
          exact .unit hdigits h
        · rw [if_neg hcontrol]
          exact .plain ⟨hquote, hslash, by omega⟩ h

/-- What stands between the quotes of a string that is written. -/
def escaped (s : String) : List Char :=
  s.toList.flatMap escape

theorem spells_escaped (s : String) : Spells (escaped s) s.toList := by
  unfold escaped
  induction s.toList with
  | nil => exact .nil
  | cons c rest ih =>
    rw [List.flatMap_cons]
    exact spells_escape c ih

theorem toList_pushAll (text : String) (cs : List Char) :
    (cs.foldl String.push text).toList = text.toList ++ cs := by
  induction cs generalizing text with
  | nil => simp
  | cons c rest ih => simp [ih]

theorem toList_quote (s : String) : (quote s).toList = '"' :: (escaped s ++ ['"']) := by
  have hfold : ∀ (cs : List Char) (text : String),
      (cs.foldl (fun text c => (escape c).foldl String.push text) text).toList =
        text.toList ++ cs.flatMap escape := by
    intro cs
    induction cs with
    | nil => simp
    | cons c rest ih =>
      intro text
      rw [List.foldl_cons, ih, toList_pushAll, List.flatMap_cons, List.append_assoc]
  unfold quote escaped
  rw [String.toList_append, String.foldl_eq_foldl_toList, hfold]
  rfl

/-! ## Objects -/

theorem Object.value {cs : List Char} {entries : List (String × List Char)} (h : Object cs entries) :
    Value cs := by
  cases h with
  | empty hgap => exact .emptyObj hgap
  | fields h _ => exact .obj h

section Atoms

variable (level : Nat)

theorem toList_pretty_str (s : String) :
    (prettyAt level (.str s)).toList = '"' :: (escaped s ++ ['"']) :=
  toList_quote s

theorem value_str (s : String) : Value (prettyAt level (.str s)).toList := by
  rw [toList_pretty_str]
  exact .text (spells_escaped s).body

end Atoms

end ScriptLab.Json
