import ScriptLab.Proofs.Number.Notation
import ScriptLab.Proofs.Number.Sign
import ScriptLab.Proofs.Program.Cutting

/-!
# Exact texts of numbers

A finite double is given back by each of its two texts. The display text is a sign and one token of the
language, the JSON text is a JSON number, and no two doubles share a text, except for the two zeros.
-/

namespace ScriptLab

namespace Program

variable {dialect : Dialect}

/-- A text that is a token by itself, and no gap at its start, has just this token. -/
theorem Spelled.tokens {chars : List Char} {kind : TokenKind} (h : Spelled dialect chars kind)
    (hstands : Stands chars) :
    tokens dialect (String.ofList chars) =
      .ok [⟨kind, .start, false⟩, ⟨.done, .behind chars, false⟩] := by
  have hcut : Cut dialect [] [⟨[], chars, kind⟩] :=
    .cons .nil (by simpa [joined] using hstands) h.longest .nil
  exact (hcut.sound _ List.mem_cons_self).alone

theorem spelled_literal {digits : List Char} {n : Nat} {k : Int} (h : Number.Literal digits n k) :
    Spelled dialect digits (.number (Number.ofDecimal false n k)) := by
  cases h with
  | whole hne hd =>
      have hspelled : Spelled dialect digits _ := .whole hne hd
      rwa [Number.ofPlaces, List.append_nil] at hspelled
  | point hne hd hne' hd' => exact .point hne hd hne' hd'

theorem stands_literal {digits : List Char} {n : Nat} {k : Int} (h : Number.Literal digits n k)
    (rest : List Char) : Stands (digits ++ rest) := by
  obtain ⟨c, cs, rfl, hc⟩ := h.first
  have hslash : c ≠ '/' := by
    rintro rfl
    cases hc
  refine ⟨?_, fun hline => ?_, fun hblock => ?_⟩
  · rintro _ ⟨⟩
    exact isBlank_of_isDigit hc
  · exact hslash (List.cons_prefix_cons.1 hline).1.symm
  · exact hslash (List.cons_prefix_cons.1 hblock).1.symm

end Program

namespace Number

open Program (Dialect tokens)

/-- The same double, with one zero for both. -/
def mergeZeros (x : Float) : Float :=
  match form x with
  | .finite _ 0 _ => 0
  | _ => x

variable {x : Float} {negative : Bool} {m : Nat} {e : Int}

theorem mergeZeros_eq (h : form x = .finite negative m e) :
    mergeZeros x = double (negative && m != 0) m e := by
  rw [mergeZeros, h]
  cases m with
  | zero =>
      have hc := canonical_of_form h
      have hexponent : e = -1074 := hc.normal.resolve_left (by decide)
      have hsign : (negative && 0 != 0) = false := Bool.and_false negative
      rw [hexponent, hsign]
      rfl
  | succ m =>
      have hsign : (negative && m + 1 != 0) = negative := Bool.and_true negative
      rw [hsign]
      exact eq_double h

theorem abs_eq_double (h : form x = .finite negative m e) : x.abs = double false m e := by
  rw [eq_double h]
  exact abs_double (canonical_of_form h) negative

/-! ## Texts read back -/

theorem read?_text (h : form x = .finite negative m e) : read? (text x) = some (mergeZeros x) := by
  obtain ⟨digits, n, k, htext, hlit, hvalue⟩ := text_literal h
  have hread := read?_scaled (negative && m != 0) hlit .none
  rw [List.append_nil, add_zero, hvalue, ← htext, String.ofList_toList] at hread
  rw [hread, mergeZeros_eq h]

theorem read?_json (h : form x = .finite negative m e) :
    read? (Json.ofNumber x).compact = some (mergeZeros x) := by
  obtain ⟨n, k, hnumber, hvalue⟩ := json_number h
  have hread := hnumber.read
  rw [String.ofList_toList, hvalue] at hread
  rw [hread, mergeZeros_eq h]

/-- The texts of a finite double are exact. Its display text is a sign, if it is negative and not zero,
and one number token of either dialect, which is its magnitude. Its JSON text is a JSON number that is
read as the double, and as zero for both zeros. No other double has either of the texts. -/
theorem texts_exact (h : form x = .finite negative m e) :
    (∃ digits, (text x).toList = (if negative && m != 0 then ['-'] else []) ++ digits ∧
      ∀ dialect : Dialect, tokens dialect (String.ofList digits) =
        .ok [⟨.number x.abs, .start, false⟩, ⟨.done, .behind digits, false⟩]) ∧
    (∃ n k, JsonNumber (Json.ofNumber x).compact.toList (negative && m != 0) n k ∧
      ofDecimal (negative && m != 0) n k = mergeZeros x) ∧
    ∀ y negative' m' e', form y = .finite negative' m' e' →
      text x = text y ∨ (Json.ofNumber x).compact = (Json.ofNumber y).compact →
        mergeZeros x = mergeZeros y := by
  refine ⟨?_, ?_, fun y negative' m' e' h' hsame => ?_⟩
  · obtain ⟨digits, n, k, htext, hlit, hvalue⟩ := text_literal h
    refine ⟨digits, htext, fun dialect => ?_⟩
    have hstands := Program.stands_literal hlit []
    rw [List.append_nil] at hstands
    rw [(Program.spelled_literal hlit).tokens hstands, hvalue, abs_eq_double h]
  · obtain ⟨n, k, hnumber, hvalue⟩ := json_number h
    exact ⟨n, k, hnumber, by rw [hvalue, mergeZeros_eq h]⟩
  · rcases hsame with hsame | hsame
    · have hread := read?_text h
      rw [hsame, read?_text h'] at hread
      exact (Option.some.inj hread).symm
    · have hread := read?_json h
      rw [hsame, read?_json h'] at hread
      exact (Option.some.inj hread).symm

theorem texts_exact_negative_tenth :
    form (-0.1) = .finite true 7205759403792794 (-56) ∧
      (∃ digits, (text (-0.1)).toList = '-' :: digits ∧
        ∀ dialect : Dialect, tokens dialect (String.ofList digits) =
          .ok [⟨.number (Float.abs (-0.1)), .start, false⟩, ⟨.done, .behind digits, false⟩]) ∧
      ∃ n k, JsonNumber (Json.ofNumber (-0.1)).compact.toList true n k ∧
        ofDecimal true n k = mergeZeros (-0.1) := by
  have hform : form (-0.1) = .finite true 7205759403792794 (-56) := by decide +kernel
  obtain ⟨htext, hjson, -⟩ := texts_exact hform
  exact ⟨hform, htext, hjson⟩

/-- Large numbers have an exponent in their JSON text only. -/
example : text 1.5e22 = "15000000000000000000000" ∧ (Json.ofNumber 1.5e22).compact = "1.5e+22" := by
  decide +kernel

end Number

end ScriptLab
