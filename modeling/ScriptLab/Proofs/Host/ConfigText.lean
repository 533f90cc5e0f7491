import ScriptLab.Proofs.Host.Saving
import ScriptLab.Proofs.Json.Fields
import ScriptLab.Proofs.Json.Writing

/-!
# Texts of configurations

A text may list any of the settings, in any order and beside others. It is read as a configuration that
has the listed settings and otherwise the defaults. The text that a configuration is kept as lists all
of them.
-/

namespace ScriptLab.Host

open Files (Tree)
open Json (Blank Document Gives Object Reads Spells)
open Machine (Limits)

/-! ## Texts of settings -/

/-- The text of a natural number: its decimal digits. -/
def NaturalText (n : Nat) (cs : List Char) : Prop :=
  cs = (Nat.repr n).toList

/-- The text of a string, with any escapes. -/
def StringText (s : String) (cs : List Char) : Prop :=
  ∃ body, Spells body s.toList ∧ cs = '"' :: (body ++ ['"'])

/-- The text of a truth value. -/
def TruthText (b : Bool) (cs : List Char) : Prop :=
  cs = if b then ['t', 'r', 'u', 'e'] else ['f', 'a', 'l', 's', 'e']

/-- The text of a value that may be absent. -/
def OptionalText {α : Type} (kind : α → List Char → Prop) : Option α → List Char → Prop
  | none, cs => cs = ['n', 'u', 'l', 'l']
  | some a, cs => kind a cs

theorem NaturalText.reads {n : Nat} {cs : List Char} (h : NaturalText n cs)
    (hn : n < UInt64.size) : ∃ document, Reads cs document ∧ document.word? = some n := by
  subst h
  exact ⟨.natural n, Json.reads_natural n, if_pos hn⟩

theorem StringText.reads {s : String} {cs : List Char} (h : StringText s cs) :
    ∃ document, Reads cs document ∧ document.text? = some s := by
  obtain ⟨body, hspells, rfl⟩ := h
  exact ⟨_, Json.reads_text hspells, by simp [Document.text?]⟩

theorem TruthText.reads {b : Bool} {cs : List Char} (h : TruthText b cs) :
    ∃ document, Reads cs document ∧ document.bool? = some b := by
  subst h
  cases b with
  | false => exact ⟨_, Json.reads_no, rfl⟩
  | true => exact ⟨_, Json.reads_yes, rfl⟩

/-- A text of a value that may be absent is read as it, if no text of a value is read as `null`. -/
theorem OptionalText.reads {α : Type} {kind : α → List Char → Prop} {readAs : Document → Option α}
    {value : Option α} {cs : List Char} (h : OptionalText kind value cs)
    (hkind : ∀ a ∈ value, ∀ cs, kind a cs → ∃ document, Reads cs document ∧ readAs document = some a)
    (hnull : readAs .null = none) :
    ∃ document, Reads cs document ∧ document.optional? readAs = some value := by
  cases value with
  | none =>
    subst h
    exact ⟨.null, Json.reads_null, rfl⟩
  | some a =>
    obtain ⟨document, hreads, hvalue⟩ := hkind a rfl cs h
    refine ⟨document, hreads, ?_⟩
    cases document with
    | null => simp [hnull] at hvalue
    | bool | natural | number | str | arr | obj => simp [Document.optional?, hvalue]

/-! ## Texts that list settings -/

/-- Which limits are listed. -/
structure LimitsChoice where
  maxSteps : Bool
  maxCalls : Bool
  yieldInterval : Bool

/-- Which settings are listed, and which limits if the limits are. -/
structure Choice where
  defaultVersion : Bool
  limits : Option LimitsChoice
  debug : Bool

/-- The limits that have listed values, and otherwise their defaults. -/
def LimitsChoice.apply (choice : LimitsChoice) (limits : Limits) : Limits where
  maxSteps := if choice.maxSteps then limits.maxSteps else ({} : Limits).maxSteps
  maxCalls := if choice.maxCalls then limits.maxCalls else ({} : Limits).maxCalls
  yieldInterval := if choice.yieldInterval then limits.yieldInterval else ({} : Limits).yieldInterval

/-- The configuration that has listed settings, and otherwise the defaults. -/
def Choice.apply (choice : Choice) (config : Config) : Config where
  defaultVersion :=
    if choice.defaultVersion then config.defaultVersion else ({} : Config).defaultVersion
  limits :=
    match choice.limits with
    | some limits => limits.apply config.limits
    | none => ({} : Config).limits
  debug := if choice.debug then config.debug else ({} : Config).debug

/-- A text that lists some limits. -/
def LimitsText (choice : LimitsChoice) (limits : Limits) (cs : List Char) : Prop :=
  ∃ entries, Object cs entries ∧
    Gives entries "max_step" choice.maxSteps (OptionalText NaturalText limits.maxSteps) ∧
    Gives entries "max_call_depth" choice.maxCalls (NaturalText limits.maxCalls) ∧
    Gives entries "yield_interval" choice.yieldInterval (NaturalText limits.yieldInterval)

/-- The numbers of a configuration have 64 bits. -/
def Config.Words (config : Config) : Prop :=
  (∀ n ∈ config.limits.maxSteps, n < UInt64.size) ∧ config.limits.maxCalls < UInt64.size ∧
    config.limits.yieldInterval < UInt64.size

/-- The names of the limits in a text. -/
abbrev limitNames : List String :=
  ["max_step", "max_call_depth", "yield_interval"]

/-- A text that lists limits is read as them. -/
theorem LimitsText.reads {choice : LimitsChoice} {config : Config} {cs : List Char}
    (h : LimitsText choice config.limits cs) (hwords : config.Words) :
    ∃ document, Reads cs document ∧ readLimits document = some (choice.apply config.limits) := by
  obtain ⟨entries, hobject, hsteps, hcalls, hyield⟩ := h
  obtain ⟨hstepsWord, hcallsWord, hyieldWord⟩ := hwords
  obtain ⟨read, hreads, hentries⟩ := hobject.reads
  have hfields := Json.fields?_obj limitNames read (by
    simp [hsteps.length_le hentries, hcalls.length_le hentries, hyield.length_le hentries])
  have hsteps' := hsteps.field? hentries limitNames (by simp)
    (fun cs hcs => hcs.reads (fun n hn cs h => h.reads (hstepsWord n hn)) rfl) ({} : Limits).maxSteps
  have hcalls' := hcalls.field? hentries limitNames (by simp)
    (fun cs hcs => hcs.reads hcallsWord) ({} : Limits).maxCalls
  have hyield' := hyield.field? hentries limitNames (by simp)
    (fun cs hcs => hcs.reads hyieldWord) ({} : Limits).yieldInterval
  refine ⟨_, hreads, ?_⟩
  unfold readLimits
  rw [hfields]
  simp only [Option.bind_eq_bind, Option.bind_some, hsteps', hcalls', hyield']
  rfl

namespace Config

section Texts

variable (level : Nat)

end Texts

end Config

end ScriptLab.Host
