import ScriptLab.Proofs.Host.Releases
import ScriptLab.Proofs.Machine.Faults

/-!
# Failures of executions

What an execution reports is a fault of its run or something that has no label. A fault of a run is
never labelled as one of the text: texts are checked when they are parsed.
-/

namespace ScriptLab.Host

open Machine
open Program

/-- The tables of the releases keep the faults of texts apart from those of runs. -/
theorem Release.label_ne_syntaxError (release : Release) {kind : FaultKind}
    (h : kind ≠ .malformed) : release.label kind ≠ .syntaxError := by
  cases kind with
  | malformed => exact absurd rfl h
  | type | runtime | range | user => cases release <;> decide

namespace Runner

/-- A failure of an execution is the fault of its run, or one without a label. -/
theorem failure_of_finish {r : Runner} {interruption : Option Interruption} {run : Run String}
    {failure : Failure} (h : (r.finish interruption run).result = .error failure) :
    (∃ fault, run.ending = .failed fault ∧ failure = .fault r.release fault) ∨
      r.classify failure = none := by
  unfold finish at h
  cases hending : run.ending with
  | failed fault =>
      rw [hending] at h
      cases h
      exact .inl ⟨fault, rfl, rfl⟩
  | finished last =>
      rw [hending] at h
      cases last with
      | none => cases h
      | some v =>
          dsimp only at h
          unfold deliver at h
          dsimp only at h
          split at h <;> cases h
          exact .inr rfl
  | aborted =>
      rw [hending] at h
      cases h
  | crashed | exhausted =>
      rw [hending] at h
      cases h
      exact .inr rfl

theorem classify_finish {r : Runner} {interruption : Option Interruption} {run : Run String}
    (hrun : ∀ fault, run.ending = .failed fault → fault.kind ≠ .malformed) {failure : Failure}
    (h : (r.finish interruption run).result = .error failure) :
    r.classify failure ≠ some .syntaxError := by
  rcases failure_of_finish h with ⟨fault, hfault, rfl⟩ | hnone
  · rw [classify_fault]
    exact fun heq => r.release.label_ne_syntaxError (hrun fault hfault) (Option.some.inj heq)
  · rw [hnone]
    nofun

/-- An execution of a tree that has been parsed never fails as a malformed text does. -/
theorem classify_exec {r : Runner} {release : Release} {dialect : Dialect} {code : String}
    {program : List Stmt} (hparse : Program.parse dialect code = .ok program)
    {interruption : Option Interruption} {failure : Failure}
    (h : (r.exec ⟨release, program⟩ interruption).result = .error failure) :
    r.classify failure ≠ some .syntaxError := by
  unfold exec at h
  split at h
  · cases h
    nofun
  split at h
  · cases h
    nofun
  · exact classify_finish (fun fault hfault =>
      ((Interpreter.Holds.create r.limits .empty).arises hparse interruption _ hfault).kind) h

end Runner

/-- Failures of runs are classified and located. Where a parsed program is run on an interpreter without
constants, whatever that has run before, a fault is one of types, of the run, of a range or of the user,
and stands at a statement or an expression of the program; assigning to what is no place never comes up,
and no jump leaves a statement. So no execution of the program, on an interpreter that is kept or on a
new one, is ever labelled as malformed. -/
theorem failures_located {i : Interpreter} {store : Store} (hstore : i.Holds store)
    {dialect : Dialect} {code : String} {program : List Stmt}
    (hparse : Program.parse dialect code = .ok program) :
    (∀ (ω : Type) (interruption : Option Interruption) (record : Store → Value → ω) (fault : Fault),
      (i.run interruption record store program).ending = .failed fault →
        fault.kind ∈ [.type, .runtime, .range, .user] ∧ fault.cause ≠ .notAPlace ∧
        ∃ x ∈ program, ∃ c, Occurs c (.stmt x) ∧ fault.pos = c.pos) ∧
    (∀ (ω : Type) (s : Setting ω) (n : Nat) (x : Stmt) (env : Env) (calls : Nat) (p q : Progress ω)
      (flow : Flow), runWithin s n x env calls p ≠ .error (.jump flow) q) ∧
    ∀ (r : Runner) (interruption : Option Interruption) (failure : Failure),
      ((r.finish interruption (i.run interruption Store.output store program)).result =
          .error failure → r.classify failure ≠ some .syntaxError) ∧
      ∀ release, (r.exec ⟨release, program⟩ interruption).result = .error failure →
        r.classify failure ≠ some .syntaxError := by
  refine ⟨fun ω interruption record fault h => ?_, fun _ s n x env calls p q flow =>
    runWithin_ne_jump s n x env calls p q flow, fun r interruption failure => ⟨?_, ?_⟩⟩
  · obtain ⟨hkind, c, ⟨x, hx, hoccurs⟩, hpos⟩ := hstore.arises hparse interruption record h
    refine ⟨?_, fun hcause => hkind (congrArg Cause.kind hcause), x, hx, c, hoccurs, hpos⟩
    cases hk : fault.kind with
    | malformed => exact absurd hk hkind
    | type | runtime | range | user => decide
  · exact Runner.classify_finish fun fault hfault =>
      (hstore.arises hparse interruption Store.output hfault).kind
  · exact fun release => Runner.classify_exec hparse

/-- A function that writes to an entry of what it is given, called with what has no entries. -/
def misused : List Stmt :=
  [.define ⟨1, 1⟩ "f" false (.fn ⟨1, 9⟩ ["x"]
      [.assign ⟨1, 16⟩ (.prop ⟨1, 16⟩ (.ident ⟨1, 16⟩ "x") "y") .set (.null ⟨1, 22⟩)]),
    .eval ⟨2, 1⟩ (.call ⟨2, 1⟩ (.ident ⟨2, 1⟩ "f") [.null ⟨2, 3⟩])]

theorem failures_located_misused :
    let r : Runner := ⟨.v0_16_0, {}, true⟩
    let made := Interpreter.create {} [] {}
    let used := made.1.run none Store.output made.2 Interpreter.leftAtOnce
    let run := made.1.run none Store.output used.store misused
    let fault : Fault := ⟨.mismatch .obj .null, ⟨1, 16⟩⟩
    Program.parse .modern "let f = @(x) { x.y = null }\nf(null)" = .ok misused ∧
      (r.finish none run).result = .error (.fault r.release fault) ∧
      run.ending = .failed fault ∧ fault.kind ∈ [.type, .runtime, .range, .user] ∧
      (∃ x ∈ misused, ∃ c, Occurs c (.stmt x) ∧ fault.pos = c.pos) ∧
      r.classify (.fault r.release fault) ≠ some .syntaxError := by
  intro r made used run fault
  have hholds := (Interpreter.Holds.create {} .empty).run none Store.output
    Interpreter.parse_leftAtOnce
  have hparse : Program.parse .modern "let f = @(x) { x.y = null }\nf(null)" = .ok misused := by
    decide +kernel
  have hresult : (r.finish none run).result = .error (.fault r.release fault) := by decide +kernel
  have hending : run.ending = .failed fault := by
    rcases Runner.failure_of_finish hresult with ⟨found, hfound, heq⟩ | hnone
    · cases heq
      exact hfound
    · cases hnone
  obtain ⟨hlocated, -, hrunner⟩ := failures_located hholds hparse
  obtain ⟨hkind, -, hpart⟩ := hlocated String none Store.output fault hending
  exact ⟨hparse, hresult, hending, hkind, hpart, (hrunner r none _).1 hresult⟩

end ScriptLab.Host
