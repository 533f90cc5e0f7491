import ScriptLab.Proofs.Host.Disposal
import ScriptLab.Proofs.Machine.Interruption
import ScriptLab.Proofs.Program.Modern

/-!
# Releases that agree

The releases differ in their dialects and in the names they give to things. A legacy program is a
modern one as soon as its marks are replaced, and a tree does the same under the runners of both
releases, wherever they are disposed.
-/

namespace ScriptLab.Host

open Machine
open Program (Fault FaultKind Stmt Token acceptTokens firstTooDeep)

/-! ## Labels -/

/-- The label of a kind of fault of a release. -/
def Release.label (release : Release) (kind : FaultKind) : Label :=
  .ofName release.labels (release.faultName kind)

/-- The tables of the releases give the same label to a kind of fault, under whichever name. -/
theorem Release.label_eq (release other : Release) (kind : FaultKind) :
    release.label kind = other.label kind := by
  cases release <;> cases other <;> cases kind <;> decide

theorem Runner.classify_fault (r : Runner) (fault : Fault) :
    r.classify (.fault r.release fault) = some (r.release.label fault.kind) := by
  simp only [classify, if_true, Release.label]

/-! ## Executions that are only disposed -/

/-- What a runner of a release reports of an ending. -/
def Release.resultOf (release : Release) : Ending → Except Failure Outcome
  | .finished _ => .ok .completed
  | .aborted => .ok .aborted
  | .failed fault => .error (.fault release fault)
  | .crashed message => .error (.crashed release message)
  | .exhausted => .error (.unfinished release)

namespace Runner

theorem result_finish_none (r : Runner) (run : Run String) :
    (r.finish none run).result = r.release.resultOf run.ending := by
  unfold finish Release.resultOf
  cases run.ending with
  | finished last => cases last <;> rfl
  | _ => rfl

theorem texts_finish_none (r other : Runner) (run : Run String) :
    (r.finish none run).texts = (other.finish none run).texts := by
  unfold finish
  cases run.ending with
  | finished last => cases last <;> rfl
  | _ => rfl

/-- A runner that is disposed at a point, if at any, does not crash. -/
theorem ending_of_disposal (r : Runner) (program : List Stmt) (cut : Option Cue)
    (message : Option String) :
    (r.run program (cut.map fun cue => ⟨cue, .abort⟩)).ending ≠ .crashed message := by
  intro h
  obtain ⟨i, hi, heffect⟩ := Interpreter.effect_of_crashed rfl h
  cases cut with
  | none => cases hi
  | some cue =>
      cases hi
      cases heffect

theorem finish_disposal (r : Runner) (cut : Option Cue) (run : Run String) :
    (r.finish (cut.map fun cue => ⟨cue, .abort⟩) run).texts = (r.finish none run).texts ∧
      (r.finish (cut.map fun cue => ⟨cue, .abort⟩) run).result = (r.finish none run).result := by
  cases cut with
  | none => exact ⟨rfl, rfl⟩
  | some cue => exact r.finish_abort cue run

/-- A tree that is not too deep comes to an end where there is a limit on steps. -/
theorem maxSteps_of_exhausted (r : Runner) {program : List Stmt}
    {interruption : Option Interruption} (hdepth : firstTooDeep program = none)
    (h : (r.run program interruption).ending = .exhausted) : r.limits.maxSteps = none :=
  Interpreter.maxSteps_of_exhausted (i := (Interpreter.create {} [] r.limits).1) rfl
    (Interpreter.fits_create [] r.limits) hdepth h

end Runner

/-! ## Agreement -/

/-- The releases agree. What the legacy dialect reads, the modern one reads as the same tree once the
marks of definitions and assignments are replaced. A tree that is tagged with a release and run by a
runner of it gives the same texts for all releases, wherever the runner is disposed. It ends with the
same outcome, or with a fault that has the same label and, but for its heading, the same message; or
it does not come to an end, for which it must be too deep to be parsed or lack a limit on steps. -/
theorem releases_agree :
    (∀ (tokens : List Token) (program : List Stmt), acceptTokens .legacy tokens = .ok program →
      acceptTokens .modern (tokens.map Token.modern) = .ok program) ∧
    ∀ (limits : Limits) (program : List Stmt) (cut : Option Cue),
      let runner (release : Release) : Runner := { release, limits }
      let execution (release : Release) :=
        (runner release).exec ⟨release, program⟩ (cut.map fun cue => ⟨cue, .abort⟩)
      (∃ texts, ∀ release, (execution release).texts = texts) ∧
      ((∃ outcome, ∀ release, (execution release).result = .ok outcome) ∨
       (∃ fault label, ∀ release,
          let failure := Failure.fault release fault
          (execution release).result = .error failure ∧
          (runner release).classify failure = some label ∧
          failure.message = release.faultHeading fault.kind ++ ": " ++ fault.message) ∨
       ((∀ release, (execution release).result = .error (.unfinished release)) ∧
          (firstTooDeep program = none → limits.maxSteps = none))) := by
  apply And.intro
  · intro tokens program
    exact Program.acceptTokens_modern
  intro limits program cut runner execution
  -- The run behind an execution knows nothing of the release.
  let run := (runner .v0_16_0).run program (cut.map fun cue => ⟨cue, .abort⟩)
  have hexecution : ∀ release, execution release =
      (runner release).finish (cut.map fun cue => ⟨cue, .abort⟩) run :=
    fun release => Runner.exec_fresh release limits program _
  have htexts : ∀ release, (execution release).texts = ((runner release).finish none run).texts := by
    intro release
    rw [hexecution]
    exact ((runner release).finish_disposal cut run).1
  have hresult : ∀ release, (execution release).result = release.resultOf run.ending := by
    intro release
    rw [hexecution, ((runner release).finish_disposal cut run).2]
    exact (runner release).result_finish_none run
  constructor
  · use ((runner .v0_16_0).finish none run).texts
    intro release
    rw [htexts]
    exact (runner release).texts_finish_none _ run
  cases hend : run.ending with
  | finished last =>
      left
      use .completed
      intro release
      rw [hresult, hend]
      rfl
  | aborted =>
      left
      use .aborted
      intro release
      rw [hresult, hend]
      rfl
  | failed fault =>
      right
      left
      use fault, Release.label .v0_16_0 fault.kind
      intro release
      rw [hresult, hend, Release.label_eq .v0_16_0 release]
      exact ⟨rfl, (runner release).classify_fault fault, rfl⟩
  | crashed message =>
      exact absurd hend ((runner .v0_16_0).ending_of_disposal program cut message)
  | exhausted =>
      right
      right
      constructor
      · intro release
        rw [hresult, hend]
        rfl
      · intro hdepth
        exact (runner .v0_16_0).maxSteps_of_exhausted hdepth hend

theorem releases_agree_reassigned :
    let tokens : List Token :=
      [⟨.symbol .dollar, ⟨1, 1⟩, false⟩, ⟨.name "x", ⟨1, 2⟩, false⟩,
       ⟨.symbol .leftArrow, ⟨1, 4⟩, false⟩, ⟨.keyword .litTrue, ⟨1, 7⟩, false⟩,
       ⟨.name "x", ⟨2, 1⟩, true⟩, ⟨.symbol .leftArrow, ⟨2, 3⟩, false⟩,
       ⟨.keyword .litFalse, ⟨2, 6⟩, false⟩, ⟨.symbol .out, ⟨3, 1⟩, true⟩,
       ⟨.name "x", ⟨3, 4⟩, false⟩, ⟨.done, ⟨3, 5⟩, false⟩]
    let program : List Stmt :=
      [.define ⟨1, 1⟩ "x" true (.bool ⟨1, 7⟩ true),
       .assign ⟨2, 1⟩ (.ident ⟨2, 1⟩ "x") .set (.bool ⟨2, 6⟩ false),
       .out ⟨3, 1⟩ (.ident ⟨3, 4⟩ "x")]
    Program.tokens .legacy "$x <- yes\nx <- no\n<: x" = .ok tokens ∧
      acceptTokens .legacy tokens = .ok program ∧
      acceptTokens .modern (tokens.map Token.modern) = .ok program ∧
      ∃ texts, ∀ release, (Runner.exec { release, limits := {} } ⟨release, program⟩
        (some ⟨.output 1, .abort⟩)).texts = texts := by
  intro tokens program
  have htokens : Program.tokens .legacy "$x <- yes\nx <- no\n<: x" = .ok tokens := by
    decide +kernel
  have hlegacy : acceptTokens .legacy tokens = .ok program := by
    decide +kernel
  exact ⟨htokens, hlegacy, releases_agree.1 tokens program hlegacy,
    (releases_agree.2 {} program (some (.output 1))).1⟩

end ScriptLab.Host
