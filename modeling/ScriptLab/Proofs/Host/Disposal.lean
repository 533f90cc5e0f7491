import Mathlib
import ScriptLab.Host.Runner
import ScriptLab.Program.Equality
import ScriptLab.Proofs.Machine.Cancellation

/-!
# Runners that are disposed while they run

A runner is disposed from inside its sink, or while its program is suspended. The texts behind this
are cut off cleanly, and what the program was in the middle of is all that it still does.
-/

namespace ScriptLab.Host

open Machine
open Program (Stmt)

namespace Runner

/-- The run behind an execution of a runner that has not been disposed. -/
def run (r : Runner) (program : List Stmt) (interruption : Option Interruption) : Run String :=
  let (interpreter, store) := Interpreter.create {} [] r.limits
  interpreter.run interruption Store.output store program

/-- How often a program is suspended that nothing disturbs. -/
def suspensions (r : Runner) (program : List Stmt) : Nat :=
  let (interpreter, store) := Interpreter.create {} [] r.limits
  interpreter.pauses Store.output store program

theorem exec_fresh (release : Release) (limits : Limits) (program : List Stmt)
    (interruption : Option Interruption) :
    let r : Runner := { release, limits }
    r.exec ⟨release, program⟩ interruption = r.finish interruption (r.run program interruption) := by
  intro r
  unfold exec
  rw [if_neg (by simp [r]), if_neg (by simp [r])]
  rfl

/-- The run of a program that was parsed parts from the undisturbed one only at the point where it is
disposed. -/
theorem run_parted (r : Runner) {release : Release} {code : String} {program : List Stmt}
    (hparse : release.parse code = .ok program) (cue : Cue) :
    (r.run program (some ⟨cue, .abort⟩) = r.run program none ∧
      (∀ n, cue = .output n → n ≠ 0 → (r.run program none).outputs.length < n) ∧
      ∀ n, cue = .pause n → n ≠ 0 → r.suspensions program < n) ∨
    (CutAt cue (r.run program (some ⟨cue, .abort⟩)) (r.run program (some ⟨cue, .crash none⟩))
        (r.run program none) ∧
      ∀ n, cue = .pause n → n ≠ 0 ∧ n ≤ r.suspensions program) :=
  Interpreter.run_parted (i := (Interpreter.create {} [] r.limits).1) rfl Store.output
    (Interpreter.fits_create [] r.limits) (Program.within_of_parse hparse) cue

/-! ## Executions -/

/-- The texts of an execution start with those of its run, and a final value comes behind them. -/
theorem texts_finish (r : Runner) (interruption : Option Interruption) (run : Run String) :
    run.outputs <+: (r.finish interruption run).texts := by
  unfold finish
  rcases run.ending with ⟨_ | v⟩ | _ | f | m | _
  · exact List.prefix_rfl
  · dsimp only
    unfold deliver
    dsimp only
    split <;> exact List.prefix_append _ _
  · exact List.prefix_rfl
  · exact List.prefix_rfl
  · exact List.prefix_rfl
  · exact List.prefix_rfl

/-- A run of a disposed runner is finished like one of a runner that is not. -/
theorem finish_abort (r : Runner) (cue : Cue) (run : Run String) :
    (r.finish (some ⟨cue, .abort⟩) run).texts = (r.finish none run).texts ∧
      (r.finish (some ⟨cue, .abort⟩) run).result = (r.finish none run).result := by
  unfold finish
  rcases run.ending with ⟨_ | v⟩ | _ | f | m | _
  · exact ⟨rfl, rfl⟩
  · dsimp only
    unfold deliver
    cases cue with
    | output n =>
        dsimp only
        cases hdue : !run.interrupted && (run.outputs ++ [run.store.repr v]).length == n <;>
          exact ⟨rfl, rfl⟩
    | pause n | deadline n => exact ⟨rfl, rfl⟩
  · exact ⟨rfl, rfl⟩
  · exact ⟨rfl, rfl⟩
  · exact ⟨rfl, rfl⟩
  · exact ⟨rfl, rfl⟩

theorem finish_of_aborted (r : Runner) (interruption : Option Interruption) {run : Run String}
    (h : run.ending = .aborted) :
    (r.finish interruption run).texts = run.outputs ∧
      (r.finish interruption run).result = .ok .aborted := by
  unfold finish
  rw [h]
  exact ⟨rfl, rfl⟩

theorem finish_of_failed (r : Runner) (interruption : Option Interruption) {run : Run String}
    {fault : Program.Fault} (h : run.ending = .failed fault) :
    (r.finish interruption run).texts = run.outputs ∧
      (r.finish interruption run).result = .error (.fault r.release fault) := by
  unfold finish
  rw [h]
  exact ⟨rfl, rfl⟩

theorem texts_finish_of_crashed (r : Runner) (interruption : Option Interruption)
    {run : Run String} {message : Option String} (h : run.ending = .crashed message) :
    (r.finish interruption run).texts = run.outputs := by
  unfold finish
  rw [h]

/-- An execution that is cut off has the texts of its run, and is aborted or reports a fault. -/
theorem finish_of_cut (r : Runner) (interruption : Option Interruption) {cue : Cue}
    {run dead whole : Run String} (hcut : CutAt cue run dead whole) :
    (r.finish interruption run).texts = run.outputs ∧
      ((r.finish interruption run).result = .ok .aborted ∨
        ∃ fault, (r.finish interruption run).result = .error (.fault r.release fault)) := by
  rcases hcut.ending with h | ⟨-, fault, h⟩
  · obtain ⟨htexts, hresult⟩ := r.finish_of_aborted interruption h
    exact ⟨htexts, .inl hresult⟩
  · obtain ⟨htexts, hresult⟩ := r.finish_of_failed interruption h
    exact ⟨htexts, .inr ⟨fault, hresult⟩⟩

/-- Disposing a runner while it runs is a clean cut. Inside the sink it leaves the texts up to that
one; no step is taken behind it, and the run is aborted or fails with a fault of the statement that it
was in the middle of. At a suspension it leaves the texts up to there, and the run is aborted. At a
point that is never reached, or that is the output of the final value, it changes nothing. -/
theorem dispose_cuts_cleanly (release : Release) (limits : Limits) {code : String}
    {program : List Stmt} (hparse : release.parse code = .ok program) :
    let r : Runner := { release, limits }
    let exec (interruption : Option Interruption) := r.exec ⟨release, program⟩ interruption
    let dispose (cue : Cue) : Option Interruption := some ⟨cue, .abort⟩
    let stopDead (cue : Cue) : Option Interruption := some ⟨cue, .crash none⟩
    (∀ n, 1 ≤ n → n ≤ (r.run program none).outputs.length →
      (exec (dispose (.output n))).texts = (exec none).texts.take n ∧
      (∀ last, (r.run program (dispose (.output n))).ending ≠ .finished last) ∧
      (r.run program (dispose (.output n))).steps = (r.run program (stopDead (.output n))).steps ∧
      ((exec (dispose (.output n))).result = .ok .aborted ∨
        ∃ fault, (exec (dispose (.output n))).result = .error (.fault release fault))) ∧
    (∀ k, 1 ≤ k → k ≤ r.suspensions program →
      (exec (dispose (.pause k))).texts = (exec (stopDead (.pause k))).texts ∧
      (exec (stopDead (.pause k))).texts <+: (exec none).texts ∧
      (r.run program (dispose (.pause k))).steps = (r.run program (stopDead (.pause k))).steps ∧
      (exec (dispose (.pause k))).result = .ok .aborted) ∧
    (∀ n, n = 0 ∨ (r.run program none).outputs.length < n →
      (exec (dispose (.output n))).texts = (exec none).texts ∧
      (exec (dispose (.output n))).result = (exec none).result) ∧
    (∀ k, k = 0 ∨ r.suspensions program < k →
      (exec (dispose (.pause k))).texts = (exec none).texts ∧
      (exec (dispose (.pause k))).result = (exec none).result) := by
  intro r exec dispose stopDead
  have hexec : ∀ interruption, exec interruption =
      r.finish interruption (r.run program interruption) :=
    exec_fresh release limits program
  have hwhole : (r.run program none).outputs <+: (exec none).texts := by
    rw [hexec]
    exact r.texts_finish none _
  have hsame : ∀ cue, r.run program (dispose cue) = r.run program none →
      (exec (dispose cue)).texts = (exec none).texts ∧
        (exec (dispose cue)).result = (exec none).result := by
    intro cue hrun
    rw [hexec, hexec, hrun]
    exact r.finish_abort cue _
  refine ⟨fun n hpos hle => ?_, fun k hpos hle => ?_, fun n hn => ?_, fun k hk => ?_⟩
  · rcases r.run_parted hparse (.output n) with ⟨-, hfew, -⟩ | ⟨hcut, -⟩
    · have := hfew n rfl (Nat.ne_of_gt hpos)
      omega
    obtain ⟨htexts, hresult⟩ := r.finish_of_cut (dispose (.output n)) hcut
    have htake := List.prefix_iff_eq_take.1 (hcut.begun.trans hwhole)
    rw [(hcut.output n rfl).2, ← hcut.outputs] at htake
    refine ⟨?_, hcut.unfinished, hcut.steps, ?_⟩
    · rw [← htake, hexec]
      exact htexts
    · rw [hexec]
      exact hresult
  · rcases r.run_parted hparse (.pause k) with ⟨-, -, hfew⟩ | ⟨hcut, -⟩
    · have := hfew k rfl (Nat.ne_of_gt hpos)
      omega
    have hstop : (exec (stopDead (.pause k))).texts =
        (r.run program (stopDead (.pause k))).outputs := by
      rw [hexec]
      exact r.texts_finish_of_crashed _ hcut.crashed
    obtain ⟨htexts, hresult⟩ :=
      r.finish_of_aborted (dispose (.pause k)) (hcut.ending_of_isPause trivial)
    refine ⟨?_, ?_, hcut.steps, ?_⟩
    · rw [hstop, ← hcut.outputs, hexec]
      exact htexts
    · rw [hstop]
      exact hcut.begun.trans hwhole
    · rw [hexec]
      exact hresult
  · rcases r.run_parted hparse (.output n) with ⟨hrun, -⟩ | ⟨hcut, -⟩
    · exact hsame _ hrun
    · obtain ⟨hpos, hlen⟩ := hcut.output n rfl
      have := hcut.begun.length_le
      omega
  · rcases r.run_parted hparse (.pause k) with ⟨hrun, -⟩ | ⟨-, hreached⟩
    · exact hsame _ hrun
    · have := hreached k rfl
      omega

theorem dispose_cuts_cleanly_two_outputs :
    let code := "<: true\n<: false"
    let program : List Stmt := [.out ⟨1, 1⟩ (.bool ⟨1, 4⟩ true), .out ⟨2, 1⟩ (.bool ⟨2, 4⟩ false)]
    let r : Runner := { release := .v0_16_0, limits := { yieldInterval := 1 } }
    let tree : Tree := ⟨.v0_16_0, program⟩
    Release.parse .v0_16_0 code = .ok program ∧
      (r.exec tree (some ⟨.output 1, .abort⟩)).texts = (r.exec tree none).texts.take 1 ∧
      (r.exec tree (some ⟨.pause 2, .abort⟩)).result = .ok .aborted ∧
      (r.exec tree (some ⟨.output 3, .abort⟩)).texts = (r.exec tree none).texts := by
  intro code program r tree
  have hparse : Release.parse .v0_16_0 code = .ok program := by
    decide +kernel
  have hcount : (r.run program none).outputs.length = 2 := by
    decide +kernel
  have hpauses : r.suspensions program = 2 := by
    decide +kernel
  have h := dispose_cuts_cleanly .v0_16_0 { yieldInterval := 1 } hparse
  exact ⟨hparse, (h.1 1 (by decide) (by rw [hcount]; decide)).1,
    (h.2.1 2 (by decide) (Nat.le_of_eq hpauses.symm)).2.2.2,
    (h.2.2.1 3 (.inr (by rw [hcount]; decide))).1⟩

end Runner

end ScriptLab.Host
