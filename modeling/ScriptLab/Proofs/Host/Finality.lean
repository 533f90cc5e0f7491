import ScriptLab.Proofs.Host.Course
import ScriptLab.Proofs.Host.Memory
import ScriptLab.Proofs.Machine.Silence

/-!
# Disposal is final

A workbench is disposed by a call, or from inside its sink or a suspension while it runs. From then on
its sink hears nothing more, executions are refused, parsing goes on, and nothing changes the
workbench any further.
-/

namespace ScriptLab.Host

open Machine
open Program (Stmt)

namespace Runner

variable (r : Runner) (interruption : Option Interruption) (run : Run String)

theorem texts_deliver (text : String) :
    (r.deliver interruption run text).texts = run.outputs ++ [text] := by
  unfold deliver
  dsimp only
  split <;> rfl

/-- What happens at the final value comes too late to change the texts. -/
theorem texts_finish_eq : (r.finish interruption run).texts = (r.finish none run).texts := by
  unfold finish
  rcases run.ending with ⟨_ | v⟩ | _ | f | m | _
  · rfl
  · exact (texts_deliver _ _ _ _).trans (texts_deliver _ _ _ _).symm
  · rfl
  · rfl
  · rfl
  · rfl

theorem texts_finish_of_unfinished (h : ∀ last, run.ending ≠ .finished last) :
    (r.finish interruption run).texts = run.outputs := by
  unfold finish
  cases hend : run.ending with
  | finished last => exact absurd hend (h last)
  | _ => rfl

/-- A runner is left as it is by a run that nothing aborts, where nothing aborts it at the final value
either. -/
theorem runner_finish {interruption : Option Interruption} {run : Run String}
    (heffect : ∀ cue, interruption ≠ some ⟨cue, .abort⟩) (hrun : run.aborted = false) :
    (r.finish interruption run).runner = r := by
  have hdeliver : ∀ text, (r.deliver interruption run text).runner = r := by
    intro text
    unfold deliver
    dsimp only
    split
    · next cue _ => exact absurd rfl (heffect cue)
    · rfl
    · rfl
    · rfl
  unfold finish
  rw [hrun]
  rcases run.ending with ⟨_ | v⟩ | _ | f | m | _
  · rfl
  · exact hdeliver _
  · rfl
  · rfl
  · rfl
  · rfl

/-- An abort that happens leaves the runner disposed, and one that does not leaves it open. -/
theorem disposed_finish {r : Runner} (hopen : r.disposed = false) {run : Run String}
    (hrun : run.interrupted = run.aborted) (cue : Cue) :
    (r.finish (some ⟨cue, .abort⟩) run).runner.disposed =
      (r.finish (some ⟨cue, .abort⟩) run).interrupted := by
  have hafter : (if run.aborted then r.dispose else r).disposed = run.interrupted := by
    rw [hrun]
    cases run.aborted with
    | true => rfl
    | false => exact hopen
  have hdeliver : ∀ (r : Runner) (text : String), r.disposed = run.interrupted →
      (r.deliver (some ⟨cue, .abort⟩) run text).runner.disposed =
        (r.deliver (some ⟨cue, .abort⟩) run text).interrupted := by
    intro r text h
    unfold deliver
    dsimp only
    split
    · rfl
    · next heq => cases heq
    · next heffect _ => exact absurd rfl (heffect cue)
    · exact h
  unfold finish
  rcases run.ending with ⟨_ | v⟩ | _ | f | m | _
  · exact hafter
  · exact hdeliver _ _ hafter
  · exact hafter
  · exact hafter
  · exact hafter
  · exact hafter

/-- An abort at the final value happens where that is the output that the abort is tied to. -/
theorem length_texts_of_interrupted {run : Run String} {n : Nat} (hrun : run.interrupted = false)
    (h : (r.finish (some ⟨.output n, .abort⟩) run).interrupted = true) :
    (r.finish (some ⟨.output n, .abort⟩) run).texts.length = n := by
  rw [interrupted_finish, hrun, Bool.false_or, beq_iff_eq] at h
  unfold finalCue at h
  unfold finish
  generalize run.ending = ending at h ⊢
  rcases ending with ⟨_ | v⟩ | _ | f | m | _
  · cases h
  · cases h
    dsimp only
    rw [texts_deliver]
    exact List.length_append
  · cases h
  · cases h
  · cases h
  · cases h

end Runner

namespace Workbench

/-- Whether a call disposes the workbench: by itself, or from inside an execution. -/
def Call.disposes (w : Workbench) : Call → Prop
  | .dispose => True
  | .exec tree interruption =>
    (∃ cue, interruption = some ⟨cue, .abort⟩) ∧ (w.exec tree interruption).2.interrupted = true
  | .parse _ | .classify _ => False

variable {release : Release} {limits : Limits} {w : Workbench}

/-! ## Disposed workbenches -/

theorem interpreter_of_disposed (h : w.disposed = true) : w.interpreter = none :=
  Option.isNone_iff_eq_none.1 h

/-- A disposed workbench refuses every tree. -/
theorem exec_of_disposed (h : w.disposed = true) (tree : Tree)
    (interruption : Option Interruption) :
    w.exec tree interruption = (w, ⟨w.runner, [],
      .error (if tree.release = w.release then .disposed w.release
        else .foreignTree w.release tree.release), false⟩) := by
  unfold exec
  by_cases htree : tree.release = w.release
  · rw [if_neg (not_not.2 htree), interpreter_of_disposed h, if_pos htree]
  · rw [if_pos htree, if_neg htree]

theorem dispose_of_disposed (h : w.disposed = true) : w.dispose = w := by
  have hinterpreter := interpreter_of_disposed h
  obtain ⟨release, interpreter, store⟩ := w
  cases hinterpreter
  rfl

theorem answer_of_disposed (h : w.disposed = true) (call : Call) : (w.answer call).1 = w := by
  cases call with
  | parse code => rfl
  | exec tree interruption => exact congrArg Prod.fst (exec_of_disposed h tree interruption)
  | classify failure => rfl
  | dispose => exact dispose_of_disposed h

theorem after_of_disposed (h : w.disposed = true) (calls : List Call) : w.after calls = w := by
  induction calls with
  | nil => rfl
  | cons call rest ih =>
      rw [after, answer_of_disposed h]
      exact ih

/-! ## Executions in which the workbench is disposed -/

theorem exec_foreign {tree : Tree} (htree : tree.release ≠ w.release) (interruption : Option Interruption) :
    w.exec tree interruption =
      (w, ⟨w.runner, [], .error (.foreignTree w.release tree.release), false⟩) :=
  if_pos htree

theorem exec_open {i : Interpreter} (hi : w.interpreter = some i) {tree : Tree}
    (htree : tree.release = w.release) (interruption : Option Interruption) :
    let execution := w.runner.finish interruption
      (i.run interruption Store.output w.store tree.program)
    (w.exec tree interruption).2 = execution ∧
      (w.exec tree interruption).1.disposed = execution.runner.disposed := by
  intro execution
  unfold exec
  rw [if_neg (not_not.2 htree), hi]
  refine ⟨rfl, ?_⟩
  change (if execution.runner.disposed then _ else _ : Workbench).disposed = _
  cases execution.runner.disposed with
  | true => rfl
  | false => rfl

/-- An execution leaves the workbench disposed exactly if it was disposed before, or inside. -/
theorem Serves.disposed_exec (h : Serves release limits w) (tree : Tree)
    (interruption : Option Interruption) :
    (w.exec tree interruption).1.disposed = true ↔
      w.disposed = true ∨ (Call.exec tree interruption).disposes w := by
  change _ ↔ _ ∨ (∃ cue, interruption = some ⟨cue, .abort⟩) ∧
    (w.exec tree interruption).2.interrupted = true
  cases hi : w.interpreter with
  | none =>
      have hdisposed : w.disposed = true := Option.isNone_iff_eq_none.2 hi
      rw [exec_of_disposed hdisposed]
      exact ⟨.inl, fun _ => hdisposed⟩
  | some i =>
      have hopen : w.disposed = false := congrArg Option.isNone hi
      have hnot : ¬w.disposed = true := ne_true_of_eq_false hopen
      by_cases htree : tree.release = w.release
      · obtain ⟨hexec, hafter⟩ := exec_open hi htree interruption
        have haborted : i.aborted = false := congrArg (·.aborted) (h.interpreter i hi)
        rw [hexec, hafter, or_iff_right hnot]
        by_cases hcut : ∃ cue, interruption = some ⟨cue, .abort⟩
        · obtain ⟨cue, rfl⟩ := hcut
          rw [Runner.disposed_finish (r := w.runner) hopen]
          · exact ⟨fun hlate => ⟨⟨cue, rfl⟩, hlate⟩, And.right⟩
          · rcases Interpreter.run_silenced haborted Store.output w.store tree.program cue with
              ⟨hrun, -, hgoing, hwaiting⟩ | hsilenced
            · dsimp only at hrun
              rw [hrun, hgoing, hwaiting]
            · rw [hsilenced.aborted, hsilenced.interrupted]
        · have heffect : ∀ cue, interruption ≠ some ⟨cue, .abort⟩ := fun cue hcue =>
            hcut ⟨cue, hcue⟩
          rw [Runner.runner_finish _ heffect (Interpreter.run_lasting haborted heffect ..)]
          exact iff_of_false hnot fun hboth => hcut hboth.1
      · rw [exec_foreign htree, or_iff_right hnot]
        exact iff_of_false hnot fun hboth => Bool.false_ne_true hboth.2

theorem Serves.disposed_answer (h : Serves release limits w) (call : Call) :
    (w.answer call).1.disposed = true ↔ w.disposed = true ∨ call.disposes w := by
  cases call with
  | parse code => exact (or_iff_left not_false).symm
  | exec tree interruption => exact h.disposed_exec tree interruption
  | classify failure => exact (or_iff_left not_false).symm
  | dispose => exact iff_of_true rfl (.inr trivial)

/-- The sink hears nothing more of an execution from the point on where the workbench is disposed
inside it. -/
theorem Serves.texts_cut (h : Serves release limits w) (tree : Tree) (cue : Cue) :
    let cut := (w.exec tree (some ⟨cue, .abort⟩)).2
    cut.texts = (w.exec tree (some ⟨cue, .crash none⟩)).2.texts ∧
      (cut.interrupted = true → ∀ n, cue = .output n → cut.texts.length = n) := by
  intro cut
  cases hi : w.interpreter with
  | none =>
      have hdisposed : w.disposed = true := Option.isNone_iff_eq_none.2 hi
      have hcut : cut = _ := congrArg Prod.snd (exec_of_disposed hdisposed tree _)
      rw [hcut, exec_of_disposed hdisposed]
      exact ⟨rfl, fun hlate => absurd hlate Bool.false_ne_true⟩
  | some i =>
      by_cases htree : tree.release = w.release
      · have hcut : cut = _ := (exec_open hi htree (some ⟨cue, .abort⟩)).1
        have haborted : i.aborted = false := congrArg (·.aborted) (h.interpreter i hi)
        rw [hcut, (exec_open hi htree (some ⟨cue, .crash none⟩)).1]
        rcases Interpreter.run_silenced haborted Store.output w.store tree.program cue with
          ⟨hrun, hstop, -, hwaiting⟩ | hsilenced
        · dsimp only at hrun hstop
          rw [hrun, hstop]
          refine ⟨(Runner.texts_finish_eq ..).trans (Runner.texts_finish_eq ..).symm, ?_⟩
          rintro hlate n rfl
          exact Runner.length_texts_of_interrupted _ hwaiting hlate
        · have hdead : ∀ last, (i.run (some ⟨cue, .crash none⟩) Store.output w.store
              tree.program).ending ≠ .finished last := by
            intro last hlast
            rw [hsilenced.crashed] at hlast
            cases hlast
          rw [Runner.texts_finish_of_unfinished _ _ _ hsilenced.unfinished,
            Runner.texts_finish_of_unfinished _ _ _ hdead]
          exact ⟨hsilenced.outputs, fun _ => hsilenced.output⟩
      · have hcut : cut = _ := congrArg Prod.snd (exec_foreign htree _)
        rw [hcut, exec_foreign htree]
        exact ⟨rfl, fun hlate => absurd hlate Bool.false_ne_true⟩

/-- Disposal is final. A workbench is disposed by exactly the calls that ask for it, by themselves or
from inside an execution, whose sink hears nothing from then on. A disposed workbench stays as it is
whatever is called, gives nothing out, refuses every tree, and knows no label for the refusals.
Parsing answers at all times as on a new workbench. -/
theorem disposal_is_final (release : Release) (limits : Limits) (before : List Call) :
    let new := create release limits
    let w := new.after before
    (∀ call, (w.answer call).1.disposed = true ↔ w.disposed = true ∨ call.disposes w) ∧
    (∀ tree cue,
      let cut := (w.exec tree (some ⟨cue, .abort⟩)).2
      cut.texts = (w.exec tree (some ⟨cue, .crash none⟩)).2.texts ∧
        (cut.interrupted = true → ∀ n, cue = .output n → cut.texts.length = n)) ∧
    (∀ code, (w.answer (.parse code)).2 = (new.answer (.parse code)).2) ∧
    (w.disposed = true →
      (∀ calls, w.after calls = w) ∧
      ∀ tree interruption,
        let refusal : Failure := if tree.release = release then .disposed release
          else .foreignTree release tree.release
        (w.exec tree interruption).2.texts = [] ∧
          (w.exec tree interruption).2.result = .error refusal ∧
          (w.answer (.classify refusal)).2 = .classified none) := by
  intro new w
  have h : Serves release limits w := (serves_create release limits).after before
  refine ⟨h.disposed_answer, h.texts_cut, fun code => ?_, fun hdisposed => ?_⟩
  · change Answer.parsed (w.runner.parse code) = .parsed (new.runner.parse code)
    unfold Runner.parse runner
    rw [h.release]
    rfl
  · refine ⟨after_of_disposed hdisposed, fun tree interruption => ?_⟩
    rw [exec_of_disposed hdisposed, h.release]
    refine ⟨rfl, rfl, ?_⟩
    by_cases htree : tree.release = release
    · rw [if_pos htree]
      rfl
    · rw [if_neg htree]
      rfl

/-- A program that gives out two truth values. -/
def twoOutputs : Tree :=
  ⟨.v0_16_0, [.out ⟨1, 1⟩ (.bool ⟨1, 4⟩ true), .out ⟨2, 1⟩ (.bool ⟨2, 4⟩ false)]⟩

/-- An execution that is disposed inside the sink, at the first of two texts. -/
def cutShort : Call :=
  .exec twoOutputs (some ⟨.output 1, .abort⟩)

theorem disposal_is_final_cut_short :
    let w := (create .v0_16_0 {}).after [cutShort]
    cutShort.disposes (create .v0_16_0 {}) ∧ w.disposed = true ∧
      ((create .v0_16_0 {}).exec twoOutputs (some ⟨.output 1, .abort⟩)).2.texts.length = 1 ∧
      w.after [.dispose, .parse "1 +", cutShort, .dispose] = w ∧
      (w.exec twoOutputs none).2.result = .error (.disposed .v0_16_0) ∧
      (w.exec { twoOutputs with release := .v0_14_1 } none).2.result =
        .error (.foreignTree .v0_16_0 .v0_14_1) := by
  have hlate : ((create .v0_16_0 {}).exec twoOutputs
      (some ⟨.output 1, .abort⟩)).2.interrupted = true := by
    decide +kernel
  have hinside : cutShort.disposes (create .v0_16_0 {}) := ⟨⟨.output 1, rfl⟩, hlate⟩
  have hnew := disposal_is_final .v0_16_0 {} []
  have hdisposed : ((create .v0_16_0 {}).after [cutShort]).disposed = true :=
    (hnew.1 cutShort).2 (.inr hinside)
  have hw := (disposal_is_final .v0_16_0 {} [cutShort]).2.2.2 hdisposed
  exact ⟨hinside, hdisposed, (hnew.2.1 twoOutputs (.output 1)).2 hlate 1 rfl, hw.1 _,
    (hw.2 twoOutputs none).2.1, (hw.2 { twoOutputs with release := .v0_14_1 } none).2.1⟩

end Workbench

end ScriptLab.Host
