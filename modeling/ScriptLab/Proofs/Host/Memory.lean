import ScriptLab.Host.Workbench
import ScriptLab.Proofs.Machine.Reuse

/-!
# Workbenches have no memory

All executions of a workbench share one interpreter and one store, and some of them break off in the
middle. Even so an execution gives out what it gives out on a new workbench, and ends in the same way:
a workbench is a runner.
-/

namespace ScriptLab.Host

open Machine
open Program (Stmt)

namespace Runner

/-- An execution makes the same of runs that differ in places alone. -/
theorem finish_alike (r : Runner) (interruption : Option Interruption) {σ : Shift}
    {run run' : Run String} (h : Run.Alike σ Eq run run') :
    r.finish interruption run' = r.finish interruption run := by
  have houtputs : run'.outputs = run.outputs := by
    have hall := h.outputs
    rw [List.forall₂_eq_eq_eq] at hall
    exact hall.symm
  have hdeliver : ∀ (r : Runner) (text : String),
      r.deliver interruption run' text = r.deliver interruption run text := by
    intro r text
    unfold deliver
    rw [houtputs, h.interrupted]
  unfold finish
  rw [h.aborted, h.ending, houtputs, h.interrupted]
  rcases run.ending with ⟨_ | v⟩ | _ | f | m | _
  · rfl
  · change deliver _ _ _ (run'.store.repr (σ.value v)) = _
    rw [h.store.repr, hdeliver]
  · rfl
  · rfl
  · rfl
  · rfl

end Runner

namespace Workbench

/-! ## States -/

/-- What holds of a workbench all along: it keeps its release, its interpreter until it is disposed,
and the provided functions in its store. -/
structure Serves (release : Release) (limits : Limits) (w : Workbench) : Prop where
  release : w.release = release
  interpreter : ∀ i, w.interpreter = some i → i = { globals := 0, limits }
  stocked : Stocked 0 0 w.store

variable {release : Release} {limits : Limits} {w : Workbench}

theorem serves_create (release : Release) (limits : Limits) :
    Serves release limits (create release limits) where
  release := rfl
  interpreter i h := by
    cases h
    rfl
  stocked := stocked_stock

/-- The run of an open workbench is that of a new one, but for the places. -/
theorem Serves.run_alike (h : Serves release limits w) {i : Interpreter}
    (hi : w.interpreter = some i) (interruption : Option Interruption) (program : List Stmt) :
    Run.Alike h.stocked.shift Eq (i.run interruption Store.output stock program)
        (i.run interruption Store.output w.store program) ∧
      Stocked 0 0 (i.run interruption Store.output w.store program).store := by
  obtain rfl := h.interpreter i hi
  exact Interpreter.run_alike { globals := 0, limits } h.stocked Eq interruption Store.output
    (fun hs v => (hs.output v).symm) program

theorem Serves.dispose (h : Serves release limits w) : Serves release limits w.dispose where
  release := h.release
  interpreter _ hi := nomatch hi
  stocked := h.stocked

theorem Serves.exec (h : Serves release limits w) (tree : Tree)
    (interruption : Option Interruption) : Serves release limits (w.exec tree interruption).1 := by
  unfold Workbench.exec
  split
  · exact h
  split
  · exact h
  · next i hi =>
      have hstore := (h.run_alike hi interruption tree.program).2
      have hafter : Serves release limits
          { w with store := (i.run interruption Store.output w.store tree.program).store } :=
        ⟨h.release, h.interpreter, hstore⟩
      dsimp only
      split
      · exact hafter.dispose
      · exact hafter

theorem Serves.answer (h : Serves release limits w) (call : Call) :
    Serves release limits (w.answer call).1 := by
  cases call with
  | parse code => exact h
  | exec tree interruption => exact h.exec tree interruption
  | classify failure => exact h
  | dispose => exact h.dispose

theorem Serves.after (h : Serves release limits w) (calls : List Call) :
    Serves release limits (w.after calls) := by
  induction calls generalizing w with
  | nil => exact h
  | cons call rest ih => exact ih (h.answer call)

/-! ## Executions -/

/-- What an open workbench is to its host. -/
theorem Serves.runner (h : Serves release limits w) (hopen : w.disposed = false) :
    w.runner = { release, limits } := by
  cases hi : w.interpreter with
  | none =>
      rw [disposed, hi] at hopen
      cases hopen
  | some i =>
      rw [Workbench.runner, hopen, h.release, hi, h.interpreter i hi]
      rfl

/-- An open workbench executes a tree as a runner does. -/
theorem Serves.exec_eq (h : Serves release limits w) (hopen : w.disposed = false) (tree : Tree)
    (interruption : Option Interruption) :
    (w.exec tree interruption).2 = Runner.exec { release, limits } tree interruption := by
  have hrunner := h.runner hopen
  unfold Workbench.exec Runner.exec
  rw [h.release, hrunner]
  dsimp only
  split
  · rfl
  · rw [if_neg (by decide)]
    split
    · next hi =>
        rw [disposed, hi] at hopen
        cases hopen
    · next i hi =>
        have halike := (h.run_alike hi interruption tree.program).1
        obtain rfl := h.interpreter i hi
        exact Runner.finish_alike _ interruption halike

/-- A workbench has no memory: after any calls that leave it open, it gives out for every tree, and
answers, what a new workbench does, and what a runner does. -/
theorem earlier_calls_leave_no_trace (release : Release) (limits : Limits) (calls : List Call)
    (hopen : ((create release limits).after calls).disposed = false) (tree : Tree)
    (interruption : Option Interruption) :
    (((create release limits).after calls).exec tree interruption).2 =
        ((create release limits).exec tree interruption).2 ∧
      ((create release limits).exec tree interruption).2 =
        Runner.exec { release, limits } tree interruption := by
  have hfresh := serves_create release limits
  have hused := (hfresh.after calls).exec_eq hopen tree interruption
  have hnew := hfresh.exec_eq rfl tree interruption
  exact ⟨hused.trans hnew.symm, hnew⟩

/-- Calls of which one execution completes, one fails, one is refused, and one is broken off where it
has just bound a name. -/
def checkered : List Call :=
  let bind : Stmt := .define ⟨1, 1⟩ "flag" true (.bool ⟨1, 12⟩ true)
  let give : Stmt := .out ⟨2, 1⟩ (.ident ⟨2, 4⟩ "flag")
  [.parse "let flag = true", .exec ⟨.v0_16_0, [bind, give]⟩ none, .exec ⟨.v0_16_0, [give]⟩ none,
    .exec ⟨.v0_14_1, [bind]⟩ none,
    .exec ⟨.v0_16_0, [bind, give]⟩ (some ⟨.output 1, .crash (some "sink failed")⟩)]

theorem earlier_calls_leave_no_trace_checkered :
    let used := (create .v0_16_0 {}).after checkered
    let tree : Tree := ⟨.v0_16_0,
      [.out ⟨1, 1⟩ (.bool ⟨1, 4⟩ true), .eval ⟨2, 1⟩ (.ident ⟨2, 1⟩ "flag")]⟩
    used.disposed = false ∧
      (used.exec tree none).2 = ((create .v0_16_0 {}).exec tree none).2 ∧
      ((create .v0_16_0 {}).exec tree none).2.texts = ["true"] := by
  intro used tree
  have hopen : used.disposed = false := by
    decide +kernel
  have htexts : ((create .v0_16_0 {}).exec tree none).2.texts = ["true"] := by
    decide +kernel
  exact ⟨hopen, (earlier_calls_leave_no_trace .v0_16_0 {} checkered hopen tree none).1, htexts⟩

end Workbench

end ScriptLab.Host
