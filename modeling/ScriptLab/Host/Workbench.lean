import ScriptLab.Host.Runner

/-!
# Workbenches

A workbench is a runner as it is built: one interpreter and one store for all its executions. What
earlier programs have made stays in the store, out of reach of later ones. Disposing the workbench
takes the interpreter away, also while it runs.
-/

namespace ScriptLab.Host

open Machine

/-- An interpreter of a release with all that its programs have made. -/
structure Workbench where
  release : Release
  /-- Absent once the workbench has been disposed. -/
  interpreter : Option Interpreter
  store : Store

namespace Workbench

/-- A workbench on which nothing has been run. -/
def create (release : Release) (limits : Limits) : Workbench :=
  let (interpreter, store) := Interpreter.create {} [] limits
  { release, interpreter, store }

/-- Whether the workbench has been disposed. -/
def disposed (w : Workbench) : Bool :=
  w.interpreter.isNone

/-- The runner that the workbench is to its host. -/
def runner (w : Workbench) : Runner where
  release := w.release
  limits := (w.interpreter.map (·.limits)).getD {}
  disposed := w.disposed

/-- Takes the interpreter away. -/
def dispose (w : Workbench) : Workbench :=
  { w with interpreter := none }

/-- Runs a tree on the interpreter. Disposing the runner inside takes the interpreter away. -/
def exec (w : Workbench) (tree : Tree) (interruption : Option Interruption) :
    Workbench × Execution :=
  if tree.release ≠ w.release then
    (w, ⟨w.runner, [], .error (.foreignTree w.release tree.release), false⟩)
  else
    match w.interpreter with
    | none => (w, ⟨w.runner, [], .error (.disposed w.release), false⟩)
    | some interpreter =>
      let run := interpreter.run interruption Store.output w.store tree.program
      let execution := w.runner.finish interruption run
      let after := { w with store := run.store }
      (if execution.runner.disposed then after.dispose else after, execution)

/-! ## Calls -/

/-- What a host asks of a workbench. -/
inductive Call where
  | parse (code : String)
  | exec (tree : Tree) (interruption : Option Interruption)
  | classify (failure : Failure)
  | dispose

/-- What a workbench answers. -/
inductive Answer where
  | parsed (result : Except Failure (Tree × Metadata))
  | executed (execution : Execution)
  | classified (label : Option Label)
  | done

/-- Answers a call. -/
def answer (w : Workbench) : Call → Workbench × Answer
  | .parse code => (w, .parsed (w.runner.parse code))
  | .exec tree interruption =>
    let (w, execution) := w.exec tree interruption
    (w, .executed execution)
  | .classify failure => (w, .classified (w.runner.classify failure))
  | .dispose => (w.dispose, .done)

/-- The workbench behind a sequence of calls. -/
def after (w : Workbench) : List Call → Workbench
  | [] => w
  | call :: rest => (w.answer call).1.after rest

end Workbench

end ScriptLab.Host
