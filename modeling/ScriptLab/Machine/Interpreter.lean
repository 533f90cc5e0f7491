import ScriptLab.Machine.Evaluator
import ScriptLab.Program.Depth

/-!
# Interpreters

An interpreter holds the global scope of its programs: the provided functions and the constants that
its host gives. It runs one program after the other, each in a new scope of its own, until it is
aborted.
-/

namespace ScriptLab.Machine

open Program

variable {ω : Type}

/-- A global scope with the limits of its runs, and whether it has been aborted. -/
structure Interpreter where
  globals : Nat
  limits : Limits
  aborted : Bool := false

/-- How a run ended. -/
inductive Ending where
  | finished (last : Option Value)
  | aborted
  | failed (fault : Fault)
  | crashed (message : Option String)
  | exhausted

/-- What a run did. -/
structure Run (ω : Type) where
  /-- A run of an aborted interpreter does not start. -/
  started : Bool
  outputs : List ω
  ending : Ending
  store : Store
  steps : Nat
  aborted : Bool
  interrupted : Bool

/-- The evaluations that are open at once are at most as many as a tree is deep, for the program
itself and for each open call. -/
def budget (limits : Limits) : Nat :=
  maxTreeDepth * (limits.maxCalls + 1)

/-- The rounds that one endless loop may take. Each takes a step, so that a limit on the steps is met
before. -/
def maxRounds (limits : Limits) : Nat :=
  match limits.maxSteps with
  | some steps => steps + 1
  | none => UInt64.size

/-- The bindings of the provided functions, added to a store. -/
def builtinBindings : List Builtin → Store → Frame × Store
  | [], store => ([], store)
  | function :: rest, store =>
    let (value, store) := store.newCallable (.builtin function)
    let (bindings, store) := builtinBindings rest store
    ((function.name, ⟨value, false⟩) :: bindings, store)

/-- Runs the statements of a program in its scope. The result is the value of the last statement, if
that is an expression, or the value returned. -/
def runProgram (s : Setting ω) (bound : Nat) (env : Env) :
    Option Value → List Stmt → Eval ω (Option Value)
  | last, [] => do
    checkAborted
    return last
  | _, stmt :: rest => do
    match ← runWithin s bound stmt env 0 with
    | .next value => runProgram s bound env value rest
    | .back value =>
      checkAborted
      return some value
    | _ => raise .strayLoopControl stmt.pos

namespace Interpreter

/-- Makes an interpreter. A constant of the host hides a provided function of its name. -/
def create (store : Store) (consts : Entries String Value) (limits : Limits) :
    Interpreter × Store :=
  let (bindings, store) := builtinBindings Builtin.all store
  let frame := consts.foldl (fun frame const => frame.put const.1 ⟨const.2, false⟩) bindings
  let (globals, store) := store.newFrame frame
  ({ globals, limits }, store)

/-- Runs a program. Its scope is cleared at the end, unless the run crashed. -/
def run (i : Interpreter) (interruption : Option Interruption) (record : Store → Value → ω)
    (store : Store) (program : List Stmt) : Run ω :=
  if i.aborted then
    { started := false, outputs := [], ending := .aborted, store, steps := 0, aborted := true,
      interrupted := false }
  else
    let s : Setting ω := { limits := i.limits, interruption, record, rounds := maxRounds i.limits }
    let (frame, store) := store.newFrame []
    let ended (ending : Ending) (p : Progress ω) : Run ω :=
      { started := true, outputs := p.outputs.reverse, ending, store := p.store, steps := p.steps,
        aborted := p.aborted, interrupted := p.interrupted }
    let cleared (p : Progress ω) : Progress ω :=
      { p with store := p.store.clearFrame frame }
    match runProgram s (budget i.limits) ⟨frame, [i.globals]⟩ none program { store } with
    | .ok last p => ended (.finished last) (cleared p)
    | .error (.fault fault) p => ended (.failed fault) (cleared p)
    | .error .aborted p => ended .aborted (cleared p)
    | .error (.crashed message) p => ended (.crashed message) p
    | .error .exhausted p => ended .exhausted (cleared p)
    | .error (.jump _) p => ended .exhausted (cleared p)

/-- Refuses all further runs. -/
def abort (i : Interpreter) : Interpreter :=
  { i with aborted := true }

end Interpreter

end ScriptLab.Machine
