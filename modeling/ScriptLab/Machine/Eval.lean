import ScriptLab.Machine.Limits
import ScriptLab.Value.Rendering

/-!
# Running under a setting

The state of a run, the ways in which it can stop, and the few actions that look at the limits or at
the world outside: counting a step, giving out a value, and pausing. What may happen from outside is
fixed beforehand: at most one interruption, tied to an output, a pause or a moment.
-/

namespace ScriptLab.Machine

open Program (Cause Fault)
open Text (Pos)

/-! ## Interruptions -/

/-- A point of a run: just after an output, at a pause, or at the first pause from some microsecond
on. Outputs and pauses are counted from one. -/
inductive Cue where
  | output (n : Nat)
  | pause (n : Nat)
  | deadline (micros : Nat)
deriving DecidableEq

/-- What an interruption does to the run. -/
inductive Effect where
  | abort
  | crash (message : Option String)
  | nothing
deriving DecidableEq

/-- An effect at a point. -/
structure Interruption where
  cue : Cue
  effect : Effect
deriving DecidableEq

/-! ## State and results -/

/-- How a statement ends when it does not stop the run. -/
inductive Flow where
  | next (value : Option Value)
  | leave
  | again
  | back (value : Value)

/-- Why an evaluation stopped. A `jump` is loop control or a return on its way out of a conditional;
`exhausted` means that the bounds of the evaluator itself were too small. -/
inductive Halt where
  | fault (fault : Fault)
  | aborted
  | jump (flow : Flow)
  | crashed (message : Option String)
  | exhausted

/-- The state of a run whose outputs are recorded as `ω`. -/
structure Progress (ω : Type) where
  store : Store
  steps : Nat := 0
  /-- The outputs, latest first. -/
  outputs : List ω := []
  pauses : Nat := 0
  /-- The microseconds spent asleep. -/
  asleep : Nat := 0
  aborted : Bool := false
  /-- Whether the interruption has happened. -/
  interrupted : Bool := false

/-- The microseconds that have passed: one for each step, and the time asleep. -/
def Progress.elapsed {ω : Type} (p : Progress ω) : Nat :=
  p.steps + p.asleep

/-- What stays the same during a run. -/
structure Setting (ω : Type) where
  limits : Limits
  interruption : Option Interruption := none
  /-- How an output is recorded. -/
  record : Store → Value → ω
  /-- The rounds that one endless loop may take. -/
  rounds : Nat

/-- An action of a run. -/
abbrev Eval (ω : Type) := EStateM Halt (Progress ω)

variable {ω : Type}

/-! ## Actions -/

/-- Stops with a fault. -/
def raise {α : Type} (cause : Cause) (pos : Pos) : Eval ω α :=
  throw (.fault ⟨cause, pos⟩)

/-- Reads from the store. -/
def look {α : Type} (f : Store → α) : Eval ω α :=
  fun p => .ok (f p.store) p

/-- Changes the store. -/
def change (f : Store → Store) : Eval ω Unit :=
  fun p => .ok () { p with store := f p.store }

/-- Adds something to the store. -/
def create {α : Type} (f : Store → α × Store) : Eval ω α :=
  fun p =>
    match f p.store with
    | (a, store) => .ok a { p with store }

/-- Stops if the run has been aborted. -/
def checkAborted : Eval ω Unit :=
  fun p => if p.aborted then .error .aborted p else .ok () p

namespace Setting

variable (s : Setting ω)

/-- Lets the interruption happen if its point is reached and it has not happened before. -/
def interrupt (due : Cue → Progress ω → Bool) : Eval ω Unit :=
  fun p =>
    match s.interruption with
    | none => .ok () p
    | some i =>
      if !p.interrupted && due i.cue p then
        match i.effect with
        | .abort => .ok () { p with interrupted := true, aborted := true }
        | .crash message => .error (.crashed message) { p with interrupted := true }
        | .nothing => .ok () { p with interrupted := true }
      else .ok () p

/-- Whether the last output is the point of an interruption. -/
def outputDue (cue : Cue) (p : Progress ω) : Bool :=
  match cue with
  | .output n => p.outputs.length == n
  | _ => false

/-- Whether the present pause is the point of an interruption. -/
def pauseDue (cue : Cue) (p : Progress ω) : Bool :=
  match cue with
  | .pause n => p.pauses == n
  | .deadline micros => micros ≤ p.elapsed
  | .output _ => false

/-- Gives out a value, unless the run has been aborted. -/
def emit (v : Value) : Eval ω Unit := do
  if !(← get).aborted then
    modify fun p => { p with outputs := s.record p.store v :: p.outputs }
    s.interrupt outputDue

/-- Pauses: others may go on, and among them what interrupts the run. -/
def pause : Eval ω Unit := do
  modify fun p => { p with pauses := p.pauses + 1 }
  s.interrupt pauseDue
  checkAborted

/-- Sleeps for some milliseconds, in one pause. -/
def sleep (millis : Nat) : Eval ω Unit := do
  checkAborted
  modify fun p => { p with asleep := p.asleep + 1000 * millis }
  s.pause

/-- Counts a step. -/
def step (pos : Pos) : Eval ω Unit := do
  checkAborted
  modify fun p => { p with steps := p.steps + 1 }
  let steps := (← get).steps
  if s.limits.maxSteps.any (· < steps) then raise .stepsExceeded pos
  if s.limits.yieldInterval ≠ 0 ∧ steps % s.limits.yieldInterval = 0 then s.pause

end Setting

end ScriptLab.Machine
