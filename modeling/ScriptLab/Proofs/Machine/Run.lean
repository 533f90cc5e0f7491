import ScriptLab.Proofs.Machine.Action

/-!
# Runs as results of actions

A run of an interpreter that has not been aborted is what the action of its program comes to, from a
state with nothing but a new scope in it.
-/

namespace ScriptLab.Machine

open Program

variable {ω : Type}

/-- How a run ends whose program has come to a result. -/
def endingOf : EStateM.Result Halt (Progress ω) (Option Value) → Ending
  | .ok last _ => .finished last
  | .error (.fault fault) _ => .failed fault
  | .error .aborted _ => .aborted
  | .error (.crashed message) _ => .crashed message
  | .error .exhausted _ => .exhausted
  | .error (.jump _) _ => .exhausted

/-- The store behind a run: the scope of the program is cleared, unless the run crashed. -/
def storeBehind (frame : Nat) : EStateM.Result Halt (Progress ω) (Option Value) → Store
  | .error (.crashed _) p => p.store
  | result => (lastState result).store.clearFrame frame

/-- The run that a result of its program makes. -/
def conclude (frame : Nat) (result : EStateM.Result Halt (Progress ω) (Option Value)) : Run ω where
  started := true
  outputs := (lastState result).outputs.reverse
  ending := endingOf result
  store := storeBehind frame result
  steps := (lastState result).steps
  aborted := (lastState result).aborted
  interrupted := (lastState result).interrupted

/-! ## Programs -/

/-- What a whole program may come to: no jump leaves it, and at its end it has not been aborted. -/
def Settled {α : Type} : EStateM.Result Halt (Progress ω) α → Prop
  | .ok _ q => q.aborted = false
  | .error (.jump _) _ => False
  | .error _ _ => True

theorem runWithin_ne_jump (s : Setting ω) (n : Nat) (x : Stmt) (env : Env) (calls : Nat)
    (p q : Progress ω) (flow : Flow) : runWithin s n x env calls p ≠ .error (.jump flow) q := by
  cases n with
  | zero => exact fun h => nomatch h
  | succ n =>
      intro h
      change land _ p = _ at h
      rw [land_apply] at h
      split at h
      · cases h
      · next hjump => exact hjump _ _ h

theorem settled_check {α : Type} (a : α) (p : Progress ω) :
    Settled ((checkAborted >>= fun _ => pure a : Eval ω α) p) := by
  rw [bind_apply, checkAborted_apply]
  cases hp : p.aborted with
  | true => trivial
  | false => exact hp

theorem settled_runProgram (s : Setting ω) (n : Nat) (env : Env) (program : List Stmt)
    (last : Option Value) (p : Progress ω) : Settled (runProgram s n env last program p) := by
  induction program generalizing last p with
  | nil => exact settled_check last p
  | cons x rest ih =>
      have hx := runWithin_ne_jump s n x env 0 p
      unfold runProgram
      rw [bind_apply]
      cases hr : runWithin s n x env 0 p with
      | ok flow q =>
          cases flow with
          | next value => exact ih value q
          | back value => exact settled_check (some value) q
          | leave | again => trivial
      | error halt q =>
          cases halt with
          | jump flow => exact (hx q flow hr).elim
          | _ => trivial

namespace Interpreter

/-- An interpreter under other limits. -/
def under (i : Interpreter) (limits : Limits) : Interpreter :=
  { i with limits }

/-- The setting of the runs of an interpreter. -/
def setting (i : Interpreter) (interruption : Option Interruption) (record : Store → Value → ω) :
    Setting ω :=
  { limits := i.limits, interruption, record, rounds := maxRounds i.limits }

/-- What a program comes to in its new scope. -/
def result (i : Interpreter) (interruption : Option Interruption) (record : Store → Value → ω)
    (store : Store) (program : List Stmt) : EStateM.Result Halt (Progress ω) (Option Value) :=
  runProgram (i.setting interruption record) (budget i.limits)
    ⟨(store.newFrame []).1, [i.globals]⟩ none program { store := (store.newFrame []).2 }

theorem run_of_aborted {i : Interpreter} (h : i.aborted = true)
    (interruption : Option Interruption) (record : Store → Value → ω) (store : Store)
    (program : List Stmt) :
    i.run interruption record store program =
      { started := false, outputs := [], ending := .aborted, store, steps := 0, aborted := true,
        interrupted := false } := by
  rw [run, if_pos h]

theorem run_eq_conclude {i : Interpreter} (h : i.aborted = false)
    (interruption : Option Interruption) (record : Store → Value → ω) (store : Store)
    (program : List Stmt) :
    i.run interruption record store program =
      conclude (store.newFrame []).1 (i.result interruption record store program) := by
  rw [run, if_neg (by simp [h])]
  change (match i.result interruption record store program with
    | .ok last p => _
    | .error (.fault fault) p => _
    | .error .aborted p => _
    | .error (.crashed message) p => _
    | .error .exhausted p => _
    | .error (.jump _) p => _) = _
  rcases i.result interruption record store program with ⟨_, _⟩ | ⟨halt, _⟩
  · rfl
  · cases halt <;> rfl

end Interpreter

end ScriptLab.Machine
