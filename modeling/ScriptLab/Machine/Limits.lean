/-!
# Limits

The limits that apply to each run of a program.
-/

namespace ScriptLab.Machine

/-- The limits of a run. -/
structure Limits where
  /-- How many steps a run may take; without bound if absent. -/
  maxSteps : Option Nat := none
  /-- How many calls of functions may be open at once. -/
  maxCalls : Nat := 64
  /-- A run lets others go on each time its steps reach a multiple of this; never for zero. -/
  yieldInterval : Nat := 256
deriving DecidableEq

end ScriptLab.Machine
