import ScriptLab.Machine.Interpreter

/-!
# Actions as functions on states

What the actions of a run do, as equations at a state: sequencing first, then the few actions that
look at the limits or let the world outside in.
-/

namespace ScriptLab.Machine

open Text (Pos)

variable {ω : Type} {α β : Type}

/-! ## Sequencing -/

theorem bind_apply (m : Eval ω α) (f : α → Eval ω β) (p : Progress ω) :
    (m >>= f) p = match m p with
      | .ok a q => f a q
      | .error h q => .error h q := by
  change EStateM.bind m f p = _
  unfold EStateM.bind
  rcases m p with ⟨_, _⟩ | ⟨_, _⟩ <;> rfl

@[simp] theorem pure_apply (a : α) (p : Progress ω) : (pure a : Eval ω α) p = .ok a p := rfl

@[simp] theorem raise_apply (cause : Program.Cause) (pos : Pos) (p : Progress ω) :
    (raise cause pos : Eval ω α) p = .error (.fault ⟨cause, pos⟩) p := rfl

@[simp] theorem get_apply (p : Progress ω) : (get : Eval ω (Progress ω)) p = .ok p p := rfl

@[simp] theorem modify_apply (f : Progress ω → Progress ω) (p : Progress ω) :
    (modify f : Eval ω PUnit) p = .ok ⟨⟩ (f p) := rfl

theorem checkAborted_apply (p : Progress ω) :
    checkAborted p = if p.aborted then .error .aborted p else .ok () p := rfl

theorem bind_of_ok {m : Eval ω α} {p q : Progress ω} {a : α} (h : m p = .ok a q)
    (f : α → Eval ω β) : (m >>= f) p = f a q := by
  rw [bind_apply, h]

theorem bind_of_error {m : Eval ω α} {p q : Progress ω} {halt : Halt} (h : m p = .error halt q)
    (f : α → Eval ω β) : (m >>= f) p = .error halt q := by
  rw [bind_apply, h]

theorem land_apply (m : Eval ω Flow) (p : Progress ω) :
    land m p = match m p with
      | .error (.jump flow) q => .ok flow q
      | result => result := by
  unfold land
  rcases m p with ⟨_, _⟩ | ⟨h, _⟩
  · rfl
  · cases h <;> rfl

/-- The state in which an action ends. -/
def lastState : EStateM.Result Halt (Progress ω) α → Progress ω
  | .ok _ p => p
  | .error _ p => p

@[simp] theorem lastState_ok (a : α) (p : Progress ω) :
    lastState (.ok a p : EStateM.Result Halt (Progress ω) α) = p := rfl

theorem lastState_checkAborted (p : Progress ω) : lastState (checkAborted p) = p := by
  rw [checkAborted_apply]
  split <;> rfl

theorem lastState_land (m : Eval ω Flow) (p : Progress ω) :
    lastState (land m p) = lastState (m p) := by
  rw [land_apply]
  rcases m p with ⟨_, _⟩ | ⟨h, _⟩
  · rfl
  · cases h <;> rfl

/-! ## Steps, outputs and pauses -/

namespace Setting

variable (s : Setting ω)

theorem emit_apply (v : Value) (p : Progress ω) :
    s.emit v p = if p.aborted then .ok () p
      else s.interrupt outputDue { p with outputs := s.record p.store v :: p.outputs } := by
  unfold emit
  cases h : p.aborted <;> simp [bind_apply, h]

theorem pause_apply (p : Progress ω) :
    s.pause p = match s.interrupt pauseDue { p with pauses := p.pauses + 1 } with
      | .ok _ q => if q.aborted then .error .aborted q else .ok () q
      | .error h q => .error h q := by
  unfold pause
  simp only [bind_apply, modify_apply, checkAborted_apply]
  rcases s.interrupt pauseDue { p with pauses := p.pauses + 1 } with ⟨_, _⟩ | ⟨_, _⟩ <;> rfl

theorem sleep_apply (millis : Nat) (p : Progress ω) :
    s.sleep millis p = if p.aborted then .error .aborted p
      else s.pause { p with asleep := p.asleep + 1000 * millis } := by
  unfold sleep
  cases h : p.aborted <;> simp [bind_apply, checkAborted_apply, h]

/-- Whether a step is the last one before others may go on. -/
def yieldsAt (steps : Nat) : Prop :=
  s.limits.yieldInterval ≠ 0 ∧ steps % s.limits.yieldInterval = 0

instance (steps : Nat) : Decidable (s.yieldsAt steps) :=
  inferInstanceAs (Decidable (_ ∧ _))

theorem step_apply (pos : Pos) (p : Progress ω) :
    s.step pos p = if p.aborted then .error .aborted p
      else if s.limits.maxSteps.any (· < p.steps + 1) then
        .error (.fault ⟨.stepsExceeded, pos⟩) { p with steps := p.steps + 1 }
      else if s.yieldsAt (p.steps + 1) then s.pause { p with steps := p.steps + 1 }
      else .ok () { p with steps := p.steps + 1 } := by
  unfold step yieldsAt
  cases h : p.aborted
  · by_cases hm : s.limits.maxSteps.any (· < p.steps + 1)
    · simp only [bind_apply, checkAborted_apply, modify_apply, get_apply, raise_apply, h, hm,
        Bool.false_eq_true, ↓reduceIte]
    · by_cases hy : s.limits.yieldInterval ≠ 0 ∧ (p.steps + 1) % s.limits.yieldInterval = 0
      · simp only [bind_apply, checkAborted_apply, modify_apply, get_apply, h, hm, if_pos hy,
          Bool.false_eq_true, ↓reduceIte]
        exact (if_pos hy).symm
      · simp only [bind_apply, checkAborted_apply, modify_apply, get_apply, pure_apply, h, hm,
          if_neg hy, Bool.false_eq_true, ↓reduceIte]
        exact (if_neg hy).symm
  · simp only [bind_apply, checkAborted_apply, h, ↓reduceIte]

end Setting

end ScriptLab.Machine
