import ScriptLab.Proofs.Machine.Interruption

/-!
# Moments of a run

A run that is stopped dead at a point shows the store as it is there. The same program stopped at
different points, and left to itself, shows the moments of one run: all that becomes of the scopes is
one history, and the moments lie on it in a line.
-/

namespace ScriptLab.Machine

open Program
open Text (Pos)

variable {ω : Type} {α β : Type}

/-- The interruption that stops a run dead at a point. -/
def Cue.stop (cue : Cue) : Option Interruption :=
  some ⟨cue, .crash none⟩

/-- The interruptions of a run that can be compared with stopping it at a point: none, stopping it at
another point, and doing something else at this one. -/
inductive Cue.Beside (cue : Cue) : Option Interruption → Prop
  | undisturbed : Cue.Beside cue none
  | stop (other : Cue) : Cue.Beside cue other.stop
  | effect (effect : Effect) : Cue.Beside cue (some ⟨cue, effect⟩)

/-- A setting with another interruption. -/
def Setting.disturbed (s : Setting ω) (interruption : Option Interruption) : Setting ω :=
  { s with interruption }

/-- The first of two results is the second one, before any interruption, or it was stopped at a moment
on the way there. -/
inductive Leads : EStateM.Result Halt (Progress ω) α → EStateM.Result Halt (Progress ω) α → Prop
  | same {r : EStateM.Result Halt (Progress ω) α} (h : (lastState r).interrupted = false) : Leads r r
  | stopped {q : Progress ω} {r : EStateM.Result Halt (Progress ω) α}
      (h : History q.store (lastState r).store) : Leads (.error (.crashed none) q) r

/-- One of two results is on the way to the other one. -/
def InLine (r r' : EStateM.Result Halt (Progress ω) α) : Prop :=
  Leads r r' ∨ Leads r' r

/-- An action under all interruptions: what becomes of the scopes is a history, and where it is stopped
is on the way to where it comes otherwise. -/
structure Traced (m : Option Interruption → Eval ω α) : Prop where
  history : ∀ (i : Option Interruption) (p : Progress ω), History p.store (lastState (m i p)).store
  inLine : ∀ (cue : Cue) (i : Option Interruption) (p : Progress ω), cue.Beside i →
    p.interrupted = false → InLine (m cue.stop p) (m i p)

/-! ## Sequencing -/

theorem Leads.history {r r' : EStateM.Result Halt (Progress ω) α} (h : Leads r r') :
    History (lastState r).store (lastState r').store := by
  cases h with
  | same => exact .refl
  | stopped h => exact h

namespace Traced

theorem history_bind {m : Option Interruption → Eval ω α} {f : Option Interruption → α → Eval ω β}
    (hf : ∀ a, Traced fun i => f i a) (i : Option Interruption) (p : Progress ω) :
    History (lastState (m i p)).store (lastState ((m i >>= f i) p)).store := by
  cases hr : m i p with
  | ok a q =>
      rw [bind_of_ok hr]
      exact (hf a).history i q
  | error halt q =>
      rw [bind_of_error hr]
      exact .refl

/-- What was stopped stays so, on the way to wherever the other one goes on to. -/
theorem leads_bind {m : Option Interruption → Eval ω α} {f : Option Interruption → α → Eval ω β}
    (hf : ∀ a, Traced fun i => f i a) {i j : Option Interruption} {p : Progress ω}
    (h : Leads (m i p) (m j p))
    (hsame : ∀ a q, q.interrupted = false → InLine (f i a q) (f j a q)) :
    InLine ((m i >>= f i) p) ((m j >>= f j) p) := by
  have hbehind := history_bind (m := m) hf j p
  generalize hr : m i p = r at h
  generalize hr' : m j p = r' at h hbehind
  cases h with
  | same hwaiting =>
      cases r with
      | ok a q =>
          rw [bind_of_ok hr, bind_of_ok hr']
          exact hsame a q hwaiting
      | error halt q =>
          rw [bind_of_error hr, bind_of_error hr']
          exact .inl (.same hwaiting)
  | stopped h =>
      rw [bind_of_error hr]
      exact .inl (.stopped (h.trans hbehind))

theorem bind {m : Option Interruption → Eval ω α} {f : Option Interruption → α → Eval ω β}
    (hm : Traced m) (hf : ∀ a, Traced fun i => f i a) : Traced fun i => m i >>= f i where
  history i p := (hm.history i p).trans (history_bind hf i p)
  inLine cue i p hi hp := by
    rcases hm.inLine cue i p hi hp with h | h
    · exact leads_bind hf h fun a q hq => (hf a).inLine cue i q hi hq
    · exact (leads_bind hf h fun a q hq => ((hf a).inLine cue i q hi hq).symm).symm

/-- An action that takes no notice of interruptions. -/
theorem of_same {m : Eval ω α} (hhistory : ∀ p, History p.store (lastState (m p)).store)
    (hnotice : ∀ p, (lastState (m p)).interrupted = p.interrupted) : Traced fun _ => m where
  history _ p := hhistory p
  inLine _ _ p _ hp := .inl (.same ((hnotice p).trans hp))

theorem quiet {m : Eval ω α} (hm : Quiet m) : Traced fun _ => m := by
  refine of_same (fun p => ?_) fun p => ?_
  all_goals rcases hm p.store with ⟨a, after, hafter, h⟩ | ⟨halt, _, h⟩
  · rw [h p rfl]
    exact .single hafter.scopes
  · rw [h p rfl]
    exact .refl
  · rw [h p rfl]
    rfl
  · rw [h p rfl]
    rfl

theorem throw (halt : Halt) : Traced fun _ => (throw halt : Eval ω α) :=
  of_same (fun _ => .refl) fun _ => rfl

/-- A function is kept apart from the scopes. -/
theorem closure (callable : Callable) :
    Traced fun _ => (create (·.newCallable callable) : Eval ω Value) :=
  of_same (fun _ => .single (.none rfl)) fun _ => rfl

theorem modify {f : Progress ω → Progress ω} (hstore : ∀ p, (f p).store = p.store)
    (hnotice : ∀ p, (f p).interrupted = p.interrupted) :
    Traced fun _ => (modify f : Eval ω PUnit) :=
  of_same (fun p => by rw [modify_apply, lastState_ok, hstore]) hnotice

theorem land {m : Option Interruption → Eval ω Flow} (hm : Traced m) :
    Traced fun i => Machine.land (m i) where
  history i p := by
    rw [lastState_land]
    exact hm.history i p
  inLine cue i p hi hp := by
    have hleads : ∀ {i j}, Leads (m i p) (m j p) →
        Leads (Machine.land (m i) p) (Machine.land (m j) p) := by
      intro i j h
      have hlast := lastState_land (m j) p
      rw [land_apply] at hlast ⊢
      rw [land_apply]
      generalize m i p = r at h
      generalize m j p = r' at h hlast
      cases h with
      | same hwaiting => exact .same (by rw [hlast]; exact hwaiting)
      | stopped h => exact .stopped (by rw [hlast]; exact h)
    exact (hm.inLine cue i p hi hp).imp hleads hleads

/-! ## The actions at which a run may be interrupted -/

theorem check : Traced fun _ => (checkAborted : Eval ω Unit) := by
  refine of_same (fun p => ?_) fun p => ?_
  all_goals rw [lastState_checkAborted]

variable (s : Setting ω)

theorem interrupt (due : Cue → Progress ω → Bool) :
    Traced fun i => (s.disturbed i).interrupt due where
  history i p := by
    obtain ⟨_, _, h⟩ := Forward.lastState_interrupt (s := s.disturbed i) due p
    rw [h]
  inLine cue i p hi hp := by
    -- Where it is not yet due, nothing happens.
    have hearly : ∀ {other : Cue} (effect : Effect), due other p = false →
        (s.disturbed (some ⟨other, effect⟩)).interrupt due p = .ok () p := by
      intro other effect hdue
      simp [Setting.interrupt, Setting.disturbed, hdue]
    have hlate : ∀ {other : Cue}, due other p = true →
        (s.disturbed other.stop).interrupt due p =
          .error (.crashed none) { p with interrupted := true } := by
      intro other hdue
      simp [Setting.interrupt, Setting.disturbed, Cue.stop, hp, hdue]
    have hleads : ∀ {other : Cue} (i : Option Interruption), due other p = true →
        Leads ((s.disturbed other.stop).interrupt due p) ((s.disturbed i).interrupt due p) := by
      intro other i hdue
      obtain ⟨_, _, h⟩ := Forward.lastState_interrupt (s := s.disturbed i) due p
      rw [hlate hdue]
      exact .stopped (by rw [h])
    by_cases hdue : due cue p = true
    · exact .inl (hleads i hdue)
    have hrest : (s.disturbed cue.stop).interrupt due p = .ok () p :=
      hearly (.crash none) (by simpa using hdue)
    cases hi with
    | undisturbed =>
        rw [hrest]
        exact .inl (.same hp)
    | stop other =>
        by_cases hother : due other p = true
        · exact .inr (hleads cue.stop hother)
        · have hrest' : (s.disturbed other.stop).interrupt due p = .ok () p :=
            hearly (.crash none) (by simpa using hother)
          rw [hrest, hrest']
          exact .inl (.same hp)
    | effect effect =>
        rw [hrest, hearly effect (by simpa using hdue)]
        exact .inl (.same hp)

theorem pause : Traced fun i => (s.disturbed i).pause := by
  refine bind (modify ?_ ?_) fun _ => bind (interrupt s Setting.pauseDue) fun _ => check
  all_goals exact fun _ => rfl

theorem sleep (millis : Nat) : Traced fun i => (s.disturbed i).sleep millis := by
  refine bind check fun _ => bind (modify ?_ ?_) fun _ => pause s
  all_goals exact fun _ => rfl

theorem emit (v : Value) : Traced fun i => (s.disturbed i).emit v := by
  refine ⟨fun i p => ?_, fun cue i p hi hp => ?_⟩
  · rw [Setting.emit_apply]
    split
    · exact .refl
    · exact (interrupt s Setting.outputDue).history i
        { p with outputs := s.record p.store v :: p.outputs }
  · rw [Setting.emit_apply, Setting.emit_apply]
    split
    · exact .inl (.same hp)
    · exact (interrupt s Setting.outputDue).inLine cue i
        { p with outputs := s.record p.store v :: p.outputs } hi hp

theorem step (pos : Pos) : Traced fun i => (s.disturbed i).step pos := by
  have hstep : ∀ i p, (s.disturbed i).step pos p = if p.aborted then .error .aborted p
      else if s.limits.maxSteps.any (· < p.steps + 1) then
        .error (.fault ⟨.stepsExceeded, pos⟩) { p with steps := p.steps + 1 }
      else if s.yieldsAt (p.steps + 1) then (s.disturbed i).pause { p with steps := p.steps + 1 }
      else .ok () { p with steps := p.steps + 1 } :=
    fun i p => Setting.step_apply (s.disturbed i) pos p
  refine ⟨fun i p => ?_, fun cue i p hi hp => ?_⟩
  · rw [hstep]
    split
    · exact .refl
    split
    · exact .refl
    split
    · exact (pause s).history i { p with steps := p.steps + 1 }
    · exact .refl
  · rw [hstep, hstep]
    split
    · exact .inl (.same hp)
    split
    · exact .inl (.same hp)
    split
    · exact (pause s).inLine cue i { p with steps := p.steps + 1 } hi hp
    · exact .inl (.same hp)

/-! ## The evaluator -/

/-- Lying in line under all interruptions is a discipline. -/
def discipline : Discipline s.disturbed where
  Holds m := Traced m
  Known _ := True
  quiet := .quiet
  bind := .bind
  land := .land
  check := .check
  emit := emit s
  sleep := sleep s
  step := step s
  closure _ _ _ _ := closure _
  callable _ _ h := .bind (.quiet (Quiet.look _)) fun c => h c fun _ _ _ _ => trivial
  guard calls pos _ h :=
    guard_rule Traced s.disturbed (fun _ => rfl) calls pos
      (quiet (Quiet.raise .callsExceeded pos)) fun hc => h ⟨none, hc⟩
  loop e body pos env calls h :=
    loop_rule Traced s.disturbed e body pos env calls (fun _ => .quiet (Quiet.pure _)) (.throw _) .bind
      (fun hm => (step s pos).bind fun _ => hm) h s.rounds

theorem program (n : Nat) (env : Env) (last : Option Value) (program : List Stmt) :
    Traced fun i => runProgram (s.disturbed i) n env last program :=
  Discipline.program (D := discipline s) (fun _ => n)
    (fun x _ env => ((discipline s).within (fun _ => trivial) (.throw _) n).1 x env 0) last env

end Traced

end ScriptLab.Machine
