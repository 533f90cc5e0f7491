import ScriptLab.Proofs.Machine.Discipline

/-!
# Runs only move forward

Outputs, steps and pauses only grow, a run that goes on is within its limit on steps, and one that
has been aborted changes nothing but the store on its way out. All actions of the evaluator are of
this kind, under every setting.
-/

namespace ScriptLab.Machine

open Program
open Text (Pos)

variable {ω : Type} {α β : Type}

/-! ## States -/

/-- What every action does to the state of a run at the least. -/
structure Advance (p q : Progress ω) : Prop where
  outputs : p.outputs <:+ q.outputs
  steps : p.steps ≤ q.steps
  pauses : p.pauses ≤ q.pauses
  /-- Nothing but the store changes behind an abort. -/
  frozen : p.aborted = true → ∃ store, q = { p with store }

namespace Advance

theorem refl (p : Progress ω) : Advance p p :=
  ⟨List.suffix_rfl, Nat.le_refl _, Nat.le_refl _, fun _ => ⟨p.store, rfl⟩⟩

theorem trans {p q r : Progress ω} (h : Advance p q) (h' : Advance q r) : Advance p r where
  outputs := h.outputs.trans h'.outputs
  steps := Nat.le_trans h.steps h'.steps
  pauses := Nat.le_trans h.pauses h'.pauses
  frozen hp := by
    obtain ⟨store, rfl⟩ := h.frozen hp
    exact h'.frozen hp

theorem withStore (p : Progress ω) (store : Store) : Advance p { p with store } :=
  ⟨List.suffix_rfl, Nat.le_refl _, Nat.le_refl _, fun _ => ⟨store, rfl⟩⟩

/-- A run that has not been aborted may do anything that only adds. -/
theorem of_running {p q : Progress ω} (hp : p.aborted = false) (ho : p.outputs <:+ q.outputs)
    (hs : p.steps ≤ q.steps) (hw : p.pauses ≤ q.pauses) : Advance p q :=
  ⟨ho, hs, hw, fun h => by rw [hp] at h; contradiction⟩

end Advance

/-! ## Actions -/

/-- Whether a run has been stopped for too many steps. -/
def Halt.isSpent : Halt → Prop
  | .fault f => f.cause = .stepsExceeded
  | _ => False

/-- A result other than a stop for too many steps. -/
def Unspent : EStateM.Result Halt (Progress ω) α → Prop
  | .ok _ _ => True
  | .error halt _ => ¬halt.isSpent

/-- An action that only moves forward. -/
structure Forward (s : Setting ω) (m : Eval ω α) : Prop where
  advance : ∀ p, Advance p (lastState (m p))
  /-- Only the fault that says so leaves the limit on steps behind. -/
  metered : ∀ p n, s.limits.maxSteps = some n → p.steps ≤ n → Unspent (m p) →
    (lastState (m p)).steps ≤ n

namespace Forward

variable {s : Setting ω}

theorem bind {m : Eval ω α} {f : α → Eval ω β} (hm : Forward s m) (hf : ∀ a, Forward s (f a)) :
    Forward s (m >>= f) where
  advance p := by
    have h := hm.advance p
    cases hr : m p with
    | ok a q =>
        rw [hr] at h
        rw [bind_of_ok hr]
        exact h.trans ((hf a).advance q)
    | error halt q =>
        rw [hr] at h
        rw [bind_of_error hr]
        exact h
  metered p n hn hp hspent := by
    have h := hm.metered p n hn hp
    cases hr : m p with
    | ok a q =>
        rw [hr] at h
        rw [bind_of_ok hr] at hspent ⊢
        exact (hf a).metered q n hn (h trivial) hspent
    | error halt q =>
        rw [hr] at h
        rw [bind_of_error hr] at hspent ⊢
        exact h hspent

theorem quiet {m : Eval ω α} (hm : Quiet m) : Forward s m := by
  have hlast : ∀ p, ∃ store, lastState (m p) = { p with store } := by
    intro p
    rcases hm p.store with ⟨a, store, _, h⟩ | ⟨halt, _, h⟩
    · exact ⟨store, by rw [h p rfl]; rfl⟩
    · exact ⟨p.store, by rw [h p rfl]; rfl⟩
  constructor
  · intro p
    obtain ⟨store, h⟩ := hlast p
    rw [h]
    exact Advance.withStore p store
  · intro p n _ hp _
    obtain ⟨store, h⟩ := hlast p
    rw [h]
    exact hp

theorem create (f : Store → α × Store) : Forward s (Machine.create f : Eval ω α) where
  advance p := Advance.withStore p (f p.store).2
  metered _ _ _ hp _ := hp

theorem throw (halt : Halt) : Forward s (throw halt : Eval ω α) where
  advance p := Advance.refl p
  metered _ _ _ hp _ := hp

theorem land {m : Eval ω Flow} (hm : Forward s m) : Forward s (Machine.land m) where
  advance p := by
    rw [lastState_land]
    exact hm.advance p
  metered p n hn hp hspent := by
    rw [lastState_land]
    refine hm.metered p n hn hp ?_
    rw [land_apply] at hspent
    cases hr : m p with
    | ok a q => trivial
    | error halt q =>
        rw [hr] at hspent
        cases halt with
        | jump flow => exact not_false
        | _ => exact hspent

/-- An action that adds to a run that goes on and leaves an aborted one alone, with no fault of
its own. -/
theorem of_unspent {m : Eval ω α}
    (hrun : ∀ p, p.aborted = false → p.outputs <:+ (lastState (m p)).outputs ∧
      (lastState (m p)).steps = p.steps ∧ p.pauses ≤ (lastState (m p)).pauses)
    (hstill : ∀ p, p.aborted = true → lastState (m p) = p) : Forward s m where
  advance p := by
    cases hp : p.aborted with
    | false =>
        obtain ⟨ho, hs, hw⟩ := hrun p hp
        exact Advance.of_running hp ho (Nat.le_of_eq hs.symm) hw
    | true =>
        rw [hstill p hp]
        exact Advance.refl p
  metered p n _ hle _ := by
    cases hp : p.aborted with
    | false => rw [(hrun p hp).2.1]; exact hle
    | true => rw [hstill p hp]; exact hle

theorem check : Forward s checkAborted := by
  refine of_unspent (fun p _ => ?_) (fun p _ => lastState_checkAborted p)
  rw [lastState_checkAborted]
  exact ⟨List.suffix_rfl, rfl, Nat.le_refl _⟩

/-! ## The actions with limits and interruptions -/

/-- What an interruption may do to a state: flags change, and nothing else. -/
theorem lastState_interrupt (due : Cue → Progress ω → Bool) (p : Progress ω) :
    ∃ aborted interrupted, lastState (s.interrupt due p) = { p with aborted, interrupted } := by
  unfold Setting.interrupt
  cases s.interruption with
  | none => exact ⟨p.aborted, p.interrupted, rfl⟩
  | some i =>
      dsimp only
      split
      · cases i.effect
        · exact ⟨true, true, rfl⟩
        · exact ⟨p.aborted, true, rfl⟩
        · exact ⟨p.aborted, true, rfl⟩
      · exact ⟨p.aborted, p.interrupted, rfl⟩

theorem lastState_pause (p : Progress ω) :
    ∃ aborted interrupted, lastState (s.pause p) =
      { p with pauses := p.pauses + 1, aborted, interrupted } := by
  rw [Setting.pause_apply]
  obtain ⟨aborted, interrupted, h⟩ :=
    lastState_interrupt (s := s) Setting.pauseDue { p with pauses := p.pauses + 1 }
  refine ⟨aborted, interrupted, ?_⟩
  rw [← h]
  cases s.interrupt Setting.pauseDue { p with pauses := p.pauses + 1 } with
  | ok a q => dsimp only; split <;> rfl
  | error halt q => rfl

theorem store_emit (v : Value) (p : Progress ω) : (lastState (s.emit v p)).store = p.store := by
  rw [Setting.emit_apply]
  split
  · rfl
  · obtain ⟨_, _, h⟩ := lastState_interrupt (s := s) Setting.outputDue
      { p with outputs := s.record p.store v :: p.outputs }
    rw [h]

theorem store_sleep (millis : Nat) (p : Progress ω) :
    (lastState (s.sleep millis p)).store = p.store := by
  rw [Setting.sleep_apply]
  split
  · rfl
  · obtain ⟨_, _, h⟩ := lastState_pause (s := s) { p with asleep := p.asleep + 1000 * millis }
    rw [h]

theorem emit (v : Value) : Forward s (s.emit v) := by
  refine of_unspent (fun p hp => ?_) (fun p hp => ?_)
  · rw [Setting.emit_apply, if_neg (by simp [hp])]
    obtain ⟨_, _, h⟩ := lastState_interrupt (s := s) Setting.outputDue
      { p with outputs := s.record p.store v :: p.outputs }
    rw [h]
    exact ⟨List.suffix_cons _ _, rfl, Nat.le_refl _⟩
  · rw [Setting.emit_apply, if_pos hp]
    rfl

theorem sleep (millis : Nat) : Forward s (s.sleep millis) := by
  refine of_unspent (fun p hp => ?_) (fun p hp => ?_)
  · rw [Setting.sleep_apply, if_neg (by simp [hp])]
    obtain ⟨_, _, h⟩ := lastState_pause (s := s) { p with asleep := p.asleep + 1000 * millis }
    rw [h]
    exact ⟨List.suffix_rfl, rfl, Nat.le_succ _⟩
  · rw [Setting.sleep_apply, if_pos hp]
    rfl

theorem step_of_spent {p : Progress ω} {n : Nat} (pos : Pos) (hp : p.aborted = false)
    (hn : s.limits.maxSteps = some n) (hlt : n < p.steps + 1) :
    s.step pos p = .error (.fault ⟨.stepsExceeded, pos⟩) { p with steps := p.steps + 1 } := by
  rw [Setting.step_apply, if_neg (by simp [hp]), if_pos (by simpa [hn] using hlt)]

/-- A step within the limit is made at once, or others may go on first. -/
theorem step_of_unspent {p : Progress ω} (pos : Pos) (hp : p.aborted = false)
    (hn : ∀ n, s.limits.maxSteps = some n → p.steps + 1 ≤ n) :
    s.step pos p = if s.yieldsAt (p.steps + 1) then s.pause { p with steps := p.steps + 1 }
      else .ok () { p with steps := p.steps + 1 } := by
  have hany : s.limits.maxSteps.any (· < p.steps + 1) = false := by
    cases hm : s.limits.maxSteps with
    | none => rfl
    | some n =>
        have := hn n hm
        simp only [Option.any_some, decide_eq_false_iff_not]
        omega
  rw [Setting.step_apply, if_neg (by simp [hp]), if_neg (Bool.eq_false_iff.1 hany)]

theorem step_of_aborted {p : Progress ω} (pos : Pos) (hp : p.aborted = true) :
    s.step pos p = .error .aborted p := by
  rw [Setting.step_apply, if_pos hp]

/-- A limit on steps is met by the next step, or leaves room for it. -/
theorem spent_or_unspent (s : Setting ω) (p : Progress ω) :
    (∃ n, s.limits.maxSteps = some n ∧ n < p.steps + 1) ∨
      ∀ n, s.limits.maxSteps = some n → p.steps + 1 ≤ n := by
  cases hm : s.limits.maxSteps with
  | none => exact .inr fun n hn => nomatch hn
  | some n =>
      rcases Nat.lt_or_ge n (p.steps + 1) with h | h
      · exact .inl ⟨n, rfl, h⟩
      · refine .inr fun k hk => ?_
        cases hk
        exact h

theorem lastState_step_of_unspent {p : Progress ω} (pos : Pos) (hp : p.aborted = false)
    (hn : ∀ n, s.limits.maxSteps = some n → p.steps + 1 ≤ n) :
    ∃ pauses aborted interrupted, p.pauses ≤ pauses ∧ lastState (s.step pos p) =
      { p with steps := p.steps + 1, pauses, aborted, interrupted } := by
  rw [step_of_unspent pos hp hn]
  split
  · obtain ⟨aborted, interrupted, h⟩ := lastState_pause (s := s) { p with steps := p.steps + 1 }
    exact ⟨p.pauses + 1, aborted, interrupted, Nat.le_succ _, h⟩
  · exact ⟨p.pauses, p.aborted, p.interrupted, Nat.le_refl _, rfl⟩

theorem store_step (pos : Pos) (p : Progress ω) : (lastState (s.step pos p)).store = p.store := by
  cases hp : p.aborted with
  | true =>
      rw [step_of_aborted pos hp]
      rfl
  | false =>
      rcases spent_or_unspent s p with ⟨n, hn, hlt⟩ | hn
      · rw [step_of_spent pos hp hn hlt]
        rfl
      · obtain ⟨_, _, _, _, h⟩ := lastState_step_of_unspent pos hp hn
        rw [h]

theorem step (pos : Pos) : Forward s (s.step pos) where
  advance p := by
    cases hp : p.aborted with
    | true =>
        rw [step_of_aborted pos hp]
        exact Advance.refl p
    | false =>
        rcases spent_or_unspent s p with ⟨n, hn, hlt⟩ | hn
        · rw [step_of_spent pos hp hn hlt]
          exact Advance.of_running hp List.suffix_rfl (Nat.le_succ _) (Nat.le_refl _)
        · obtain ⟨_, _, _, hw, h⟩ := lastState_step_of_unspent pos hp hn
          rw [h]
          exact Advance.of_running hp List.suffix_rfl (Nat.le_succ _) hw
  metered p n hn hle hspent := by
    cases hp : p.aborted with
    | true =>
        rw [step_of_aborted pos hp]
        exact hle
    | false =>
        rcases spent_or_unspent s p with ⟨k, hk, hlt⟩ | hfree
        · rw [step_of_spent pos hp hk hlt] at hspent
          exact (hspent rfl).elim
        · obtain ⟨_, _, _, _, h⟩ := lastState_step_of_unspent pos hp hfree
          rw [h]
          exact hfree n hn

/-! ## Calls and loops -/

theorem guard {m : Eval ω α} (calls : Nat) (pos : Pos)
    (hm : calls < s.limits.maxCalls → Forward s m) :
    Forward s (if s.limits.maxCalls ≤ calls then Machine.raise .callsExceeded pos >>= fun _ : PUnit => m
      else m) := by
  by_cases hc : s.limits.maxCalls ≤ calls
  · rw [if_pos hc]
    exact .quiet (Quiet.raise_bind _ _ _)
  · rw [if_neg hc]
    exact hm (Nat.lt_of_not_le hc)

theorem loop {e : Evaluators ω} {body : List Stmt} {env : Env} {calls : Nat} (pos : Pos)
    (h : Forward s (e.block [] body env calls)) (rounds : Nat) :
    Forward s (e.loop s body pos env calls rounds) := by
  induction rounds with
  | zero => exact throw _
  | succ n ih =>
      refine bind h fun flow => ?_
      cases flow with
      | leave => exact quiet (Quiet.pure _)
      | back value => exact quiet (Quiet.pure _)
      | next value => exact bind (step pos) fun _ => ih
      | again => exact bind (step pos) fun _ => ih

/-! ## The evaluator -/

/-- Moving forward is a discipline. -/
def discipline (s : Setting ω) : Discipline fun _ : Unit => s where
  Holds m := Forward s (m ())
  Known _ := True
  quiet := .quiet
  bind := .bind
  land := .land
  check := .check
  emit := .emit
  sleep := .sleep
  step := .step
  closure _ _ _ _ := .create _
  callable _ _ h := .bind (.quiet (Quiet.look _)) fun c => h c fun _ _ _ _ => trivial
  guard calls pos _ h := .guard calls pos fun hc => h ⟨(), hc⟩
  loop _ _ pos _ _ h := .loop pos h _

theorem runWithin (s : Setting ω) (n : Nat) (x : Stmt) (env : Env) (calls : Nat) :
    Forward s (Machine.runWithin s n x env calls) :=
  ((discipline s).within (fun _ => trivial) (.throw _) n).1 x env calls

theorem evalWithin (s : Setting ω) (n : Nat) (x : Expr) (env : Env) (calls : Nat) :
    Forward s (Machine.evalWithin s n x env calls) :=
  ((discipline s).within (fun _ => trivial) (.throw _) n).2 x env calls

theorem runProgram (s : Setting ω) (n : Nat) (env : Env) (last : Option Value)
    (program : List Stmt) : Forward s (Machine.runProgram s n env last program) :=
  Discipline.program (D := discipline s) (fun _ => n)
    (fun x _ env => runWithin s n x env 0) last env

end Forward

end ScriptLab.Machine
