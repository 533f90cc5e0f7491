import ScriptLab.Proofs.Machine.Cancellation

/-!
# What interruptions do

A run crashes only where its interruption says so, whatever its program is. An interruption that does
nothing leaves a run as it is: it only notes whether its point has been passed.
-/

namespace ScriptLab.Machine

open Program
open Text (Pos)

variable {ω : Type} {α β : Type}

/-- A loop has a property that sequencing keeps, if its rounds and its steps have it. -/
theorem loop_rule {ι : Type} (Holds : (ι → Eval ω Flow) → Prop) (s : ι → Setting ω)
    (e : ι → Evaluators ω) (body : List Stmt) (pos : Pos) (env : Env) (calls : Nat)
    (hpure : ∀ flow, Holds fun _ => pure flow) (hexhausted : Holds fun _ => throw .exhausted)
    (hbind : ∀ {m : ι → Eval ω Flow} {f : ι → Flow → Eval ω Flow}, Holds m →
      (∀ flow, Holds fun i => f i flow) → Holds fun i => m i >>= f i)
    (hstep : ∀ {m : ι → Eval ω Flow}, Holds m → Holds fun i => (s i).step pos >>= fun _ => m i)
    (hblock : Holds fun i => (e i).block [] body env calls) (rounds : Nat) :
    Holds fun i => (e i).loop (s i) body pos env calls rounds := by
  induction rounds with
  | zero => exact hexhausted
  | succ n ih =>
      apply hbind hblock
      intro flow
      cases flow with
      | leave => exact hpure _
      | back value => exact hpure _
      | next value => exact hstep ih
      | again => exact hstep ih

/-- A call has a property, if refusing it and making it have, under settings that allow as many
calls. -/
theorem guard_rule {ι : Type} (Holds : (ι → Eval ω α) → Prop) (s : ι → Setting ω)
    {most : Nat} (hlimits : ∀ i, (s i).limits.maxCalls = most) (calls : Nat) (pos : Pos)
    {m : ι → Eval ω α} (hrefused : Holds fun i => raise .callsExceeded pos >>= fun _ : PUnit => m i)
    (hm : calls < most → Holds m) :
    Holds fun i => if (s i).limits.maxCalls ≤ calls
      then raise .callsExceeded pos >>= fun _ : PUnit => m i else m i := by
  by_cases hc : most ≤ calls
  · simpa only [hlimits, hc, if_true] using hrefused
  · simpa only [hlimits, hc, if_false] using hm (Nat.lt_of_not_le hc)

/-! ## Crashes -/

/-- An action that crashes only if its interruption does. -/
def Calm (s : Setting ω) (m : Eval ω α) : Prop :=
  ∀ p message q, m p = .error (.crashed message) q →
    ∃ i, s.interruption = some i ∧ i.effect = .crash message

namespace Calm

variable {s : Setting ω}

theorem bind {m : Eval ω α} {f : α → Eval ω β} (hm : Calm s m) (hf : ∀ a, Calm s (f a)) :
    Calm s (m >>= f) := by
  intro p message q h
  cases hr : m p with
  | ok a p' =>
      rw [bind_of_ok hr] at h
      exact hf a p' message q h
  | error halt p' =>
      rw [bind_of_error hr] at h
      cases h
      exact hm p message q hr

theorem quiet {m : Eval ω α} (hm : Quiet m) : Calm s m := by
  intro p message q h
  rcases hm p.store with ⟨a, after, _, hok⟩ | ⟨halt, hown, herror⟩
  · rw [hok p rfl] at h
    cases h
  · rw [herror p rfl] at h
    cases h
    cases hown

theorem of_halt {m : Eval ω α} (hm : ∀ p halt q, m p = .error halt q → halt.Sound s q) :
    Calm s m :=
  fun p _ q h => hm p _ q h

theorem land {m : Eval ω Flow} (hm : Calm s m) : Calm s (Machine.land m) := by
  intro p message q h
  rw [land_apply] at h
  cases hr : m p with
  | ok flow p' =>
      rw [hr] at h
      cases h
  | error halt p' =>
      rw [hr] at h
      cases halt with
      | crashed message' =>
          cases h
          exact hm p message q hr
      | _ => cases h

theorem check : Calm s checkAborted := by
  intro p message q h
  rw [checkAborted_apply] at h
  split at h <;> cases h

theorem emit (v : Value) : Calm s (s.emit v) := by
  apply of_halt
  intro p halt q h
  rw [Setting.emit_apply] at h
  split at h
  · cases h
  · exact Bounded.interrupt_halt h

theorem sleep (millis : Nat) : Calm s (s.sleep millis) := by
  intro p message q h
  rw [Setting.sleep_apply] at h
  split at h
  · cases h
  · exact Bounded.pause_halt h

theorem step (pos : Pos) : Calm s (s.step pos) := by
  intro p message q hq
  rcases Bounded.step_cases s pos p with h | h | h | ⟨_, h⟩
  · rw [h] at hq; cases hq
  · rw [h] at hq; cases hq
  · rw [h] at hq
    exact Bounded.pause_halt hq
  · rw [h] at hq; cases hq

theorem exhausted : Calm s (throw .exhausted : Eval ω α) :=
  fun _ _ _ h => nomatch h

/-- Crashing only by the interruption is a discipline. -/
def discipline (s : Setting ω) : Discipline fun _ : Unit => s where
  Holds m := Calm s (m ())
  Known _ := True
  quiet := .quiet
  bind := .bind
  land := .land
  check := .check
  emit := .emit
  sleep := .sleep
  step := .step
  closure _ _ _ _ _ _ _ h := nomatch h
  callable _ _ h := .bind (.quiet (Quiet.look _)) fun c => h c fun _ _ _ _ => trivial
  guard calls pos _ h :=
    guard_rule (fun m => Calm s (m ())) (fun _ => s) (fun _ => rfl) calls pos
      (.quiet (Quiet.raise_bind _ _ _)) fun hc => h ⟨(), hc⟩
  loop e body pos env calls h :=
    loop_rule (fun m => Calm s (m ())) (fun _ => s) e body pos env calls
      (fun _ => .quiet (Quiet.pure _)) exhausted .bind (fun hm => (step pos).bind fun _ => hm) h _

theorem program (s : Setting ω) (n : Nat) (env : Env) (last : Option Value)
    (program : List Stmt) : Calm s (runProgram s n env last program) :=
  Discipline.program (D := discipline s) (fun _ => n)
    (fun x _ env => ((discipline s).within (fun _ => trivial) exhausted n).1 x env 0) last env

end Calm

/-! ## Idle interruptions -/

/-- Whether a run has been at a point, for points other than moments. -/
def Cue.passed (cue : Cue) (p : Progress ω) : Bool :=
  match cue with
  | .output n => 1 ≤ n ∧ n ≤ p.outputs.length
  | .pause n => 1 ≤ n ∧ n ≤ p.pauses
  | .deadline _ => false

/-- Whether a point is given by a moment. -/
def Cue.isMoment : Cue → Bool
  | .deadline _ => true
  | .output _ | .pause _ => false

/-- A state that notes whether the point has been passed. -/
def Progress.noting (cue : Cue) (p : Progress ω) : Progress ω :=
  { p with interrupted := cue.passed p }

/-- A result whose state notes whether the point has been passed. -/
def noted (cue : Cue) : EStateM.Result Halt (Progress ω) α → EStateM.Result Halt (Progress ω) α
  | .ok a p => .ok a (p.noting cue)
  | .error halt p => .error halt (p.noting cue)

/-- A setting in which nothing happens, or an interruption that does nothing. -/
def Setting.idle (s : Setting ω) (cue : Cue) (watched : Bool) : Setting ω :=
  { s with interruption := if watched then some ⟨cue, .nothing⟩ else none }

/-- An action that comes to what another one does, and besides notes whether the point is passed. -/
def Idle (cue : Cue) (watched unwatched : Eval ω α) : Prop :=
  ∀ p, watched (p.noting cue) = noted cue (unwatched p)

namespace Idle

variable {s : Setting ω} {cue : Cue}

theorem bind {m m' : Eval ω α} {f f' : α → Eval ω β} (hm : Idle cue m m')
    (hf : ∀ a, Idle cue (f a) (f' a)) : Idle cue (m >>= f) (m' >>= f') := by
  intro p
  rw [bind_apply, bind_apply, hm p]
  cases m' p with
  | ok a q => exact hf a q
  | error halt q => rfl

/-- What changes no more than the store passes no point. -/
theorem passed_withStore (cue : Cue) (p : Progress ω) (store : Store) :
    cue.passed { p with store } = cue.passed p := by
  cases cue <;> rfl

theorem quiet {m : Eval ω α} (hm : Quiet m) : Idle cue m m := by
  intro p
  rcases hm p.store with ⟨a, after, _, h⟩ | ⟨halt, _, h⟩
  · rw [h p rfl, h (p.noting cue) rfl]
    simp only [noted, Progress.noting, passed_withStore]
  · rw [h p rfl, h (p.noting cue) rfl]
    rfl

theorem create (f : Store → α × Store) :
    Idle cue (Machine.create f : Eval ω α) (Machine.create f) := by
  intro p
  simp only [Machine.create, noted, Progress.noting, passed_withStore]

theorem throw (halt : Halt) : Idle cue (throw halt : Eval ω α) (throw halt) :=
  fun _ => rfl

theorem land {m m' : Eval ω Flow} (hm : Idle cue m m') :
    Idle cue (Machine.land m) (Machine.land m') := by
  intro p
  rw [land_apply, land_apply, hm p]
  cases m' p with
  | ok flow q => rfl
  | error halt q => cases halt <;> rfl

theorem check : Idle cue (checkAborted : Eval ω Unit) checkAborted := by
  intro p
  rw [checkAborted_apply, checkAborted_apply]
  by_cases hp : p.aborted = true
  · rw [if_pos hp, if_pos (show (p.noting cue).aborted = true from hp)]
    rfl
  · rw [if_neg hp, if_neg (show ¬(p.noting cue).aborted = true from hp)]
    rfl

theorem interrupt_unwatched (due : Cue → Progress ω → Bool) (p : Progress ω) :
    (s.idle cue false).interrupt due p = .ok () p := rfl

theorem interrupt_watched (due : Cue → Progress ω → Bool) (p : Progress ω) :
    (s.idle cue true).interrupt due p =
      .ok () { p with interrupted := p.interrupted || due cue p } := by
  obtain ⟨store, steps, outputs, pauses, asleep, aborted, interrupted⟩ := p
  unfold Setting.interrupt Setting.idle
  cases interrupted with
  | true => rfl
  | false =>
      cases hdue : due cue ⟨store, steps, outputs, pauses, asleep, aborted, false⟩ <;> simp [hdue]

/-- An output passes a point if it is the point, or if that had been passed before. -/
theorem passed_output (cue : Cue) (p : Progress ω) (output : ω) :
    (cue.passed p || Setting.outputDue cue
        { p with outputs := output :: p.outputs, interrupted := cue.passed p }) =
      cue.passed { p with outputs := output :: p.outputs } := by
  apply Bool.eq_iff_iff.2
  cases cue with
  | output n =>
      simp only [Cue.passed, Setting.outputDue, List.length_cons, Bool.or_eq_true,
        decide_eq_true_eq, beq_iff_eq]
      omega
  | pause n => simp [Cue.passed, Setting.outputDue]
  | deadline n => exact Iff.rfl

/-- A pause passes a point if it is the point, or if that had been passed before. -/
theorem passed_pause (hcue : cue.isMoment = false) (p : Progress ω) :
    (cue.passed p || Setting.pauseDue cue
        { p with pauses := p.pauses + 1, interrupted := cue.passed p }) =
      cue.passed { p with pauses := p.pauses + 1 } := by
  apply Bool.eq_iff_iff.2
  cases cue with
  | output n => simp [Cue.passed, Setting.pauseDue]
  | pause n =>
      simp only [Cue.passed, Setting.pauseDue, Bool.or_eq_true, decide_eq_true_eq, beq_iff_eq]
      omega
  | deadline n => cases hcue

theorem emit (v : Value) : Idle cue ((s.idle cue true).emit v) ((s.idle cue false).emit v) := by
  intro p
  rw [Setting.emit_apply, Setting.emit_apply]
  by_cases hp : p.aborted = true
  · rw [if_pos hp, if_pos (show (p.noting cue).aborted = true from hp)]
    rfl
  · rw [if_neg hp, if_neg (show ¬(p.noting cue).aborted = true from hp), interrupt_watched,
      interrupt_unwatched]
    exact congrArg (fun b => EStateM.Result.ok () { p with
      outputs := s.record p.store v :: p.outputs, interrupted := b }) (passed_output cue p _)

theorem pause (hcue : cue.isMoment = false) :
    Idle cue (s.idle cue true).pause (s.idle cue false).pause := by
  intro p
  have hpassed := passed_pause hcue p
  rw [Setting.pause_apply, Setting.pause_apply, interrupt_watched, interrupt_unwatched]
  dsimp only [Progress.noting] at hpassed ⊢
  rw [hpassed]
  by_cases hp : p.aborted = true
  · rw [if_pos hp, if_pos hp]
    rfl
  · rw [if_neg hp, if_neg hp]
    rfl

theorem sleep (hcue : cue.isMoment = false) (millis : Nat) :
    Idle cue ((s.idle cue true).sleep millis) ((s.idle cue false).sleep millis) := by
  intro p
  rw [Setting.sleep_apply, Setting.sleep_apply]
  by_cases hp : p.aborted = true
  · rw [if_pos hp, if_pos (show (p.noting cue).aborted = true from hp)]
    rfl
  · rw [if_neg hp, if_neg (show ¬(p.noting cue).aborted = true from hp), ← pause hcue]
    cases cue <;> rfl

theorem step (hcue : cue.isMoment = false) (pos : Pos) :
    Idle cue ((s.idle cue true).step pos) ((s.idle cue false).step pos) := by
  intro p
  have hcounted : ({ p.noting cue with steps := p.steps + 1 } : Progress ω) =
      Progress.noting cue { p with steps := p.steps + 1 } := by
    cases cue <;> rfl
  rcases Bool.eq_false_or_eq_true p.aborted with hp | hp
  · rw [Forward.step_of_aborted pos hp,
      Forward.step_of_aborted pos (show (p.noting cue).aborted = true from hp)]
    rfl
  have hwatched : (p.noting cue).aborted = false := hp
  rcases Forward.spent_or_unspent s p with ⟨n, hn, hlt⟩ | hfree
  · rw [Forward.step_of_spent (s := s.idle cue false) pos hp hn hlt,
      Forward.step_of_spent (s := s.idle cue true) pos hwatched hn hlt]
    exact congrArg _ hcounted
  · rw [Forward.step_of_unspent (s := s.idle cue false) pos hp hfree,
      Forward.step_of_unspent (s := s.idle cue true) pos hwatched hfree]
    by_cases hyield : s.yieldsAt (p.steps + 1)
    · rw [if_pos (c := (s.idle cue true).yieldsAt ((p.noting cue).steps + 1)) hyield,
        if_pos (c := (s.idle cue false).yieldsAt (p.steps + 1)) hyield]
      exact (congrArg (s.idle cue true).pause hcounted).trans (pause hcue _)
    · rw [if_neg (c := (s.idle cue true).yieldsAt ((p.noting cue).steps + 1)) hyield,
        if_neg (c := (s.idle cue false).yieldsAt (p.steps + 1)) hyield]
      exact congrArg (EStateM.Result.ok ()) hcounted

/-- Taking no notice of an interruption that does nothing is a discipline. -/
def discipline (s : Setting ω) (hcue : cue.isMoment = false) : Discipline (s.idle cue) where
  Holds m := Idle cue (m true) (m false)
  Known _ := True
  quiet := .quiet
  bind := .bind
  land := .land
  check := .check
  emit := .emit
  sleep := .sleep hcue
  step := .step hcue
  closure _ _ _ _ := .create _
  callable _ _ h := .bind (.quiet (Quiet.look _)) fun c => h c fun _ _ _ _ => trivial
  guard calls pos _ h :=
    guard_rule (fun m => Idle cue (m true) (m false)) (s.idle cue) (fun _ => rfl) calls
      pos (fun _ => rfl) fun hc => h ⟨true, hc⟩
  loop e body pos env calls h :=
    loop_rule (fun m => Idle cue (m true) (m false)) (s.idle cue) e body pos env calls
      (fun _ => .quiet (Quiet.pure _)) (.throw _) .bind
      (fun hm => (step hcue pos).bind fun _ => hm) h _

theorem program (s : Setting ω) (hcue : cue.isMoment = false) (n : Nat) (env : Env)
    (last : Option Value) (program : List Stmt) :
    Idle cue (runProgram (s.idle cue true) n env last program)
      (runProgram (s.idle cue false) n env last program) :=
  Discipline.program (D := discipline s hcue) (fun _ => n)
    (fun x _ env => ((discipline s hcue).within (fun _ => trivial) (.throw _) n).1 x env 0) last env

end Idle

/-! ## Whole runs -/

namespace Interpreter

/-- A run crashes only by its interruption. -/
theorem effect_of_crashed {i : Interpreter} (hi : i.aborted = false)
    {interruption : Option Interruption} {record : Store → Value → ω} {store : Store}
    {program : List Stmt} {message : Option String}
    (h : (i.run interruption record store program).ending = .crashed message) :
    ∃ j, interruption = some j ∧ j.effect = .crash message := by
  rw [run_eq_conclude hi] at h
  have hcalm := Calm.program (i.setting interruption record) (budget i.limits)
    ⟨(store.newFrame []).1, [i.globals]⟩ none program { store := (store.newFrame []).2 }
  change endingOf (i.result interruption record store program) = _ at h
  cases hr : i.result interruption record store program with
  | ok last q =>
      rw [hr] at h
      cases h
  | error halt q =>
      rw [hr] at h
      cases halt with
      | crashed message' =>
          cases h
          exact hcalm message q hr
      | _ => cases h

/-- A run that nothing disturbs is neither aborted nor interrupted. -/
theorem result_undisturbed (i : Interpreter) (record : Store → Value → ω) (store : Store)
    (program : List Stmt) :
    (lastState (i.result none record store program)).aborted = false ∧
      (lastState (i.result none record store program)).interrupted = false := by
  -- The output with the number zero is never reached.
  have hparted := (Parts.program (i.setting none record) (.output 0) (budget i.limits)
    ⟨(store.newFrame []).1, [i.globals]⟩ none program).parted { store := (store.newFrame []).2 }
    ⟨rfl, rfl, fun n _ hn => Nat.pos_of_ne_zero hn, fun n _ hn => Nat.pos_of_ne_zero hn⟩
  cases hparted with
  | ahead hsame h => exact ⟨h.running, h.waiting⟩
  | behind p hstop hcue => exact absurd rfl (hcue.output 0 rfl).1

/-- A run with an interruption that does nothing is one that nothing disturbs. It notes whether it has
come to the point. -/
theorem run_idle {i : Interpreter} (hi : i.aborted = false) (record : Store → Value → ω)
    (store : Store) (program : List Stmt) {cue : Cue} (hcue : cue.isMoment = false) :
    i.run (some ⟨cue, .nothing⟩) record store program =
      { i.run none record store program with
        interrupted := cue.passed (lastState (i.result none record store program)) } := by
  have hidle := Idle.program (i.setting none record) hcue (budget i.limits)
    ⟨(store.newFrame []).1, [i.globals]⟩ none program { store := (store.newFrame []).2 }
  have hstart : Progress.noting cue ({ store := (store.newFrame []).2 } : Progress ω) =
      { store := (store.newFrame []).2 } := by
    cases cue with
    | output n | pause n =>
        simp [Progress.noting, Cue.passed]
        omega
    | deadline n => rfl
  rw [hstart] at hidle
  change i.result (some ⟨cue, .nothing⟩) record store program =
    noted cue (i.result none record store program) at hidle
  rw [run_eq_conclude hi, run_eq_conclude hi, hidle]
  cases i.result none record store program with
  | ok last p => rfl
  | error halt p => cases halt <;> rfl

/-- A run of a program that is not too deep gives up only where there is no limit on steps. -/
theorem maxSteps_of_exhausted {i : Interpreter} (hi : i.aborted = false)
    {interruption : Option Interruption} {record : Store → Value → ω} {store : Store}
    (hfits : Fits store) {program : List Stmt} (hdepth : firstTooDeep program = none)
    (h : (i.run interruption record store program).ending = .exhausted) :
    i.limits.maxSteps = none := by
  rw [run_eq_conclude hi] at h
  change endingOf (i.result interruption record store program) = _ at h
  have hsound := i.result_sound interruption record hfits
    ((firstTooDeep_eq_none_iff program).1 hdepth)
  have hsettled := settled_runProgram (i.setting interruption record) (budget i.limits)
    ⟨(store.newFrame []).1, [i.globals]⟩ program none { store := (store.newFrame []).2 }
  change Settled (i.result interruption record store program) at hsettled
  cases hr : i.result interruption record store program with
  | ok last q =>
      rw [hr] at h
      cases h
  | error halt q =>
      rw [hr] at h hsettled
      cases halt with
      | exhausted => exact (hsound.halt _ q hr).2
      | jump flow => exact hsettled.elim
      | _ => cases h

end Interpreter

end ScriptLab.Machine
