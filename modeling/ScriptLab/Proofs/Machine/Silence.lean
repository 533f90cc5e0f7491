import ScriptLab.Proofs.Machine.Interruption

/-!
# Runs that fall silent

Nothing but an interruption that says so aborts a run. Where one does, in the middle of any program
and with any store, the run gives out nothing more and does not come to its end.
-/

namespace ScriptLab.Machine

open Program
open Text (Pos)

variable {ω : Type} {α β : Type}

/-! ## Runs that are not aborted -/

/-- A setting in which no interruption aborts a run. -/
def Setting.Lasting (s : Setting ω) : Prop :=
  ∀ i, s.interruption = some i → i.effect ≠ .abort

/-- An action that does not abort the run. -/
def Lasting (m : Eval ω α) : Prop :=
  ∀ p, p.aborted = false → (lastState (m p)).aborted = false

namespace Lasting

theorem bind {m : Eval ω α} {f : α → Eval ω β} (hm : Lasting m) (hf : ∀ a, Lasting (f a)) :
    Lasting (m >>= f) := by
  intro p hp
  have h := hm p hp
  cases hr : m p with
  | ok a q =>
      rw [hr] at h
      rw [bind_of_ok hr]
      exact hf a q h
  | error halt q =>
      rw [hr] at h
      rw [bind_of_error hr]
      exact h

theorem quiet {m : Eval ω α} (hm : Quiet m) : Lasting m := by
  intro p hp
  rcases hm p.store with ⟨a, after, _, h⟩ | ⟨halt, _, h⟩
  · rw [h p rfl]
    exact hp
  · rw [h p rfl]
    exact hp

theorem create (f : Store → α × Store) : Lasting (Machine.create f : Eval ω α) :=
  fun _ hp => hp

theorem throw (halt : Halt) : Lasting (throw halt : Eval ω α) :=
  fun _ hp => hp

theorem land {m : Eval ω Flow} (hm : Lasting m) : Lasting (Machine.land m) := by
  intro p hp
  rw [lastState_land]
  exact hm p hp

theorem check : Lasting (checkAborted : Eval ω Unit) := by
  intro p hp
  rw [lastState_checkAborted]
  exact hp

variable {s : Setting ω} (hs : s.Lasting)
include hs

theorem interrupt (due : Cue → Progress ω → Bool) : Lasting (s.interrupt due) := by
  intro p hp
  unfold Setting.interrupt
  cases hi : s.interruption with
  | none => exact hp
  | some i =>
      have heffect := hs i hi
      dsimp only
      split
      · cases he : i.effect with
        | abort => exact absurd he heffect
        | crash message => exact hp
        | nothing => exact hp
      · exact hp

theorem pause : Lasting s.pause := by
  intro p hp
  have h := interrupt hs Setting.pauseDue { p with pauses := p.pauses + 1 } hp
  rw [Setting.pause_apply]
  cases hr : s.interrupt Setting.pauseDue { p with pauses := p.pauses + 1 } with
  | ok a q =>
      rw [hr] at h
      dsimp only
      split <;> exact h
  | error halt q =>
      rw [hr] at h
      exact h

theorem emit (v : Value) : Lasting (s.emit v) := by
  intro p hp
  rw [Setting.emit_apply]
  split
  · exact hp
  · exact interrupt hs Setting.outputDue { p with outputs := s.record p.store v :: p.outputs } hp

theorem sleep (millis : Nat) : Lasting (s.sleep millis) := by
  intro p hp
  rw [Setting.sleep_apply]
  split
  · exact hp
  · exact pause hs { p with asleep := p.asleep + 1000 * millis } hp

theorem step (pos : Pos) : Lasting (s.step pos) := by
  intro p hp
  rcases Bounded.step_cases s pos p with h | h | h | ⟨_, h⟩
  · rw [h]
    exact hp
  · rw [h]
    exact hp
  · rw [h]
    exact pause hs { p with steps := p.steps + 1 } hp
  · rw [h]
    exact hp

/-- Not aborting is a discipline where no interruption aborts. -/
def discipline : Discipline fun _ : Unit => s where
  Holds m := Lasting (m ())
  Known _ := True
  quiet := .quiet
  bind := .bind
  land := .land
  check := .check
  emit := emit hs
  sleep := sleep hs
  step := step hs
  closure _ _ _ _ := .create _
  callable _ _ h := .bind (.quiet (Quiet.look _)) fun c => h c fun _ _ _ _ => trivial
  guard calls pos _ h :=
    guard_rule (fun m => Lasting (m ())) (fun _ => s) (fun _ => rfl) calls pos
      (.quiet (Quiet.raise_bind _ _ _)) fun hc => h ⟨(), hc⟩
  loop e body pos env calls h :=
    loop_rule (fun m => Lasting (m ())) (fun _ => s) e body pos env calls
      (fun _ => .quiet (Quiet.pure _)) (.throw _) .bind (fun hm => (step hs pos).bind fun _ => hm) h _

theorem program (n : Nat) (env : Env) (last : Option Value) (program : List Stmt) :
    Lasting (runProgram s n env last program) :=
  Discipline.program (D := discipline hs) (fun _ => n)
    (fun x _ env => ((discipline hs).within (fun _ => trivial) (.throw _) n).1 x env 0) last env

end Lasting

namespace Interpreter

/-- A run is aborted by nothing but an interruption. -/
theorem run_lasting {i : Interpreter} (hi : i.aborted = false)
    {interruption : Option Interruption}
    (heffect : ∀ cue, interruption ≠ some ⟨cue, .abort⟩) (record : Store → Value → ω)
    (store : Store) (program : List Stmt) :
    (i.run interruption record store program).aborted = false := by
  rw [run_eq_conclude hi]
  refine Lasting.program (s := i.setting interruption record) (fun j hj habort => ?_) _ _ none program
    _ rfl
  obtain ⟨cue, effect⟩ := j
  obtain rfl : effect = .abort := habort
  exact heffect cue hj

end Interpreter

/-! ## Runs that are aborted -/

/-- How a run that has been aborted compares with one that is stopped dead at the same point. -/
structure Silenced (cue : Cue) (cut stopped : Run ω) : Prop where
  aborted : cut.aborted = true
  interrupted : cut.interrupted = true
  outputs : cut.outputs = stopped.outputs
  output : ∀ n, cue = .output n → cut.outputs.length = n
  unfinished : ∀ last, cut.ending ≠ .finished last
  crashed : stopped.ending = .crashed none

/-- An abort at a point of a run either is never reached, or silences the run there, whatever its
program and its store are. -/
theorem Interpreter.run_silenced {i : Interpreter} (hi : i.aborted = false)
    (record : Store → Value → ω) (store : Store) (program : List Stmt) (cue : Cue) :
    let run (interruption : Option Interruption) := i.run interruption record store program
    (run (some ⟨cue, .abort⟩) = run none ∧ run (some ⟨cue, .crash none⟩) = run none ∧
      (run none).aborted = false ∧ (run none).interrupted = false) ∨
    Silenced cue (run (some ⟨cue, .abort⟩)) (run (some ⟨cue, .crash none⟩)) := by
  intro run
  have hparted := (Parts.program (i.setting none record) cue (budget i.limits)
    ⟨(store.newFrame []).1, [i.globals]⟩ none program).parted { store := (store.newFrame []).2 }
    ⟨rfl, rfl, fun n _ hn => Nat.pos_of_ne_zero hn, fun n _ hn => Nat.pos_of_ne_zero hn⟩
  change Parted cue fun fate => i.result (fate.interruption cue) record store program at hparted
  have hrun : ∀ interruption, run interruption =
      conclude (store.newFrame []).1 (i.result interruption record store program) :=
    fun interruption => run_eq_conclude hi interruption record store program
  cases hparted with
  | ahead hsame h =>
      refine .inl ⟨?_, ?_, ?_, ?_⟩
      · rw [hrun, hrun]
        exact congrArg _ (hsame .aborted)
      · rw [hrun, hrun]
        exact congrArg _ (hsame .stopped)
      · rw [hrun]
        exact h.running
      · rw [hrun]
        exact h.waiting
  | behind p hstop hcue hbehind houtputs hpauses =>
      have hstop : i.result (some ⟨cue, .crash none⟩) record store program =
          .error (.crashed none) p := hstop
      have hbehind : Behind cue p (i.result (some ⟨cue, .abort⟩) record store program) := hbehind
      have hsettled : Settled (i.result (some ⟨cue, .abort⟩) record store program) :=
        settled_runProgram _ _ _ _ _ _
      refine .inr ?_
      rw [hrun, hrun, hstop]
      generalize i.result (some ⟨cue, .abort⟩) record store program = r at hbehind hsettled
      refine ⟨hbehind.aborted, hbehind.interrupted, congrArg List.reverse hbehind.outputs,
        fun n hn => ?_, fun last hlast => ?_, rfl⟩
      · change (lastState r).outputs.reverse.length = n
        rw [List.length_reverse, hbehind.outputs]
        exact (hcue.output n hn).2
      · cases r with
        | ok last q =>
            have habort : q.aborted = true := hbehind.aborted
            rw [show q.aborted = false from hsettled] at habort
            cases habort
        | error halt q => cases halt <;> cases hlast

end ScriptLab.Machine
