import ScriptLab.Proofs.Machine.Forward
import ScriptLab.Proofs.Machine.Run

/-!
# Runs under looser limits

Two runs of one program that nothing interrupts, the second under limits that allow more and with
pauses at other steps. Step by step the two do the same, until the first is cut short by a limit that
the second does not meet there; what the second gives out from then on only adds to what the first
has given out.
-/

namespace ScriptLab.Machine

open Program
open Text (Pos)

variable {ω : Type} {α β : Type}

/-- Limits that allow at most what others allow. A missing limit on steps allows any number. -/
structure Limits.AtMost (l l' : Limits) : Prop where
  steps : ∀ n', l'.maxSteps = some n' → ∃ n, l.maxSteps = some n ∧ n ≤ n'
  calls : l.maxCalls ≤ l'.maxCalls

/-- Two settings of runs that nothing interrupts, the first with limits that allow less. -/
structure Looser (s s' : Setting ω) : Prop where
  undisturbed : s.interruption = none
  undisturbed' : s'.interruption = none
  record : s'.record = s.record
  limits : s.limits.AtMost s'.limits
  rounds : s.rounds = maxRounds s.limits

/-- States that differ in nothing but the number of pauses. -/
def Matching (p p' : Progress ω) : Prop :=
  ∃ pauses, p' = { p with pauses }

/-- A stop that looser limits need not bring about. A bound on open evaluations counts as tight if
it is less than that of the other run. -/
def Halt.IsCut (s s' : Setting ω) (tight : Prop) (p : Progress ω) : Halt → Prop
  | .fault f =>
    (f.cause = .stepsExceeded ∧ ∃ n, s.limits.maxSteps = some n ∧ n < p.steps) ∨
      (f.cause = .callsExceeded ∧ s.limits.maxCalls < s'.limits.maxCalls)
  | .exhausted => s.limits.maxSteps = none ∨ tight
  | _ => False

/-- How results under two settings compare: they are the same, or the first run was cut short, or the
second one is too long for its evaluator. -/
inductive Compared (s s' : Setting ω) (tight : Prop) :
    EStateM.Result Halt (Progress ω) α → EStateM.Result Halt (Progress ω) α → Prop
  | ok {a : α} {p p' : Progress ω} (h : Matching p p') : Compared s s' tight (.ok a p) (.ok a p')
  | error {halt : Halt} {p p' : Progress ω} (h : Matching p p') :
      Compared s s' tight (.error halt p) (.error halt p')
  | cut {halt : Halt} {p : Progress ω} {r' : EStateM.Result Halt (Progress ω) α}
      (hcut : halt.IsCut s s' tight p) (ho : p.outputs <:+ (lastState r').outputs)
      (hs : p.steps ≤ (lastState r').steps) : Compared s s' tight (.error halt p) r'
  | beyond {r : EStateM.Result Halt (Progress ω) α} {p' : Progress ω} :
      Compared s s' tight r (.error .exhausted p')

variable {s s' : Setting ω} {tight : Prop}

/-! ## Actions that nothing interrupts -/

namespace Setting

theorem interrupt_none {due : Cue → Progress ω → Bool} (h : s.interruption = none)
    (p : Progress ω) : s.interrupt due p = .ok () p := by
  unfold Setting.interrupt
  rw [h]

theorem pause_none (h : s.interruption = none) {p : Progress ω} (hp : p.aborted = false) :
    s.pause p = .ok () { p with pauses := p.pauses + 1 } := by
  rw [Setting.pause_apply, interrupt_none h]
  dsimp only
  rw [if_neg (by simp [hp])]

theorem step_none (h : s.interruption = none) {p : Progress ω} (pos : Pos)
    (hp : p.aborted = false) (hn : ∀ n, s.limits.maxSteps = some n → p.steps + 1 ≤ n) :
    ∃ pauses, s.step pos p = .ok () { p with steps := p.steps + 1, pauses } := by
  rw [Forward.step_of_unspent pos hp hn]
  split
  · exact ⟨p.pauses + 1, pause_none h (p := { p with steps := p.steps + 1 }) hp⟩
  · exact ⟨p.pauses, rfl⟩

/-- A step that is made leaves the run within its limit. -/
theorem step_ok (h : s.interruption = none) {p q : Progress ω} {pos : Pos}
    (hstep : s.step pos p = .ok () q) :
    q.steps = p.steps + 1 ∧ ∀ n, s.limits.maxSteps = some n → q.steps ≤ n := by
  rcases Bool.eq_false_or_eq_true p.aborted with hp | hp
  · rw [Forward.step_of_aborted pos hp] at hstep
    cases hstep
  rcases Forward.spent_or_unspent s p with ⟨n, hn, hlt⟩ | hfree
  · rw [Forward.step_of_spent pos hp hn hlt] at hstep
    cases hstep
  · obtain ⟨w, hw⟩ := step_none h pos hp hfree
    rw [hw] at hstep
    cases hstep
    exact ⟨rfl, hfree⟩

end Setting

/-! ## What pairs of actions keep -/

/-- What follows the second run only adds to it. -/
theorem Compared.bind {m m' : Eval ω α} {f f' : α → Eval ω β} {p p' : Progress ω}
    (h : Compared s s' tight (m p) (m' p')) (hf' : ∀ a, Forward s' (f' a))
    (hf : ∀ a q q', m p = .ok a q → Matching q q' → Compared s s' tight (f a q) (f' a q')) :
    Compared s s' tight ((m >>= f) p) ((m' >>= f') p') := by
  have hadv : Advance (lastState (m' p')) (lastState ((m' >>= f') p')) := by
    rw [bind_apply]
    cases m' p' with
    | ok a q => exact (hf' a).advance q
    | error halt q => exact Advance.refl q
  rw [bind_apply] at hadv
  rw [bind_apply, bind_apply]
  generalize m p = r at h hf
  generalize m' p' = r' at h hadv
  cases h with
  | ok h => exact hf _ _ _ rfl h
  | error h => exact .error h
  | cut hcut ho hs =>
      exact .cut hcut (ho.trans hadv.outputs) (Nat.le_trans hs hadv.steps)
  | beyond => exact .beyond

/-- Two actions that only move forward and compare well from matching states. -/
structure Keeps (s s' : Setting ω) (tight : Prop) (m m' : Eval ω α) : Prop where
  forward : Forward s m
  forward' : Forward s' m'
  compared : ∀ p p', Matching p p' → Compared s s' tight (m p) (m' p')

namespace Keeps

theorem bind {m m' : Eval ω α} {f f' : α → Eval ω β} (hm : Keeps s s' tight m m')
    (hf : ∀ a, Keeps s s' tight (f a) (f' a)) : Keeps s s' tight (m >>= f) (m' >>= f') where
  forward := hm.forward.bind fun a => (hf a).forward
  forward' := hm.forward'.bind fun a => (hf a).forward'
  compared p p' hp := (hm.compared p p' hp).bind (fun a => (hf a).forward')
    fun a q q' _ hq => (hf a).compared q q' hq

theorem quiet {m : Eval ω α} (hm : Quiet m) : Keeps s s' tight m m where
  forward := .quiet hm
  forward' := .quiet hm
  compared := by
    rintro p p' ⟨w, rfl⟩
    rcases hm p.store with ⟨a, store, _, h⟩ | ⟨halt, _, h⟩
    · rw [h p rfl, h { p with pauses := w } rfl]
      exact .ok ⟨w, rfl⟩
    · rw [h p rfl, h { p with pauses := w } rfl]
      exact .error ⟨w, rfl⟩

theorem land {m m' : Eval ω Flow} (hm : Keeps s s' tight m m') :
    Keeps s s' tight (Machine.land m) (Machine.land m') where
  forward := hm.forward.land
  forward' := hm.forward'.land
  compared p p' hp := by
    have h := hm.compared p p' hp
    have hlast := lastState_land m' p'
    rw [land_apply, land_apply] at *
    generalize m p = r at h
    generalize m' p' = r' at h hlast
    cases h with
    | ok h => exact .ok h
    | @error halt _ _ h =>
        cases halt with
        | jump flow => exact .ok h
        | _ => exact .error h
    | @cut halt _ _ hcut ho hs =>
        rw [← hlast] at ho hs
        cases halt with
        | jump flow => exact hcut.elim
        | _ => exact .cut hcut ho hs
    | beyond => exact .beyond

theorem closure (params : List String) (body : List Stmt) (env : Env) :
    Keeps (ω := ω) s s' tight (create (·.newCallable (.closure params body env)))
      (create (·.newCallable (.closure params body env))) where
  forward := Forward.create _
  forward' := Forward.create _
  compared := by
    rintro p p' ⟨w, rfl⟩
    exact .ok ⟨w, rfl⟩

theorem check : Keeps (ω := ω) s s' tight checkAborted checkAborted where
  forward := .check
  forward' := .check
  compared := by
    rintro p p' ⟨w, rfl⟩
    rw [checkAborted_apply, checkAborted_apply]
    dsimp only
    split
    · exact .error ⟨w, rfl⟩
    · exact .ok ⟨w, rfl⟩

/-- Of two runs the first may run into its bound on open evaluations before the second. -/
theorem exhausted {m' : Eval ω α} (htight : tight) (hm' : Forward s' m') :
    Keeps s s' tight (throw .exhausted) m' where
  forward := .throw _
  forward' := hm'
  compared := by
    rintro p p' ⟨w, rfl⟩
    have hadv := hm'.advance { p with pauses := w }
    exact .cut (.inr htight) hadv.outputs hadv.steps

theorem beyond {m : Eval ω α} (hm : Forward s m) :
    Keeps s s' tight m (throw .exhausted) where
  forward := hm
  forward' := .throw _
  compared _ _ _ := .beyond

end Keeps

/-! ## The actions that look at the limits -/

namespace Looser

variable (L : Looser s s')
include L

theorem keeps_emit (v : Value) : Keeps s s' tight (s.emit v) (s'.emit v) where
  forward := .emit v
  forward' := .emit v
  compared := by
    rintro p p' ⟨w, rfl⟩
    rw [Setting.emit_apply, Setting.emit_apply, Setting.interrupt_none L.undisturbed,
      Setting.interrupt_none L.undisturbed', L.record]
    dsimp only
    split
    · exact .ok ⟨w, rfl⟩
    · exact .ok ⟨w, rfl⟩

theorem keeps_sleep (millis : Nat) : Keeps s s' tight (s.sleep millis) (s'.sleep millis) where
  forward := .sleep millis
  forward' := .sleep millis
  compared := by
    rintro p p' ⟨w, hw⟩
    have hp' : p'.aborted = p.aborted := by rw [hw]
    rw [Setting.sleep_apply, Setting.sleep_apply]
    rcases Bool.eq_false_or_eq_true p.aborted with hp | hp
    · rw [if_pos hp, if_pos (hp'.trans hp)]
      exact .error ⟨w, hw⟩
    · rw [if_neg (by simp [hp]), if_neg (by simp [hp', hp]),
        Setting.pause_none L.undisturbed (p := { p with asleep := p.asleep + 1000 * millis }) hp,
        Setting.pause_none L.undisturbed' (p := { p' with asleep := p'.asleep + 1000 * millis })
          (hp'.trans hp)]
      exact .ok ⟨p'.pauses + 1, by rw [hw]⟩

theorem keeps_step (pos : Pos) : Keeps s s' tight (s.step pos) (s'.step pos) where
  forward := .step pos
  forward' := .step pos
  compared := by
    rintro p p' ⟨w, hw⟩
    have hp' : p'.aborted = p.aborted := by rw [hw]
    have hs' : p'.steps = p.steps := by rw [hw]
    rcases Bool.eq_false_or_eq_true p.aborted with hp | hp
    · rw [Forward.step_of_aborted pos hp, Forward.step_of_aborted pos (hp'.trans hp)]
      exact .error ⟨w, hw⟩
    have hrun' := hp'.trans hp
    rcases Forward.spent_or_unspent s p with ⟨n, hn, hlt⟩ | hfree
    · rw [Forward.step_of_spent pos hp hn hlt]
      rcases Forward.spent_or_unspent s' p' with ⟨n', hn', hlt'⟩ | hfree'
      · rw [Forward.step_of_spent pos hrun' hn' hlt']
        exact .error ⟨w, by rw [hw]⟩
      · obtain ⟨w', h'⟩ := Setting.step_none L.undisturbed' pos hrun' hfree'
        rw [h']
        exact .cut (.inl ⟨rfl, n, hn, hlt⟩) (by rw [hw]; exact List.suffix_rfl)
          (by rw [hw]; exact Nat.le_refl _)
    · have hfree' : ∀ n', s'.limits.maxSteps = some n' → p'.steps + 1 ≤ n' := by
        intro n' hn'
        obtain ⟨n, hn, hle⟩ := L.limits.steps n' hn'
        rw [hs']
        exact Nat.le_trans (hfree n hn) hle
      obtain ⟨w₁, h₁⟩ := Setting.step_none L.undisturbed pos hp hfree
      obtain ⟨w₂, h₂⟩ := Setting.step_none L.undisturbed' pos hrun' hfree'
      rw [h₁, h₂]
      exact .ok ⟨w₂, by rw [hw]⟩

theorem keeps_guard (calls : Nat) (pos : Pos) {m m' : Eval ω α}
    (hm : calls < s'.limits.maxCalls → Keeps s s' tight m m') :
    Keeps s s' tight
      (if s.limits.maxCalls ≤ calls then raise .callsExceeded pos >>= fun _ : PUnit => m else m)
      (if s'.limits.maxCalls ≤ calls then raise .callsExceeded pos >>= fun _ : PUnit => m'
        else m') := by
  have hcalls := L.limits.calls
  by_cases h' : s'.limits.maxCalls ≤ calls
  · rw [if_pos h', if_pos (by omega)]
    exact .quiet (Quiet.raise_bind _ _ _)
  · rw [if_neg h']
    have hm := hm (by omega)
    by_cases h : s.limits.maxCalls ≤ calls
    · rw [if_pos h]
      refine ⟨.quiet (Quiet.raise_bind _ _ _), hm.forward', ?_⟩
      rintro p p' ⟨w, rfl⟩
      have hadv := hm.forward'.advance { p with pauses := w }
      exact .cut (.inr ⟨rfl, by omega⟩) hadv.outputs hadv.steps
    · rw [if_neg h]
      exact hm

/-- An endless loop takes a step in each round, so that a limit on steps is met before its evaluator
gives up. -/
theorem compared_loop {e e' : Evaluators ω} {body : List Stmt} {env : Env} {calls : Nat} (pos : Pos)
    (h : Keeps s s' tight (e.block [] body env calls) (e'.block [] body env calls)) (k k' : Nat)
    (p p' : Progress ω) (hp : Matching p p')
    (hk : ∀ n, s.limits.maxSteps = some n → n < p.steps + k ∧ (k = 0 → p.steps ≤ n)) :
    Compared s s' tight (e.loop s body pos env calls k p)
      (e'.loop s' body pos env calls k' p') := by
  induction k generalizing k' p p' with
  | zero =>
      obtain ⟨w, rfl⟩ := hp
      have hadv := (Forward.loop pos h.forward' k').advance { p with pauses := w }
      refine .cut (.inl ?_) hadv.outputs hadv.steps
      cases hm : s.limits.maxSteps with
      | none => rfl
      | some n =>
          obtain ⟨hlt, hle⟩ := hk n hm
          have := hle rfl
          omega
  | succ k ih =>
      cases k' with
      | zero => exact .beyond
      | succ k' =>
          refine (h.compared p p' hp).bind (fun flow => ?_) (fun flow q q' hq hqq => ?_)
          · cases flow with
            | leave | back => exact .quiet (Quiet.pure _)
            | next | again => exact .bind (.step pos) fun _ => .loop pos h.forward' k'
          · have hadv := h.forward.advance p
            rw [hq, lastState_ok] at hadv
            have hround : Compared s s' tight
                ((s.step pos >>= fun _ => e.loop s body pos env calls k) q)
                ((s'.step pos >>= fun _ => e'.loop s' body pos env calls k') q') := by
              refine ((keeps_step L pos).compared q q' hqq).bind
                (fun _ => .loop pos h.forward' k') (fun _ r r' hr hrr => ?_)
              obtain ⟨hsteps, hle⟩ := Setting.step_ok L.undisturbed hr
              refine ih k' r r' hrr fun n hn => ⟨?_, fun _ => hle n hn⟩
              have := (hk n hn).1
              have := hadv.steps
              omega
            cases flow with
            | leave | back => exact .ok hqq
            | next | again => exact hround

theorem keeps_loop (e e' : Evaluators ω) (body : List Stmt) (pos : Pos) (env : Env) (calls : Nat)
    (h : Keeps s s' tight (e.block [] body env calls) (e'.block [] body env calls)) :
    Keeps s s' tight (e.loop s body pos env calls s.rounds)
      (e'.loop s' body pos env calls s'.rounds) where
  forward := .loop pos h.forward _
  forward' := .loop pos h.forward' _
  compared p p' hp := by
    refine compared_loop L pos h _ _ p p' hp fun n hn => ?_
    have hrounds : s.rounds = n + 1 := by rw [L.rounds, maxRounds, hn]
    exact ⟨by omega, fun h => by omega⟩

/-! ## The discipline -/

/-- The two settings as a family. -/
def both (s s' : Setting ω) : Bool → Setting ω
  | false => s
  | true => s'

/-- Comparing well from matching states is a discipline. -/
def discipline (tight : Prop) : Discipline (both s s') where
  Holds m := Keeps s s' tight (m false) (m true)
  Known _ := True
  quiet := .quiet
  bind := .bind
  land := .land
  check := .check
  emit := keeps_emit L
  sleep := keeps_sleep L
  step := keeps_step L
  closure params body env _ := .closure params body env
  callable _ _ h := .bind (.quiet (Quiet.look _)) fun c => h c fun _ _ _ _ => trivial
  guard calls pos _ h := keeps_guard L calls pos fun hcalls => h ⟨true, hcalls⟩
  loop e body pos env calls h := keeps_loop L (e false) (e true) body pos env calls h

/-! ## Programs -/

/-- The evaluators of two runs compare well, also when their bounds on open evaluations differ. -/
theorem keeps_within (n n' : Nat) (htight : n < n' → tight) :
    (∀ x env calls, Keeps s s' tight (runWithin s n x env calls) (runWithin s' n' x env calls)) ∧
      ∀ x env calls, Keeps s s' tight (evalWithin s n x env calls)
        (evalWithin s' n' x env calls) := by
  induction n generalizing n' with
  | zero =>
      cases n' with
      | zero => exact ⟨fun _ _ _ => Keeps.beyond (.throw _), fun _ _ _ => Keeps.beyond (.throw _)⟩
      | succ n' =>
          have ht := htight (Nat.succ_pos n')
          exact ⟨fun x env calls => Keeps.exhausted ht (.runWithin s' (n' + 1) x env calls),
            fun x env calls => Keeps.exhausted ht (.evalWithin s' (n' + 1) x env calls)⟩
  | succ n ih =>
      cases n' with
      | zero =>
          exact ⟨fun x env calls => Keeps.beyond (.runWithin s (n + 1) x env calls),
            fun x env calls => Keeps.beyond (.evalWithin s (n + 1) x env calls)⟩
      | succ n' =>
          obtain ⟨hstmt, hexpr⟩ := ih n' fun h => htight (by omega)
          let bound : Bool → Nat := fun b => if b then n' else n
          have hpart : ∀ calls c,
              (L.discipline tight).Part (Discipline.bounded (both s s') bound) calls c :=
            fun calls => Discipline.part_of (fun x env => hstmt x env calls)
              fun x env => hexpr x env calls
          have hbodies : ∀ calls,
              (L.discipline tight).Bodies (Discipline.bounded (both s s') bound) calls :=
            fun calls _ _ _ x _ => hpart (calls + 1) (.stmt x)
          exact ⟨fun x env calls => Discipline.onStmt (fun c _ => hpart calls c) env,
            fun x env calls => Discipline.onExpr (fun c _ => hpart calls c) (fun _ _ _ _ => trivial)
              (hbodies calls) env⟩

theorem keeps_program (n n' : Nat) (htight : n < n' → tight) (env : Env) (last : Option Value)
    (program : List Stmt) :
    Keeps s s' tight (runProgram s n env last program) (runProgram s' n' env last program) :=
  Discipline.program (D := L.discipline tight) (fun b => if b then n' else n)
    (fun x _ env => (keeps_within L n n' htight).1 x env 0) last env

end Looser

/-! ## Whole runs -/

theorem conclude_ok (frame : Nat) {p p' : Progress ω} (h : Matching p p') (last : Option Value) :
    conclude frame (.ok last p') = conclude frame (.ok last p) := by
  obtain ⟨w, rfl⟩ := h
  rfl

theorem conclude_error (frame : Nat) {p p' : Progress ω} (h : Matching p p') (halt : Halt) :
    conclude frame (.error halt p') = conclude frame (.error halt p) := by
  obtain ⟨w, rfl⟩ := h
  cases halt <;> rfl

/-- A run that has been cut short, by a limit or by the bounds of its evaluator. -/
def Run.CutShort (s s' : Setting ω) (tight : Prop) (run : Run ω) : Prop :=
  (∃ pos n, run.ending = .failed ⟨.stepsExceeded, pos⟩ ∧ s.limits.maxSteps = some n ∧
    n < run.steps) ∨
  (∃ pos, run.ending = .failed ⟨.callsExceeded, pos⟩ ∧ s.limits.maxCalls < s'.limits.maxCalls) ∨
  (run.ending = .exhausted ∧ (s.limits.maxSteps = none ∨ tight))

/-- Results that compare well make the same run, or the first run was cut short with outputs and steps
that the second one begins with, or the second one is too long for its evaluator. -/
theorem Compared.conclude {s s' : Setting ω} {tight : Prop} (frame : Nat)
    {r r' : EStateM.Result Halt (Progress ω) (Option Value)} (h : Compared s s' tight r r') :
    Machine.conclude frame r' = Machine.conclude frame r ∨
    (Run.CutShort s s' tight (Machine.conclude frame r) ∧
      (Machine.conclude frame r).outputs <+: (Machine.conclude frame r').outputs ∧
      (Machine.conclude frame r).steps ≤ (Machine.conclude frame r').steps) ∨
    (Machine.conclude frame r').ending = .exhausted := by
  cases h with
  | ok h => exact .inl (conclude_ok frame h _)
  | error h => exact .inl (conclude_error frame h _)
  | @cut halt p r' hcut ho hs =>
      refine .inr (.inl ⟨?_, List.reverse_prefix.2 ho, hs⟩)
      cases halt with
      | fault f =>
          obtain ⟨cause, pos⟩ := f
          rcases hcut with ⟨rfl, n, hn, hlt⟩ | ⟨rfl, hlt⟩
          · exact .inl ⟨pos, n, rfl, hn, hlt⟩
          · exact .inr (.inl ⟨pos, rfl, hlt⟩)
      | exhausted => exact .inr (.inr ⟨rfl, hcut⟩)
      | aborted | jump | crashed => exact hcut.elim
  | beyond => exact .inr (.inr rfl)

namespace Interpreter

/-- Runs of one program under two limits, of which the first allow less. -/
theorem run_compared (i : Interpreter) {l l' : Limits} (h : l.AtMost l')
    (record : Store → Value → ω) (store : Store) (program : List Stmt) :
    let run := (i.under l).run none record store program
    let run' := (i.under l').run none record store program
    run' = run ∨
      (run.CutShort ((i.under l).setting none record) ((i.under l').setting none record)
          (budget l < budget l') ∧
        run.outputs <+: run'.outputs ∧ run.steps ≤ run'.steps) ∨
      run'.ending = .exhausted := by
  dsimp only
  rcases Bool.eq_false_or_eq_true i.aborted with ha | ha
  · refine .inl ?_
    rw [run_of_aborted (i := i.under l) ha, run_of_aborted (i := i.under l') ha]
  · have L : Looser ((i.under l).setting none record) ((i.under l').setting none record) :=
      ⟨rfl, rfl, rfl, h, rfl⟩
    have hkeeps := L.keeps_program (budget l) (budget l') id ⟨(store.newFrame []).1, [i.globals]⟩
      none program
    have hcmp := hkeeps.compared { store := (store.newFrame []).2 }
      { store := (store.newFrame []).2 } ⟨0, rfl⟩
    rw [run_eq_conclude (i := i.under l) ha, run_eq_conclude (i := i.under l') ha]
    exact hcmp.conclude (store.newFrame []).1

/-- A run that is not stopped for too many steps is within its limit. -/
theorem run_steps_le (i : Interpreter) {n : Nat} (hn : i.limits.maxSteps = some n)
    (record : Store → Value → ω) (store : Store) (program : List Stmt)
    (hends : ∀ pos, (i.run none record store program).ending ≠ .failed ⟨.stepsExceeded, pos⟩) :
    (i.run none record store program).steps ≤ n := by
  rcases Bool.eq_false_or_eq_true i.aborted with ha | ha
  · rw [run_of_aborted ha]
    exact Nat.zero_le _
  · rw [run_eq_conclude ha] at hends ⊢
    refine (Forward.runProgram (i.setting none record) _ _ none program).metered _ n hn
      (Nat.zero_le _) ?_
    change Unspent (i.result none record store program)
    generalize i.result none record store program = r at hends
    rcases r with ⟨_, _⟩ | ⟨halt, _⟩
    · trivial
    · cases halt with
      | fault f =>
          obtain ⟨cause, pos⟩ := f
          rintro (rfl : cause = .stepsExceeded)
          exact hends pos rfl
      | _ => exact not_false

end Interpreter

/-- Limits only cut a run short. Of two runs that end, the one under tighter limits gives out a part of
what the other gives out, from the start; if it was not stopped for its steps or calls, the two are
the same. A run without a limit on steps that ends after `N` of them is the same under every limit
from `N` on, and stops for its steps under every limit below. -/
theorem limits_only_cut_short (i : Interpreter) (record : Store → Value → ω) (store : Store)
    (program : List Stmt) :
    (∀ l l' : Limits, l.AtMost l' →
      let run := (i.under l).run none record store program
      let run' := (i.under l').run none record store program
      run.ending ≠ .exhausted → run'.ending ≠ .exhausted →
        run.outputs <+: run'.outputs ∧
        ((∀ pos, run.ending ≠ .failed ⟨.stepsExceeded, pos⟩ ∧
            run.ending ≠ .failed ⟨.callsExceeded, pos⟩) → run' = run)) ∧
    (∀ (l : Limits) (n yieldInterval : Nat),
      let free := (i.under { l with maxSteps := none }).run none record store program
      let metered :=
        (i.under { l with maxSteps := some n, yieldInterval }).run none record store program
      free.ending ≠ .exhausted →
        (free.steps ≤ n → metered = free) ∧
        (n < free.steps → ∃ pos, metered.ending = .failed ⟨.stepsExceeded, pos⟩)) := by
  refine ⟨fun l l' h => ?_, fun l n yieldInterval => ?_⟩
  · intro run run' hends hends'
    rcases i.run_compared h record store program with heq | ⟨hcut, hbegun, -⟩ | hbeyond
    · exact ⟨(show run' = run from heq) ▸ List.prefix_rfl, fun _ => heq⟩
    · refine ⟨hbegun, fun hfree => ?_⟩
      rcases hcut with ⟨pos, -, hsteps, -⟩ | ⟨pos, hcalls, -⟩ | ⟨hexhausted, -⟩
      · exact absurd hsteps (hfree pos).1
      · exact absurd hcalls (hfree pos).2
      · exact absurd hexhausted hends
    · exact absurd hbeyond hends'
  · intro free metered hends
    have h : Limits.AtMost { l with maxSteps := some n, yieldInterval } { l with maxSteps := none } :=
      ⟨fun _ hn => (by cases hn), Nat.le_refl _⟩
    rcases i.run_compared h record store program with heq | ⟨hcut, -, hle⟩ | hbeyond
    · refine ⟨fun _ => heq.symm, fun hlt => ?_⟩
      refine Classical.byContradiction fun hmet => ?_
      have hsteps := Interpreter.run_steps_le (i.under { l with maxSteps := some n, yieldInterval }) rfl
        record store program fun pos hpos => hmet ⟨pos, hpos⟩
      have : free.steps ≤ n := by rw [show free = metered from heq]; exact hsteps
      omega
    · rcases hcut with ⟨pos, k, hsteps, hk, hlt⟩ | ⟨-, -, hlt⟩ | ⟨-, hn | hlt⟩
      · cases hk
        refine ⟨fun hN => ?_, fun _ => ⟨pos, hsteps⟩⟩
        have : metered.steps ≤ free.steps := hle
        have : n < metered.steps := hlt
        omega
      · exact absurd hlt (Nat.lt_irrefl _)
      · cases hn
      · exact absurd hlt (Nat.lt_irrefl _)
    · exact absurd hbeyond hends

/-- A program that gives out one truth value once and another one for ever. -/
def blinking : List Stmt :=
  [.out ⟨1, 1⟩ (.bool ⟨1, 1⟩ true), .loop ⟨2, 1⟩ [.out ⟨3, 1⟩ (.bool ⟨3, 1⟩ false)]]

theorem limits_only_cut_short_blinking :
    let i : Interpreter := { globals := 0, limits := {} }
    let tight := (i.under ⟨some 4, 64, 0⟩).run none Store.output {} blinking
    let loose := (i.under ⟨some 6, 64, 256⟩).run none Store.output {} blinking
    let free := (i.under {}).run none Store.output {} (blinking.take 1)
    tight.outputs <+: loose.outputs ∧
      (i.under ⟨some 1, 64, 0⟩).run none Store.output {} (blinking.take 1) = free ∧
      ∃ pos, ((i.under ⟨some 0, 64, 0⟩).run none Store.output {} (blinking.take 1)).ending =
        .failed ⟨.stepsExceeded, pos⟩ := by
  intro i tight loose free
  have htight : tight.ending = .failed ⟨.stepsExceeded, ⟨3, 1⟩⟩ := rfl
  have hloose : loose.ending = .failed ⟨.stepsExceeded, ⟨3, 1⟩⟩ := rfl
  have hfree : free.ending = .finished none ∧ free.steps = 1 := ⟨rfl, rfl⟩
  have h := limits_only_cut_short i Store.output {} blinking
  have h1 := limits_only_cut_short i Store.output {} (blinking.take 1)
  refine ⟨(h.1 ⟨some 4, 64, 0⟩ ⟨some 6, 64, 256⟩ ⟨?_, Nat.le_refl _⟩ ?_ ?_).1, ?_, ?_⟩
  · rintro _ ⟨⟩
    exact ⟨4, rfl, by decide⟩
  · exact fun h => by rw [show _ = _ from htight] at h; cases h
  · exact fun h => by rw [show _ = _ from hloose] at h; cases h
  · refine (h1.2 {} 1 0 ?_).1 (Nat.le_of_eq hfree.2)
    exact fun h => by rw [show _ = _ from hfree.1] at h; cases h
  · refine (h1.2 {} 0 0 ?_).2 (by rw [show _ = _ from hfree.2]; decide)
    exact fun h => by rw [show _ = _ from hfree.1] at h; cases h

end ScriptLab.Machine
