import ScriptLab.Proofs.Machine.Bounds

/-!
# Runs that are aborted

One program is run three times: undisturbed, aborted at some point, and stopped dead there. Up to the
point the three do the same. Behind it the aborted run only finishes what it is in the middle of: it
gives out nothing more, takes no further step, and changes nothing but the store.
-/

namespace ScriptLab.Machine

open Program
open Text (Pos)

variable {ω : Type} {α β : Type}

/-- What becomes of a run at a point. -/
inductive Fate where
  | undisturbed
  | aborted
  | stopped

/-- The interruption by which a fate comes about. -/
def Fate.interruption (cue : Cue) : Fate → Option Interruption
  | undisturbed => none
  | aborted => some ⟨cue, .abort⟩
  | stopped => some ⟨cue, .crash none⟩

/-- The settings of the three runs. -/
def Setting.fated (s : Setting ω) (cue : Cue) (fate : Fate) : Setting ω :=
  { s with interruption := fate.interruption cue }

/-- Whether the point is where a run pauses. -/
def Cue.isPause : Cue → Prop
  | .output _ => False
  | .pause _ | .deadline _ => True

/-- A run that goes on and has not come to the point. The first output and the first pause have the
number one, so that the number zero is never reached. -/
structure Ahead (cue : Cue) (p : Progress ω) : Prop where
  running : p.aborted = false
  waiting : p.interrupted = false
  output : ∀ n, cue = .output n → n ≠ 0 → p.outputs.length < n
  pause : ∀ n, cue = .pause n → n ≠ 0 → p.pauses < n

/-- A state at the point. -/
structure AtCue (cue : Cue) (p : Progress ω) : Prop where
  output : ∀ n, cue = .output n → n ≠ 0 ∧ p.outputs.length = n
  pause : ∀ n, cue = .pause n → n ≠ 0 ∧ p.pauses = n

/-- A result of an aborted run that has done nothing since it was in a state. -/
structure Behind (cue : Cue) (p : Progress ω) (r : EStateM.Result Halt (Progress ω) α) : Prop where
  aborted : (lastState r).aborted = true
  interrupted : (lastState r).interrupted = true
  outputs : (lastState r).outputs = p.outputs
  steps : (lastState r).steps = p.steps
  /-- Behind a pause, the run stops at once. -/
  halted : cue.isPause → ∃ q, r = .error .aborted q

/-- How the results of the three runs compare: they are the same and the point is still ahead, or the
point was reached. -/
inductive Parted (cue : Cue) (r : Fate → EStateM.Result Halt (Progress ω) α) : Prop
  | ahead (hsame : ∀ fate, r fate = r .undisturbed) (h : Ahead cue (lastState (r .undisturbed)))
  | behind (p : Progress ω) (hstop : r .stopped = .error (.crashed none) p) (hcue : AtCue cue p)
      (hbehind : Behind cue p (r .aborted))
      (houtputs : p.outputs <:+ (lastState (r .undisturbed)).outputs)
      (hpauses : p.pauses ≤ (lastState (r .undisturbed)).pauses)

/-- Three actions that only move forward and part at the point. -/
structure Parts (s : Setting ω) (cue : Cue) (m : Fate → Eval ω α) : Prop where
  forward : ∀ fate, Forward (s.fated cue fate) (m fate)
  parted : ∀ p, Ahead cue p → Parted cue fun fate => m fate p

/-! ## States -/

theorem Ahead.withStore {cue : Cue} {p : Progress ω} (h : Ahead cue p) (store : Store) :
    Ahead cue { p with store } :=
  ⟨h.running, h.waiting, h.output, h.pause⟩

/-- Nothing that only moves forward does more behind an abort. -/
theorem Behind.bind {cue : Cue} {s : Setting ω} {m : Eval ω α} {f : α → Eval ω β}
    {p q : Progress ω} (h : Behind cue q (m p)) (hf : ∀ a, Forward s (f a)) :
    Behind cue q ((m >>= f) p) := by
  cases hr : m p with
  | ok a q' =>
      rw [hr] at h
      rw [bind_of_ok hr]
      obtain ⟨store, hfrozen⟩ := ((hf a).advance q').frozen h.aborted
      refine ⟨?_, ?_, ?_, ?_, fun hcue => ?_⟩
      · rw [hfrozen]; exact h.aborted
      · rw [hfrozen]; exact h.interrupted
      · rw [hfrozen]; exact h.outputs
      · rw [hfrozen]; exact h.steps
      · obtain ⟨_, hhalt⟩ := h.halted hcue
        cases hhalt
  | error halt q' =>
      rw [hr] at h
      rw [bind_of_error hr]
      refine ⟨h.aborted, h.interrupted, h.outputs, h.steps, fun hcue => ?_⟩
      obtain ⟨q'', hhalt⟩ := h.halted hcue
      cases hhalt
      exact ⟨q', rfl⟩

namespace Parts

variable {s : Setting ω} {cue : Cue}

/-! ## Sequencing -/

theorem bind {m : Fate → Eval ω α} {f : Fate → α → Eval ω β} (hm : Parts s cue m)
    (hf : ∀ a, Parts s cue fun fate => f fate a) : Parts s cue fun fate => m fate >>= f fate where
  forward fate := (hm.forward fate).bind fun a => (hf a).forward fate
  parted p hp := by
    cases hm.parted p hp with
    | ahead hsame h =>
        cases hr : m .undisturbed p with
        | ok a q =>
            have hall : ∀ fate, (m fate >>= f fate) p = f fate a q := fun fate =>
              bind_of_ok ((hsame fate).trans hr) (f fate)
            rw [funext hall]
            rw [hr] at h
            exact (hf a).parted q h
        | error halt q =>
            have hall : ∀ fate, (m fate >>= f fate) p = .error halt q := fun fate =>
              bind_of_error ((hsame fate).trans hr) (f fate)
            rw [funext hall]
            rw [hr] at h
            exact .ahead (fun _ => rfl) h
    | behind q hstop hcue hbehind houtputs hpauses =>
        have hadv : Advance (lastState (m .undisturbed p))
            (lastState ((m .undisturbed >>= f .undisturbed) p)) := by
          cases hr : m .undisturbed p with
          | ok a q' =>
              rw [bind_of_ok hr]
              exact ((hf a).forward .undisturbed).advance q'
          | error halt q' =>
              rw [bind_of_error hr]
              exact Advance.refl q'
        exact .behind q (bind_of_error hstop _) hcue
          (hbehind.bind fun a => (hf a).forward .aborted)
          (houtputs.trans hadv.outputs) (Nat.le_trans hpauses hadv.pauses)

/-- An action that takes no notice of the point. -/
theorem of_same {m : Eval ω α} (hm : ∀ s, Forward s m)
    (h : ∀ p, Ahead cue p → Ahead cue (lastState (m p))) : Parts s cue fun _ => m where
  forward _ := hm _
  parted p hp := .ahead (fun _ => rfl) (h p hp)

theorem quiet {m : Eval ω α} (hm : Quiet m) : Parts s cue fun _ => m := by
  refine of_same (fun _ => .quiet hm) fun p hp => ?_
  rcases hm p.store with ⟨a, store, _, h⟩ | ⟨halt, _, h⟩
  · rw [h p rfl]
    exact hp.withStore store
  · rw [h p rfl]
    exact hp

theorem create (f : Store → α × Store) : Parts s cue fun _ => (Machine.create f : Eval ω α) :=
  of_same (fun _ => .create f) fun _ hp => hp.withStore _

theorem throw (halt : Halt) : Parts s cue fun _ => (throw halt : Eval ω α) :=
  of_same (fun _ => .throw halt) fun _ hp => hp

theorem check : Parts s cue fun _ => (checkAborted : Eval ω Unit) := by
  refine of_same (fun _ => .check) fun p hp => ?_
  rw [checkAborted_apply, if_neg (by simp [hp.running])]
  exact hp

theorem land {m : Fate → Eval ω Flow} (hm : Parts s cue m) :
    Parts s cue fun fate => Machine.land (m fate) where
  forward fate := (hm.forward fate).land
  parted p hp := by
    cases hm.parted p hp with
    | ahead hsame h =>
        refine .ahead (fun fate => ?_) (by rw [lastState_land]; exact h)
        rw [land_apply, land_apply, hsame fate]
    | behind q hstop hcue hbehind houtputs hpauses =>
        refine .behind q (by rw [land_apply, hstop]) hcue ⟨?_, ?_, ?_, ?_, fun hc => ?_⟩
          (by rw [lastState_land]; exact houtputs) (by rw [lastState_land]; exact hpauses)
        · rw [lastState_land]; exact hbehind.aborted
        · rw [lastState_land]; exact hbehind.interrupted
        · rw [lastState_land]; exact hbehind.outputs
        · rw [lastState_land]; exact hbehind.steps
        · obtain ⟨q', hq'⟩ := hbehind.halted hc
          exact ⟨q', by rw [land_apply, hq']⟩

/-! ## The actions at which a run may be interrupted -/

theorem interrupt_undisturbed (due : Cue → Progress ω → Bool) (p : Progress ω) :
    (s.fated cue .undisturbed).interrupt due p = .ok () p := rfl

theorem interrupt_aborted {due : Cue → Progress ω → Bool} {p : Progress ω}
    (hp : p.interrupted = false) (hdue : due cue p = true) :
    (s.fated cue .aborted).interrupt due p =
      .ok () { p with interrupted := true, aborted := true } := by
  simp [Setting.interrupt, Setting.fated, Fate.interruption, hp, hdue]

theorem interrupt_stopped {due : Cue → Progress ω → Bool} {p : Progress ω}
    (hp : p.interrupted = false) (hdue : due cue p = true) :
    (s.fated cue .stopped).interrupt due p =
      .error (.crashed none) { p with interrupted := true } := by
  simp [Setting.interrupt, Setting.fated, Fate.interruption, hp, hdue]

theorem interrupt_early {due : Cue → Progress ω → Bool} {p : Progress ω}
    (hdue : due cue p = false) (fate : Fate) :
    (s.fated cue fate).interrupt due p = .ok () p := by
  cases fate <;> simp [Setting.interrupt, Setting.fated, Fate.interruption, hdue]

theorem emit (v : Value) : Parts s cue fun fate => (s.fated cue fate).emit v where
  forward _ := .emit v
  parted p hp := by
    let q : Progress ω := { p with outputs := s.record p.store v :: p.outputs }
    have hemit : ∀ fate, (s.fated cue fate).emit v p =
        (s.fated cue fate).interrupt Setting.outputDue q := fun fate => by
      rw [Setting.emit_apply, if_neg (by simp [hp.running])]
      rfl
    have hwait : q.interrupted = false := hp.waiting
    rw [funext hemit]
    cases hdue : Setting.outputDue cue q with
    | false =>
        rw [funext (interrupt_early hdue)]
        refine .ahead (fun _ => rfl) ⟨hp.running, hp.waiting, ?_, hp.pause⟩
        rintro n rfl hn
        have := hp.output n rfl hn
        have : ¬p.outputs.length + 1 = n := by simpa [Setting.outputDue, q] using hdue
        show p.outputs.length + 1 < n
        omega
    | true =>
        refine .behind { q with interrupted := true } (interrupt_stopped hwait hdue) ⟨?_, ?_⟩ ?_
          List.suffix_rfl (Nat.le_refl _)
        · rintro n rfl
          have : p.outputs.length + 1 = n := by simpa [Setting.outputDue, q] using hdue
          exact ⟨by omega, this⟩
        · rintro n rfl
          cases hdue
        · rw [interrupt_aborted hwait hdue]
          refine ⟨rfl, rfl, rfl, rfl, fun hc => ?_⟩
          cases cue with
          | output n => exact hc.elim
          | _ => cases hdue

theorem parted_pause {p : Progress ω} (hp : Ahead cue p) :
    Parted cue fun fate => (s.fated cue fate).pause p := by
  let q : Progress ω := { p with pauses := p.pauses + 1 }
  have hrun : q.aborted = false := hp.running
  have hwait : q.interrupted = false := hp.waiting
  have hgo : (s.fated cue .undisturbed).pause p = .ok () q := by
    rw [Setting.pause_apply, interrupt_undisturbed]
    dsimp only
    rw [if_neg (by simp [hp.running])]
  cases hdue : Setting.pauseDue cue q with
  | false =>
      have hall : ∀ fate, (s.fated cue fate).pause p = .ok () q := fun fate => by
        rw [Setting.pause_apply, interrupt_early hdue]
        dsimp only
        rw [if_neg (by simp [hrun])]
      rw [funext hall]
      refine .ahead (fun _ => rfl) ⟨hp.running, hp.waiting, hp.output, ?_⟩
      rintro n rfl hn
      have := hp.pause n rfl hn
      have : ¬p.pauses + 1 = n := by simpa [Setting.pauseDue, q] using hdue
      show p.pauses + 1 < n
      omega
  | true =>
      have habort : (s.fated cue .aborted).pause p =
          .error .aborted { q with interrupted := true, aborted := true } := by
        rw [Setting.pause_apply, interrupt_aborted hwait hdue]
        rfl
      have hstop : (s.fated cue .stopped).pause p =
          .error (.crashed none) { q with interrupted := true } := by
        rw [Setting.pause_apply, interrupt_stopped hwait hdue]
      refine .behind { q with interrupted := true } hstop ⟨?_, ?_⟩ ?_ ?_ ?_
      · rintro n rfl
        cases hdue
      · rintro n rfl
        have : p.pauses + 1 = n := by simpa [Setting.pauseDue, q] using hdue
        exact ⟨by omega, this⟩
      · rw [habort]
        exact ⟨rfl, rfl, rfl, rfl, fun _ => ⟨_, rfl⟩⟩
      · rw [hgo]
        exact List.suffix_rfl
      · rw [hgo]
        exact Nat.le_refl _

theorem sleep (millis : Nat) : Parts s cue fun fate => (s.fated cue fate).sleep millis where
  forward _ := .sleep millis
  parted p hp := by
    have hsleep : ∀ fate, (s.fated cue fate).sleep millis p =
        (s.fated cue fate).pause { p with asleep := p.asleep + 1000 * millis } := fun fate => by
      rw [Setting.sleep_apply, if_neg (by simp [hp.running])]
    rw [funext hsleep]
    exact parted_pause ⟨hp.running, hp.waiting, hp.output, hp.pause⟩

theorem step (pos : Pos) : Parts s cue fun fate => (s.fated cue fate).step pos where
  forward _ := .step pos
  parted p hp := by
    have hcounted : Ahead cue { p with steps := p.steps + 1 } :=
      ⟨hp.running, hp.waiting, hp.output, hp.pause⟩
    rcases Forward.spent_or_unspent s p with ⟨n, hn, hlt⟩ | hfree
    · rw [funext fun fate => Forward.step_of_spent (s := s.fated cue fate) pos hp.running hn hlt]
      exact .ahead (fun _ => rfl) hcounted
    · rw [funext fun fate => Forward.step_of_unspent (s := s.fated cue fate) pos hp.running hfree]
      by_cases hyield : s.yieldsAt (p.steps + 1)
      · rw [funext fun fate => if_pos (c := (s.fated cue fate).yieldsAt (p.steps + 1)) hyield]
        exact parted_pause hcounted
      · rw [funext fun fate => if_neg (c := (s.fated cue fate).yieldsAt (p.steps + 1)) hyield]
        exact .ahead (fun _ => rfl) hcounted

/-! ## The evaluator -/

theorem guard {m : Fate → Eval ω α} (calls : Nat) (pos : Pos)
    (hm : calls < s.limits.maxCalls → Parts s cue m) :
    Parts s cue fun fate => if s.limits.maxCalls ≤ calls
      then raise .callsExceeded pos >>= fun _ : PUnit => m fate else m fate := by
  by_cases hc : s.limits.maxCalls ≤ calls
  · rw [funext fun fate => if_pos (c := s.limits.maxCalls ≤ calls) hc]
    exact ⟨fun _ => .quiet (Quiet.raise_bind _ _ _), fun _ hp => .ahead (fun _ => rfl) hp⟩
  · rw [funext fun fate => if_neg (c := s.limits.maxCalls ≤ calls) hc]
    exact hm (Nat.lt_of_not_le hc)

theorem loop {e : Fate → Evaluators ω} {body : List Stmt} {env : Env} {calls : Nat} (pos : Pos)
    (h : Parts s cue fun fate => (e fate).block [] body env calls) (rounds : Nat) :
    Parts s cue fun fate => (e fate).loop (s.fated cue fate) body pos env calls rounds := by
  induction rounds with
  | zero => exact throw _
  | succ n ih =>
      refine bind h fun flow => ?_
      cases flow with
      | leave => exact quiet (Quiet.pure _)
      | back value => exact quiet (Quiet.pure _)
      | next value => exact bind (step pos) fun _ => ih
      | again => exact bind (step pos) fun _ => ih

/-- Parting at the point is a discipline. -/
def discipline (s : Setting ω) (cue : Cue) : Discipline (s.fated cue) where
  Holds m := Parts s cue m
  Known _ := True
  quiet := .quiet
  bind := .bind
  land := .land
  check := .check
  emit := .emit
  sleep := .sleep
  step := .step
  closure _ _ _ _ := .create _
  callable _ _ h := .bind (.quiet (Quiet.look _)) fun c => h c fun _ _ _ _ => trivial
  guard calls pos _ h := .guard calls pos fun hc => h ⟨.undisturbed, hc⟩
  loop _ _ pos _ _ h := .loop pos h _

theorem program (s : Setting ω) (cue : Cue) (n : Nat) (env : Env) (last : Option Value)
    (program : List Stmt) :
    Parts s cue fun fate => runProgram (s.fated cue fate) n env last program :=
  Discipline.program (D := discipline s cue) (fun _ => n)
    (fun x _ env => ((discipline s cue).within (fun _ => trivial) (.throw _) n).1 x env 0) last env

end Parts

/-! ## Whole runs -/

/-- How a run that is aborted at a point compares with one that is stopped dead there and with one
that nothing disturbs: it has given out what had been given out, it has taken the steps that had been
taken, and it does not come to its end. -/
structure CutAt (cue : Cue) (cut stopped whole : Run ω) : Prop where
  aborted : cut.aborted = true
  interrupted : cut.interrupted = true
  outputs : cut.outputs = stopped.outputs
  steps : cut.steps = stopped.steps
  begun : stopped.outputs <+: whole.outputs
  output : ∀ n, cue = .output n → n ≠ 0 ∧ stopped.outputs.length = n
  crashed : stopped.ending = .crashed none
  ending : cut.ending = .aborted ∨ (¬cue.isPause ∧ ∃ fault, cut.ending = .failed fault)

theorem CutAt.unfinished {cue : Cue} {cut stopped whole : Run ω} (h : CutAt cue cut stopped whole)
    (last : Option Value) : cut.ending ≠ .finished last := by
  intro hlast
  rcases h.ending with hend | ⟨-, fault, hend⟩
  · rw [hend] at hlast
    cases hlast
  · rw [hend] at hlast
    cases hlast

theorem CutAt.ending_of_isPause {cue : Cue} {cut stopped whole : Run ω}
    (h : CutAt cue cut stopped whole) (hpause : cue.isPause) : cut.ending = .aborted := by
  rcases h.ending with hend | ⟨hnot, -⟩
  · exact hend
  · exact absurd hpause hnot

/-- A program that is aborted stops as such, unless a fault comes first. Behind a pause none does. -/
theorem Behind.ending {s : Setting ω} {cue : Cue} {p q : Progress ω}
    {r : EStateM.Result Halt (Progress ω) (Option Value)} (h : Behind cue p r)
    (hs : s.interruption = some ⟨cue, .abort⟩) (hsound : Sound s q r) (hsettled : Settled r) :
    endingOf r = .aborted ∨ (¬cue.isPause ∧ ∃ fault, endingOf r = .failed fault) := by
  cases r with
  | ok last q' =>
      have hrun : q'.aborted = false := hsettled
      have habort : q'.aborted = true := h.aborted
      rw [hrun] at habort
      cases habort
  | error halt q' =>
      cases halt with
      | aborted => exact .inl rfl
      | fault f =>
          refine .inr ⟨fun hc => ?_, f, rfl⟩
          obtain ⟨_, hhalt⟩ := h.halted hc
          cases hhalt
      | jump flow => exact hsettled.elim
      | crashed message =>
          obtain ⟨i, hi, heff⟩ := hsound.halt _ _ rfl
          rw [hs] at hi
          cases hi
          cases heff
      | exhausted =>
          have hrun := (hsound.halt _ _ rfl).1
          have habort : q'.aborted = true := h.aborted
          rw [hrun] at habort
          cases habort

namespace Interpreter

/-- How often a run pauses that nothing disturbs. -/
def pauses (i : Interpreter) (record : Store → Value → ω) (store : Store) (program : List Stmt) :
    Nat :=
  (lastState (i.result none record store program)).pauses

/-- An abort at a point of a run that is never reached changes nothing, and one at a point that is
reached cuts the run there. -/
theorem run_parted {i : Interpreter} (hi : i.aborted = false) (record : Store → Value → ω)
    {store : Store} (hfits : Fits store) {program : List Stmt}
    (hdepth : ∀ x ∈ program, (Part.stmt x).Within maxTreeDepth) (cue : Cue) :
    let run (interruption : Option Interruption) := i.run interruption record store program
    (run (some ⟨cue, .abort⟩) = run none ∧
      (∀ n, cue = .output n → n ≠ 0 → (run none).outputs.length < n) ∧
      ∀ n, cue = .pause n → n ≠ 0 → i.pauses record store program < n) ∨
    (CutAt cue (run (some ⟨cue, .abort⟩)) (run (some ⟨cue, .crash none⟩)) (run none) ∧
      ∀ n, cue = .pause n → n ≠ 0 ∧ n ≤ i.pauses record store program) := by
  intro run
  have hparted := (Parts.program (i.setting none record) cue (budget i.limits)
    ⟨(store.newFrame []).1, [i.globals]⟩ none program).parted { store := (store.newFrame []).2 }
    ⟨rfl, rfl, fun n _ hn => Nat.pos_of_ne_zero hn, fun n _ hn => Nat.pos_of_ne_zero hn⟩
  change Parted cue fun fate => i.result (fate.interruption cue) record store program at hparted
  have hrun : ∀ interruption, run interruption =
      conclude (store.newFrame []).1 (i.result interruption record store program) :=
    fun interruption => run_eq_conclude hi interruption record store program
  cases hparted with
  | ahead hsame h =>
      refine .inl ⟨?_, fun n hcue hn => ?_, h.pause⟩
      · rw [hrun, hrun]
        exact congrArg _ (hsame .aborted)
      · rw [hrun]
        exact Nat.lt_of_le_of_lt (Nat.le_of_eq List.length_reverse) (h.output n hcue hn)
  | behind p hstop hcue hbehind houtputs hpauses =>
      have hstop : i.result (some ⟨cue, .crash none⟩) record store program =
          .error (.crashed none) p := hstop
      have hbehind : Behind cue p (i.result (some ⟨cue, .abort⟩) record store program) := hbehind
      refine .inr ⟨?_, fun n hn => ⟨(hcue.pause n hn).1, ?_⟩⟩
      · rw [hrun, hrun, hrun, hstop]
        refine ⟨hbehind.aborted, hbehind.interrupted, ?_, hbehind.steps, List.reverse_prefix.2 houtputs,
          fun n hn => ?_, rfl, ?_⟩
        · exact congrArg List.reverse hbehind.outputs
        · obtain ⟨hpos, hlen⟩ := hcue.output n hn
          exact ⟨hpos, List.length_reverse.trans hlen⟩
        · exact hbehind.ending rfl (i.result_sound _ record hfits hdepth)
            (settled_runProgram _ _ _ _ _ _)
      · rw [← (hcue.pause n hn).2]
        exact hpauses

end Interpreter

end ScriptLab.Machine
