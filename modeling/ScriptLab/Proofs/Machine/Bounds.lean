import ScriptLab.Proofs.Machine.Forward
import ScriptLab.Proofs.Machine.Run
import ScriptLab.Proofs.Program.Depth

/-!
# Bounds that are never felt

The evaluator has two bounds of its own, on evaluations that are open at once and on the rounds of an
endless loop. A program that is not too deep never meets the first one, and meets the second one only
where there is no limit on steps. A run that has been aborted meets neither on its way out.
-/

namespace ScriptLab.Machine

open Program
open Text (Pos)

variable {ω : Type} {α β : Type}

/-- A store in which every statement in the body of a function has a property. -/
def EachBody (P : Stmt → Prop) (store : Store) : Prop :=
  ∀ params body env, Callable.closure params body env ∈ store.callables → ∀ x ∈ body, P x

namespace EachBody

variable {P : Stmt → Prop} {store : Store}

theorem of_callables {after : Store} (h : EachBody P store)
    (heq : after.callables = store.callables) : EachBody P after := by
  intro params body env hmem
  rw [heq] at hmem
  exact h params body env hmem

theorem newCallable (h : EachBody P store) {c : Callable}
    (hc : ∀ params body env, c = .closure params body env → ∀ x ∈ body, P x) :
    EachBody P (store.newCallable c).2 := by
  intro params body env hmem
  rcases Array.mem_push.1 hmem with hmem | heq
  · exact h params body env hmem
  · exact hc params body env heq.symm

/-- The provided functions have no bodies of their own. -/
theorem builtinBindings (h : EachBody P store) (functions : List Builtin) :
    EachBody P (Machine.builtinBindings functions store).2 := by
  induction functions generalizing store with
  | nil => exact h
  | cons function rest ih => exact ih (h.newCallable fun _ _ _ heq => nomatch heq)

theorem empty : EachBody P {} :=
  fun _ _ _ hmem => absurd hmem (Array.not_mem_empty _)

end EachBody

/-- A body of a function whose statements leave room for the function around them. -/
def Shallow (body : List Stmt) : Prop :=
  ∀ x ∈ body, (Part.stmt x).Within (maxTreeDepth - 1)

/-- A store all of whose functions have bodies that are not too deep. -/
def Fits (store : Store) : Prop :=
  ∀ params body env, Callable.closure params body env ∈ store.callables → Shallow body

theorem Fits.of_callables {store after : Store} (h : Fits store)
    (heq : after.callables = store.callables) : Fits after :=
  EachBody.of_callables h heq

/-- What holds of the way in which an action stops. -/
def Halt.Sound (s : Setting ω) (p : Progress ω) : Halt → Prop
  | .exhausted => p.aborted = false ∧ s.limits.maxSteps = none
  | .crashed message => ∃ i, s.interruption = some i ∧ i.effect = .crash message
  | _ => True

/-- A run that has not used up its limit on steps. -/
def Progress.InLimit (s : Setting ω) (p : Progress ω) : Prop :=
  ∀ n, s.limits.maxSteps = some n → p.steps ≤ n

/-- What holds of the result to which an action comes from a state. -/
structure Sound (s : Setting ω) (p : Progress ω) (r : EStateM.Result Halt (Progress ω) α) :
    Prop where
  fits : Fits (lastState r).store
  steps : p.steps ≤ (lastState r).steps
  metered : Unspent r → (lastState r).InLimit s
  halt : ∀ halt q, r = .error halt q → halt.Sound s q

/-- An action that meets no bound of the evaluator but for want of a limit on steps. -/
def Bounded (s : Setting ω) (m : Eval ω α) : Prop :=
  ∀ p : Progress ω, Fits p.store → p.InLimit s → Sound s p (m p)

namespace Bounded

variable {s : Setting ω}

/-! ## Sequencing -/

theorem bind_sound {m : Eval ω α} {f : α → Eval ω β} {p : Progress ω} (hr : Sound s p (m p))
    (hf : ∀ a q, m p = .ok a q → p.steps ≤ q.steps → Fits q.store → q.InLimit s →
      Sound s q (f a q)) : Sound s p ((m >>= f) p) := by
  cases h : m p with
  | ok a q =>
      rw [h] at hr
      rw [bind_of_ok h]
      have hfa := hf a q h hr.steps hr.fits (hr.metered trivial)
      exact ⟨hfa.fits, Nat.le_trans hr.steps hfa.steps, hfa.metered, hfa.halt⟩
  | error halt q =>
      rw [h] at hr
      rw [bind_of_error h]
      refine ⟨hr.fits, hr.steps, hr.metered, fun halt' q' heq => ?_⟩
      cases heq
      exact hr.halt halt q rfl

theorem bind {m : Eval ω α} {f : α → Eval ω β} (hm : Bounded s m) (hf : ∀ a, Bounded s (f a)) :
    Bounded s (m >>= f) :=
  fun p hfits hp => bind_sound (hm p hfits hp) fun a q _ _ hq hle => hf a q hq hle

theorem quiet {m : Eval ω α} (hm : Quiet m) : Bounded s m := by
  intro p hfits hp
  rcases hm p.store with ⟨a, after, hafter, h⟩ | ⟨halt, hown, h⟩
  · rw [h p rfl]
    exact ⟨hfits.of_callables hafter.callables, Nat.le_refl _, fun _ => hp, fun _ _ heq => nomatch heq⟩
  · rw [h p rfl]
    refine ⟨hfits, Nat.le_refl _, fun _ => hp, fun halt' q' heq => ?_⟩
    cases heq
    cases halt with
    | fault f => trivial
    | jump flow => trivial
    | _ => cases hown

/-- An action that leaves the functions alone and neither crashes nor gives up by itself. -/
theorem of_halt {m : Eval ω α} (hm : Forward s m)
    (hstore : ∀ p, (lastState (m p)).store = p.store)
    (hhalt : ∀ p halt q, m p = .error halt q → halt.Sound s q) : Bounded s m :=
  fun p hfits hp => ⟨by rw [hstore]; exact hfits, (hm.advance p).steps,
    fun hspent n hn => hm.metered p n hn (hp n hn) hspent, hhalt p⟩

theorem land {m : Eval ω Flow} (hm : Bounded s m) : Bounded s (Machine.land m) := by
  intro p hfits hp
  have h := hm p hfits hp
  rw [land_apply]
  cases hr : m p with
  | ok a q =>
      rw [hr] at h
      exact h
  | error halt q =>
      rw [hr] at h
      cases halt with
      | jump flow => exact ⟨h.fits, h.steps, fun _ => h.metered id, fun _ _ heq => nomatch heq⟩
      | _ => exact h

theorem check : Bounded (ω := ω) s checkAborted := by
  refine of_halt .check (fun p => by rw [lastState_checkAborted]) fun p halt q h => ?_
  rw [checkAborted_apply] at h
  split at h
  · cases h
    trivial
  · cases h

/-! ## The actions that let the world outside in -/

theorem interrupt_halt {due : Cue → Progress ω → Bool} {p q : Progress ω} {halt : Halt}
    (h : s.interrupt due p = .error halt q) : halt.Sound s q := by
  unfold Setting.interrupt at h
  cases hi : s.interruption with
  | none =>
      rw [hi] at h
      cases h
  | some i =>
      rw [hi] at h
      dsimp only at h
      split at h
      · split at h
        · cases h
        · next message heff =>
            cases h
            exact ⟨i, hi, heff⟩
        · cases h
      · cases h

theorem pause_halt {p q : Progress ω} {halt : Halt} (h : s.pause p = .error halt q) :
    halt.Sound s q := by
  rw [Setting.pause_apply] at h
  split at h
  · split at h
    · cases h
      trivial
    · cases h
  · next hint =>
      cases h
      exact interrupt_halt hint

/-- A pause that ends has not aborted the run. -/
theorem pause_running {p q : Progress ω} (h : s.pause p = .ok () q) : q.aborted = false := by
  rw [Setting.pause_apply] at h
  split at h
  · split at h
    · cases h
    · next hq =>
        cases h
        simpa using hq
  · cases h

theorem emit (v : Value) : Bounded s (s.emit v) := by
  refine of_halt (.emit v) (Forward.store_emit v) fun p halt q h => ?_
  rw [Setting.emit_apply] at h
  split at h
  · cases h
  · exact interrupt_halt h

theorem sleep (millis : Nat) : Bounded s (s.sleep millis) := by
  refine of_halt (.sleep millis) (Forward.store_sleep millis) fun p halt q h => ?_
  rw [Setting.sleep_apply] at h
  split at h
  · cases h
    trivial
  · exact pause_halt h

/-- What a step may come to: it is refused, or it pauses, or it is just counted. -/
theorem step_cases (s : Setting ω) (pos : Pos) (p : Progress ω) :
    s.step pos p = .error .aborted p ∨
      s.step pos p = .error (.fault ⟨.stepsExceeded, pos⟩) { p with steps := p.steps + 1 } ∨
      s.step pos p = s.pause { p with steps := p.steps + 1 } ∨
      (p.aborted = false ∧ s.step pos p = .ok () { p with steps := p.steps + 1 }) := by
  rcases Bool.eq_false_or_eq_true p.aborted with hp | hp
  · exact .inl (Forward.step_of_aborted pos hp)
  rcases Forward.spent_or_unspent s p with ⟨n, hn, hlt⟩ | hfree
  · exact .inr (.inl (Forward.step_of_spent pos hp hn hlt))
  · rw [Forward.step_of_unspent pos hp hfree]
    split
    · exact .inr (.inr (.inl rfl))
    · exact .inr (.inr (.inr ⟨hp, rfl⟩))

theorem step (pos : Pos) : Bounded s (s.step pos) := by
  refine of_halt (.step pos) (Forward.store_step pos) fun p halt q hq => ?_
  rcases step_cases s pos p with h | h | h | ⟨_, h⟩
  · rw [h] at hq; cases hq; trivial
  · rw [h] at hq; cases hq; trivial
  · rw [h] at hq
    exact pause_halt hq
  · rw [h] at hq; cases hq

/-- A step that is made finds the run going on. -/
theorem step_running {p q : Progress ω} {pos : Pos} (hq : s.step pos p = .ok () q) :
    q.aborted = false ∧ q.steps = p.steps + 1 := by
  rcases step_cases s pos p with h | h | h | ⟨hp, h⟩
  · rw [h] at hq; cases hq
  · rw [h] at hq; cases hq
  · have hlast := Forward.lastState_pause (s := s) { p with steps := p.steps + 1 }
    rw [h] at hq
    rw [hq] at hlast
    obtain ⟨_, _, hlast⟩ := hlast
    exact ⟨pause_running hq, congrArg Progress.steps hlast⟩
  · rw [h] at hq
    cases hq
    exact ⟨hp, rfl⟩

/-! ## Functions, calls and loops -/

theorem closure (params : List String) {body : List Stmt} (env : Env) (hbody : Shallow body) :
    Bounded (ω := ω) s (create (·.newCallable (.closure params body env))) := by
  intro p hfits hp
  refine ⟨EachBody.newCallable hfits ?_, Nat.le_refl _, fun _ => hp, fun _ _ heq => nomatch heq⟩
  rintro _ _ _ ⟨⟩
  exact hbody

theorem callable (id : Nat) {f : Option Callable → Eval ω α}
    (hf : ∀ c, (∀ params body env, c = some (.closure params body env) → Shallow body) →
      Bounded s (f c)) :
    Bounded s (look (·.callables[id]?) >>= f) :=
  fun p hfits hp => hf p.store.callables[id]? (fun params body env heq =>
    hfits params body env (Array.mem_of_getElem? heq)) p hfits hp

theorem guard {m : Eval ω α} (calls : Nat) (pos : Pos)
    (hm : calls < s.limits.maxCalls → Bounded s m) :
    Bounded s (if s.limits.maxCalls ≤ calls then Machine.raise .callsExceeded pos >>= fun _ : PUnit => m
      else m) := by
  by_cases hc : s.limits.maxCalls ≤ calls
  · rw [if_pos hc]
    exact quiet (Quiet.raise_bind _ _ _)
  · rw [if_neg hc]
    exact hm (Nat.lt_of_not_le hc)

/-- The rounds left to a loop reach beyond the limit on steps, and after a round the run goes on. -/
theorem loop_sound {e : Evaluators ω} {body : List Stmt} {env : Env} {calls : Nat} (pos : Pos)
    (h : Bounded s (e.block [] body env calls)) (k : Nat) (p : Progress ω)
    (hfits : Fits p.store) (hp : p.InLimit s)
    (hk : ∀ n, s.limits.maxSteps = some n → n < p.steps + k) (hrun : k = 0 → p.aborted = false) :
    Sound s p (e.loop s body pos env calls k p) := by
  induction k generalizing p with
  | zero =>
      refine ⟨hfits, Nat.le_refl _, fun _ => hp, fun halt q heq => ?_⟩
      cases heq
      refine ⟨hrun rfl, ?_⟩
      cases hm : s.limits.maxSteps with
      | none => rfl
      | some n =>
          have := hk n hm
          have := hp n hm
          omega
  | succ k ih =>
      refine bind_sound (h p hfits hp) fun flow q _ hle hqfits hqp => ?_
      have hround : Sound s q ((s.step pos >>= fun _ => e.loop s body pos env calls k) q) := by
        refine bind_sound (step pos q hqfits hqp) fun _ r hr _ hrfits hrp => ?_
        obtain ⟨hrun, hsteps⟩ := step_running hr
        refine ih r hrfits hrp (fun n hn => ?_) fun _ => hrun
        have := hk n hn
        omega
      cases flow with
      | leave | back =>
          exact ⟨hqfits, Nat.le_refl _, fun _ => hqp, fun _ _ heq => nomatch heq⟩
      | next | again => exact hround

theorem loop {e : Evaluators ω} {body : List Stmt} {env : Env} {calls : Nat} (pos : Pos)
    (hrounds : s.rounds = maxRounds s.limits) (h : Bounded s (e.block [] body env calls)) :
    Bounded s (e.loop s body pos env calls s.rounds) := by
  intro p hfits hp
  have hpos : s.rounds ≠ 0 := by
    rw [hrounds, maxRounds]
    split
    · exact Nat.succ_ne_zero _
    · decide
  refine loop_sound pos h _ p hfits hp (fun n hn => ?_) fun h0 => absurd h0 hpos
  rw [hrounds, maxRounds, hn]
  dsimp only
  omega

/-! ## The evaluator -/

/-- Staying within bounds is a discipline. -/
def discipline (hrounds : s.rounds = maxRounds s.limits) : Discipline fun _ : Unit => s where
  Holds m := Bounded s (m ())
  Known := Shallow
  quiet := .quiet
  bind := .bind
  land := .land
  check := .check
  emit := .emit
  sleep := .sleep
  step := .step
  closure params _ env := .closure params env
  callable id _ h := .callable id h
  guard calls pos _ h := .guard calls pos fun hc => h ⟨(), hc⟩
  loop _ _ pos _ _ h := .loop pos hrounds h

/-- What a statement evaluates is less deep than the statement. -/
theorem within_evaluated {x : Stmt} {d : Nat} (h : (Part.stmt x).Within (d + 1)) :
    ∀ c ∈ Discipline.evaluated x, c.Within d := by
  cases x with
  | assign pos target op value =>
      intro c hc
      rcases List.mem_append.1 hc with hc | hc
      · exact h c hc
      · have htarget : (Part.expr target).Within d := h _ List.mem_cons_self
        obtain ⟨k, rfl⟩ : ∃ k, d = k + 1 := ⟨d - 1, by have := htarget.pos; omega⟩
        exact (htarget c hc).mono (Nat.le_succ k)
  | _ => exact h

/-- Whether a bound on open evaluations leaves room for a part of some depth and for a whole tree in
each call that may still be opened. -/
structure Room (s : Setting ω) (n d calls : Nat) : Prop where
  depth : d ≤ maxTreeDepth
  allowed : calls ≤ s.limits.maxCalls
  room : d + maxTreeDepth * (s.limits.maxCalls - calls) ≤ n

theorem Room.succ {n d calls : Nat} (h : Room s (n + 1) (d + 1) calls) : Room s n d calls :=
  ⟨Nat.le_of_succ_le h.depth, h.allowed, by have := h.room; omega⟩

/-- A call leaves room for the body of a function. -/
theorem Room.call {n d calls : Nat} (h : Room s (n + 1) (d + 1) calls)
    (hcalls : calls < s.limits.maxCalls) : Room s n (maxTreeDepth - 1) (calls + 1) := by
  refine ⟨Nat.sub_le _ _, hcalls, ?_⟩
  have hroom := h.room
  have : s.limits.maxCalls - calls = (s.limits.maxCalls - (calls + 1)) + 1 := by omega
  rw [this, Nat.mul_add] at hroom
  omega

/-- The evaluators with a bound that leaves room stay within bounds. -/
theorem within (hrounds : s.rounds = maxRounds s.limits) (n : Nat) :
    ∀ d calls (c : Part), c.Within d → Room s n d calls →
      (discipline hrounds).Part (Discipline.bounded (fun _ => s) fun _ => n) calls c := by
  induction n with
  | zero =>
      intro d calls c hd hroom
      have := hd.pos
      have := hroom.room
      omega
  | succ n ih =>
      intro d calls c hd hroom
      obtain ⟨d, rfl⟩ : ∃ k, d = k + 1 := ⟨d - 1, by have := hd.pos; omega⟩
      have hparts : ∀ c, c.Within d →
          (discipline hrounds).Part (Discipline.bounded (fun _ => s) fun _ => n) calls c :=
        fun c hc => ih d calls c hc hroom.succ
      cases c with
      | stmt x =>
          exact fun env => Discipline.onStmt (fun c hc => hparts c (within_evaluated hd c hc)) env
      | expr x =>
          refine fun env => Discipline.onExpr (fun c hc => hparts c (hd c hc)) ?_ ?_ env
          · rintro pos params body rfl y hy
            have hbody : (Part.stmt y).Within d := hd _ (List.mem_map_of_mem hy)
            exact hbody.mono (by have := hroom.depth; omega)
          · rintro ⟨_, hcalls⟩ body hbody y hy
            exact ih _ _ _ (hbody y hy) (hroom.call hcalls)

theorem program (hrounds : s.rounds = maxRounds s.limits) {program : List Stmt}
    (hdepth : ∀ x ∈ program, (Part.stmt x).Within maxTreeDepth) (env : Env)
    (last : Option Value) : Bounded s (runProgram s (budget s.limits) env last program) := by
  have hroom : Room s (budget s.limits) maxTreeDepth 0 := by
    refine ⟨Nat.le_refl _, Nat.zero_le _, ?_⟩
    rw [budget, Nat.sub_zero, Nat.mul_add]
    omega
  exact Discipline.program (D := discipline hrounds) (fun _ => budget s.limits)
    (fun x hx env => within hrounds _ _ 0 (.stmt x) (hdepth x hx) hroom env) last env

end Bounded

/-! ## Whole runs -/

namespace Interpreter

theorem fits_create (consts : Entries String Value) (limits : Limits) :
    Fits (create {} consts limits).2 :=
  EachBody.of_callables (EachBody.builtinBindings EachBody.empty Builtin.all) rfl

/-- A program that is not too deep runs into no bound of the evaluator under a limit on steps, nor
behind an abort, and crashes only where its surroundings make it. -/
theorem result_sound (i : Interpreter) (interruption : Option Interruption)
    (record : Store → Value → ω) {store : Store} (hfits : Fits store) {program : List Stmt}
    (hdepth : ∀ x ∈ program, (Part.stmt x).Within maxTreeDepth) :
    Sound (i.setting interruption record) { store := (store.newFrame []).2 }
      (i.result interruption record store program) :=
  Bounded.program (s := i.setting interruption record) rfl hdepth _ none _
    (hfits.of_callables rfl) fun _ _ => Nat.zero_le _

end Interpreter

end ScriptLab.Machine
