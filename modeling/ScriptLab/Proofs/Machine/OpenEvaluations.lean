import Mathlib
import ScriptLab.Program.Equality
import ScriptLab.Proofs.Machine.Accord
import ScriptLab.Proofs.Machine.Interruption

/-!
# Evaluations that are open at once

Evaluators for the parts of a tree can be given from outside at any level. A program that has been
parsed opens no more evaluations, one inside the other, than a tree may be deep, for itself and for
each call that may be open. What would evaluate any deeper makes no difference to its run, and
evaluators without any bound run it in the same way.
-/

namespace ScriptLab.Machine

open Program
open Text (Pos)

variable {ω : Type} {α β : Type}

/-! ## Layers of evaluators -/

namespace Evaluators

/-- Evaluators that give what is inside a part to the given ones. -/
def outer (s : Setting ω) (e : Evaluators ω) : Evaluators ω :=
  ⟨e.onStmt s, e.onExpr s⟩

/-- Evaluators of which a number may be open, one inside the other. What would be opened inside the
last goes to those at the bottom. -/
def layered (s : Setting ω) (bottom : Evaluators ω) : Nat → Evaluators ω
  | 0 => bottom
  | n + 1 => (layered s bottom n).outer s

/-- Evaluators that give up at once. -/
def spent : Evaluators ω :=
  ⟨fun _ _ _ => throw .exhausted, fun _ _ _ => throw .exhausted⟩

/-- Evaluators without a bound: what is inside a part they evaluate themselves. -/
def Unbounded (s : Setting ω) (e : Evaluators ω) : Prop :=
  e.outer s = e

/-- Two evaluators side by side. -/
def pair (e e' : Evaluators ω) : Bool → Evaluators ω
  | false => e
  | true => e'

theorem layered_spent (s : Setting ω) (n : Nat) :
    layered s spent n = ⟨runWithin s n, evalWithin s n⟩ := by
  induction n with
  | zero => rfl
  | succ n ih =>
      rw [layered, ih]
      rfl

theorem layered_layered (s : Setting ω) (bottom : Evaluators ω) (m n : Nat) :
    layered s (layered s bottom m) n = layered s bottom (m + n) := by
  induction n with
  | zero => rfl
  | succ n ih => exact congrArg (outer s) ih

theorem Unbounded.layered {s : Setting ω} {e : Evaluators ω} (h : e.Unbounded s) (n : Nat) :
    layered s e n = e := by
  induction n with
  | zero => rfl
  | succ n ih =>
      rw [Evaluators.layered, ih]
      exact h

end Evaluators

/-! ## Room for evaluations -/

/-- A store all of whose functions have bodies within a depth. -/
def BodiesWithin (depth : Nat) (store : Store) : Prop :=
  EachBody (fun x => (Part.stmt x).Within depth) store

/-- Whether there is room for a part of some depth, and for a body within another one in each call that
may still be opened. -/
structure Ample (s : Setting ω) (depth n d calls : Nat) : Prop where
  shallow : d ≤ depth + 1
  room : d + (depth + 1) * (s.limits.maxCalls - calls) ≤ n

namespace Ample

variable {s : Setting ω} {depth n d calls : Nat}

theorem succ (h : Ample s depth (n + 1) (d + 1) calls) : Ample s depth n d calls :=
  ⟨Nat.le_of_succ_le h.shallow, by have := h.room; omega⟩

/-- A call leaves room for the body of a function. -/
theorem call (h : Ample s depth (n + 1) (d + 1) calls) (hcalls : calls < s.limits.maxCalls) :
    Ample s depth n depth (calls + 1) := by
  refine ⟨Nat.le_succ _, ?_⟩
  have hroom := h.room
  have : s.limits.maxCalls - calls = (s.limits.maxCalls - (calls + 1)) + 1 := by omega
  rw [this, Nat.mul_add] at hroom
  omega

/-- The budget of a run leaves room for a program. -/
theorem budget (s : Setting ω) :
    Ample s (maxTreeDepth - 1) (budget s.limits) maxTreeDepth 0 := by
  refine ⟨Nat.le_refl _, ?_⟩
  change maxTreeDepth + maxTreeDepth * (s.limits.maxCalls - 0) ≤ maxTreeDepth * (_ + 1)
  rw [Nat.sub_zero, Nat.mul_add]
  omega

end Ample

/-! ## Evaluations that are the same -/

/-- Actions that do the same wherever all functions have bodies within a depth, and leave it so. -/
def Same (depth : Nat) (m m' : Eval ω α) : Prop :=
  ∀ p : Progress ω, BodiesWithin depth p.store →
    m' p = m p ∧ BodiesWithin depth (lastState (m p)).store

namespace Same

variable {s : Setting ω} {depth : Nat}

theorem bind {m m' : Eval ω α} {f f' : α → Eval ω β} (hm : Same depth m m')
    (hf : ∀ a, Same depth (f a) (f' a)) : Same depth (m >>= f) (m' >>= f') := by
  intro p hp
  obtain ⟨heq, hstore⟩ := hm p hp
  rw [bind_apply, bind_apply, heq]
  cases hr : m p with
  | ok a q =>
      rw [hr] at hstore
      exact hf a q hstore
  | error halt q =>
      rw [hr] at hstore
      exact ⟨rfl, hstore⟩

theorem quiet {m : Eval ω α} (hm : Quiet m) : Same depth m m := by
  intro p hp
  refine ⟨rfl, ?_⟩
  rcases hm p.store with ⟨a, after, hafter, h⟩ | ⟨halt, _, h⟩
  · rw [h p rfl]
    exact EachBody.of_callables hp hafter.callables
  · rw [h p rfl]
    exact hp

theorem land {m m' : Eval ω Flow} (hm : Same depth m m') :
    Same depth (Machine.land m) (Machine.land m') := by
  intro p hp
  obtain ⟨heq, hstore⟩ := hm p hp
  rw [lastState_land, land_apply, land_apply, heq]
  exact ⟨rfl, hstore⟩

theorem blind {m : Eval ω α} (hm : Blind m) : Same depth m m := by
  intro p hp
  rw [(hm.still p).1]
  exact ⟨rfl, hp⟩

theorem emit (v : Value) : Same depth (s.emit v) (s.emit v) := by
  intro p hp
  refine ⟨rfl, ?_⟩
  rw [Forward.store_emit]
  exact hp

theorem closure (params : List String) {body : List Stmt} (env : Env)
    (hbody : ∀ x ∈ body, (Part.stmt x).Within depth) :
    Same (ω := ω) depth (create (·.newCallable (.closure params body env)))
      (create (·.newCallable (.closure params body env))) := by
  intro p hp
  refine ⟨rfl, EachBody.newCallable hp ?_⟩
  rintro _ _ _ ⟨⟩
  exact hbody

theorem callable (id : Nat) {f f' : Option Callable → Eval ω α}
    (hf : ∀ c, (∀ params body env, c = some (.closure params body env) →
      ∀ x ∈ body, (Part.stmt x).Within depth) → Same depth (f c) (f' c)) :
    Same depth (look (·.callables[id]?) >>= f) (look (·.callables[id]?) >>= f') :=
  fun p hp => hf p.store.callables[id]? (fun params body env heq =>
    hp params body env (Array.mem_of_getElem? heq)) p hp

/-- Doing the same is a discipline. -/
def discipline (s : Setting ω) (depth : Nat) : Discipline fun _ : Bool => s where
  Holds m := Same depth (m false) (m true)
  Known body := ∀ x ∈ body, (Part.stmt x).Within depth
  quiet := .quiet
  bind := .bind
  land := .land
  check := .blind blind_checkAborted
  emit := .emit
  sleep millis := .blind (s.blind_sleep millis)
  step pos := .blind (s.blind_step pos)
  closure params _ env := .closure params env
  callable id _ h := .callable id h
  guard calls pos _ h :=
    guard_rule (fun m => Same depth (m false) (m true)) (fun _ => s) (fun _ => rfl) calls pos
      (.quiet (Quiet.raise_bind _ _ _)) fun hc => h ⟨false, hc⟩
  loop e body pos env calls h :=
    loop_rule (fun m => Same depth (m false) (m true)) (fun _ => s) e body pos env calls
      (fun _ => .quiet (Quiet.pure _)) (fun _ hp => ⟨rfl, hp⟩) .bind
      (fun hm => .bind (.blind (s.blind_step pos)) fun _ => hm) h _

/-- Evaluators do the same with a part as soon as those for what is inside do. -/
theorem outer {e e' : Evaluators ω} {n d calls : Nat} {c : Part} (hc : c.Within (d + 1))
    (hroom : Ample s depth (n + 1) (d + 1) calls)
    (h : ∀ d calls c, c.Within d → Ample s depth n d calls →
      (discipline s depth).Part (.pair e e') calls c) :
    (discipline s depth).Part (.pair (e.outer s) (e'.outer s)) calls c := by
  have hparts : ∀ c, c.Within d → (discipline s depth).Part (.pair e e') calls c :=
    fun c hc => h d calls c hc hroom.succ
  cases c with
  | stmt x =>
      -- The parts of a place that is assigned to are evaluated by the statement itself.
      exact fun env =>
        Discipline.onStmt (fun c hin => hparts c (Bounded.within_evaluated hc c hin)) env
  | expr x =>
      refine fun env => Discipline.onExpr (fun c hin => hparts c (hc c hin)) ?_ ?_ env
      · rintro pos params body rfl y hy
        have hbody : (Part.stmt y).Within d := hc _ (List.mem_map_of_mem hy)
        exact hbody.mono (Nat.le_of_succ_le_succ hroom.shallow)
      · -- A body comes from the store, and the room for it from the call that opens.
        rintro ⟨_, hcalls⟩ body hbody y hy
        exact h depth (calls + 1) (.stmt y) (hbody y hy) (hroom.call hcalls)

/-- What stands below layers that leave room makes no difference. -/
theorem layered (bottom bottom' : Evaluators ω) (n : Nat) :
    ∀ d calls (c : Part), c.Within d → Ample s depth n d calls →
      (discipline s depth).Part (.pair (.layered s bottom n) (.layered s bottom' n)) calls c := by
  induction n with
  | zero =>
      intro d calls c hd hroom
      have := hd.pos
      have := hroom.room
      omega
  | succ n ih =>
      intro d calls c hd hroom
      obtain ⟨d, rfl⟩ : ∃ k, d = k + 1 := ⟨d - 1, by have := hd.pos; omega⟩
      exact outer hd hroom ih

end Same

/-! ## Evaluators without a bound -/

theorem exists_bodiesWithin (store : Store) : ∃ depth, BodiesWithin depth store := by
  have h : ∀ callables : List Callable, ∃ depth, ∀ params body env,
      Callable.closure params body env ∈ callables → ∀ x ∈ body, (Part.stmt x).Within depth := by
    intro callables
    induction callables with
    | nil => exact ⟨0, fun _ _ _ hmem => nomatch hmem⟩
    | cons c rest ih =>
        obtain ⟨n, hn⟩ := ih
        cases c with
        | builtin function =>
            exact ⟨n, fun params body env hmem => hn params body env (by simpa using hmem)⟩
        | closure params body env =>
            obtain ⟨m, hm⟩ := Part.exists_forall_within fun c (_ : c ∈ Part.ofStmts body) =>
              c.exists_within
            refine ⟨max m n, fun params' body' env' hmem x hx => ?_⟩
            rcases List.mem_cons.1 hmem with heq | hmem
            · cases heq
              exact (hm _ (List.mem_map_of_mem hx)).mono (Nat.le_max_left _ _)
            · exact (hn params' body' env' hmem x hx).mono (Nat.le_max_right _ _)
  obtain ⟨depth, hdepth⟩ := h store.callables.toList
  exact ⟨depth, fun params body env hmem => hdepth params body env hmem.val⟩

/-- The bounds on open evaluations that leave room for a part and for the functions in a store. -/
def Suffices (s : Setting ω) (c : Part) (calls : Nat) (store : Store) (n : Nat) : Prop :=
  ∃ depth d, BodiesWithin depth store ∧ c.Within d ∧ Ample s depth n d calls

theorem exists_suffices (s : Setting ω) (c : Part) (calls : Nat) (store : Store) :
    ∃ n, Suffices s c calls store n := by
  obtain ⟨depth, hdepth⟩ := exists_bodiesWithin store
  obtain ⟨d, hd⟩ := c.exists_within
  refine ⟨d + (max depth d + 1) * (s.limits.maxCalls - calls), max depth d, d,
    fun params body env hmem x hx => ?_, hd, ?_, Nat.le_refl _⟩
  · exact (hdepth params body env hmem x hx).mono (Nat.le_max_left _ _)
  · exact Nat.le_succ_of_le (Nat.le_max_right _ _)

/-- The least bound on open evaluations that leaves room. -/
noncomputable def needed (s : Setting ω) (c : Part) (calls : Nat) (store : Store) : Nat :=
  sInf {n | Suffices s c calls store n}

theorem suffices_needed (s : Setting ω) (c : Part) (calls : Nat) (store : Store) :
    Suffices s c calls store (needed s c calls store) :=
  Nat.sInf_mem (exists_suffices s c calls store)

namespace Evaluators

/-- Evaluators that give each evaluation the room that it needs. -/
noncomputable def free (s : Setting ω) : Evaluators ω where
  stmt x env calls p := (layered s spent (needed s (.stmt x) calls p.store)).stmt x env calls p
  expr x env calls p := (layered s spent (needed s (.expr x) calls p.store)).expr x env calls p

end Evaluators

namespace Same

variable {s : Setting ω} {depth n d calls : Nat}

/-- More layers than are needed make no difference. -/
theorem of_le {c : Part} {k : Nat} (hc : c.Within d) (hroom : Ample s depth k d calls)
    (hkn : k ≤ n) :
    (discipline s depth).Part (.pair (.layered s .spent k) (.layered s .spent n)) calls c := by
  have h := layered .spent (.layered s .spent (n - k)) k d calls c hc hroom
  rw [Evaluators.layered_layered, Nat.sub_add_cancel hkn] at h
  exact h

/-- Evaluators that take the room they need do what any with enough room do. -/
theorem free {c : Part} (hc : c.Within d) (hroom : Ample s depth n d calls) :
    (discipline s depth).Part (.pair (.layered s .spent n) (.free s)) calls c := by
  -- The bound taken at a state depends on it, but is never greater than `n`.
  have hkeep := layered .spent .spent n d calls c hc hroom
  cases c with
  | stmt x =>
      intro env p hp
      obtain ⟨depth', d', hbodies, hd', hroom'⟩ := suffices_needed s (.stmt x) calls p.store
      have hle : needed s (.stmt x) calls p.store ≤ n := Nat.sInf_le ⟨depth, d, hp, hc, hroom⟩
      exact ⟨(of_le hd' hroom' hle env p hbodies).1.symm, (hkeep env p hp).2⟩
  | expr x =>
      intro env p hp
      obtain ⟨depth', d', hbodies, hd', hroom'⟩ := suffices_needed s (.expr x) calls p.store
      have hle : needed s (.expr x) calls p.store ≤ n := Nat.sInf_le ⟨depth, d, hp, hc, hroom⟩
      exact ⟨(of_le hd' hroom' hle env p hbodies).1.symm, (hkeep env p hp).2⟩

end Same

/-- Evaluators that take the room they need are without a bound. -/
theorem Evaluators.free_unbounded (s : Setting ω) : (free s).Unbounded s := by
  have hpart : ∀ (c : Part) (calls : Nat) (store : Store), ∃ depth, BodiesWithin depth store ∧
      (Same.discipline s depth).Part
        (pair (layered s spent (needed s c calls store)) ((free s).outer s)) calls c := by
    intro c calls store
    obtain ⟨depth, d, hbodies, hd, hroom⟩ := suffices_needed s c calls store
    refine ⟨depth, hbodies, ?_⟩
    generalize needed s c calls store = n at hroom ⊢
    have := hd.pos
    have := hroom.room
    obtain ⟨d, rfl⟩ : ∃ k, d = k + 1 := ⟨d - 1, by omega⟩
    obtain ⟨n, rfl⟩ : ∃ k, n = k + 1 := ⟨n - 1, by omega⟩
    exact Same.outer hd hroom fun d calls c hd hroom => Same.free hd hroom
  have hstmt : ((free s).outer s).stmt = (free s).stmt := by
    funext x env calls p
    obtain ⟨depth, hbodies, h⟩ := hpart (.stmt x) calls p.store
    exact (h env p hbodies).1
  have hexpr : ((free s).outer s).expr = (free s).expr := by
    funext x env calls p
    obtain ⟨depth, hbodies, h⟩ := hpart (.expr x) calls p.store
    exact (h env p hbodies).1
  exact congrArg₂ Evaluators.mk hstmt hexpr

/-! ## Whole runs -/

/-- The stores that interpreters come to hold: each makes one of its own, and runs programs that have
been parsed. -/
inductive Reached : Store → Prop
  | empty : Reached {}
  | create {store : Store} (consts : Entries String Value) (limits : Limits)
      (h : Reached store) : Reached (Interpreter.create store consts limits).2
  | run {ω : Type} {store : Store} {dialect : Dialect} {code : String} {program : List Stmt}
      (i : Interpreter) (interruption : Option Interruption) (record : Store → Value → ω)
      (h : Reached store) (hparse : parse dialect code = .ok program) :
      Reached (i.run interruption record store program).store

theorem callables_storeBehind {frame : Nat}
    (r : EStateM.Result Halt (Progress ω) (Option Value)) :
    (storeBehind frame r).callables = (lastState r).store.callables := by
  rcases r with _ | ⟨halt, _⟩
  · rfl
  · cases halt <;> rfl

/-- No function of a program that has been parsed is too deep. -/
theorem Reached.fits {store : Store} (h : Reached store) : Fits store := by
  induction h with
  | empty => exact EachBody.empty
  | create consts limits _ ih =>
      exact EachBody.of_callables (EachBody.builtinBindings ih Builtin.all) rfl
  | run i interruption record _ hparse ih =>
      rcases Bool.eq_false_or_eq_true i.aborted with ha | ha
      · rw [Interpreter.run_of_aborted ha]
        exact ih
      · rw [Interpreter.run_eq_conclude ha]
        have hsound := i.result_sound interruption record ih (within_of_parse hparse)
        exact hsound.fits.of_callables (callables_storeBehind _)

namespace Interpreter

/-- Runs a program over any evaluators. -/
def runOver (i : Interpreter) (e : Evaluators ω) (store : Store) (program : List Stmt) : Run ω :=
  if i.aborted then
    { started := false, outputs := [], ending := .aborted, store, steps := 0, aborted := true,
      interrupted := false }
  else
    conclude (store.newFrame []).1
      (e.program ⟨(store.newFrame []).1, [i.globals]⟩ none program
        { store := (store.newFrame []).2 })

/-- An interpreter runs its programs over as many layers as its budget says. -/
theorem run_eq_runOver (i : Interpreter) (interruption : Option Interruption)
    (record : Store → Value → ω) (store : Store) (program : List Stmt) :
    i.run interruption record store program =
      i.runOver (.layered (i.setting interruption record) .spent (budget i.limits)) store
        program := by
  unfold runOver
  split
  · next ha => exact run_of_aborted ha ..
  · next ha =>
      rw [run_eq_conclude (by simpa using ha), result, runProgram_eq_program,
        Evaluators.layered_spent]

/-- Evaluators that do the same with the statements of a program make the same run of it. -/
theorem runOver_congr (i : Interpreter) {s : Setting ω} {e e' : Evaluators ω} {store : Store}
    (hfits : Fits store) {program : List Stmt}
    (h : ∀ x ∈ program, (Same.discipline s (maxTreeDepth - 1)).Part (.pair e e') 0 (.stmt x)) :
    i.runOver e' store program = i.runOver e store program := by
  have hsame := Discipline.programOver h none ⟨(store.newFrame []).1, [i.globals]⟩
    { store := (store.newFrame []).2 } (hfits.of_callables rfl)
  unfold runOver
  split
  · rfl
  · exact congrArg (conclude _) hsame.1

/-- The run of a program that has been parsed does not get below as many layers as the budget says. -/
theorem runOver_layered (i : Interpreter) {store : Store} (hfits : Fits store) {dialect : Dialect}
    {code : String} {program : List Stmt} (hparse : parse dialect code = .ok program)
    (s : Setting ω) (bottom : Evaluators ω) :
    i.runOver (.layered s bottom (budget s.limits)) store program =
      i.runOver (.layered s .spent (budget s.limits)) store program :=
  i.runOver_congr hfits fun x hx =>
    Same.layered .spent bottom (budget s.limits) maxTreeDepth 0 (.stmt x)
      (within_of_parse hparse x hx) (.budget s)

/-- Evaluators without a bound make the run that as many layers make. -/
theorem runOver_unbounded (i : Interpreter) {store : Store} (hfits : Fits store) {dialect : Dialect}
    {code : String} {program : List Stmt} (hparse : parse dialect code = .ok program)
    {s : Setting ω} {e : Evaluators ω} (he : e.Unbounded s) :
    i.runOver e store program = i.runOver (.layered s .spent (budget s.limits)) store program := by
  have h := i.runOver_layered hfits hparse s e
  rw [he.layered] at h
  exact h

/-- A program that has been parsed never has more evaluations open than a tree may be deep, for itself
and for each call that may be open. A run with that many layers of evaluators does not get below them,
with whatever number of rounds a loop may take: it is the same over whatever stands there, and the
same without any bound. -/
theorem open_evaluations_bounded (i : Interpreter) {store : Store} (hstore : Reached store)
    {dialect : Dialect} {code : String} {program : List Stmt}
    (hparse : parse dialect code = .ok program) (interruption : Option Interruption)
    (record : Store → Value → ω) (rounds : Nat) :
    let s : Setting ω := { limits := i.limits, interruption, record, rounds }
    let most := maxTreeDepth * (i.limits.maxCalls + 1)
    let run := i.runOver (.layered s .spent most) store program
    (rounds = maxRounds i.limits → run = i.run interruption record store program) ∧
      (∀ bottom n, most ≤ n → i.runOver (.layered s bottom n) store program = run) ∧
      (∃ e : Evaluators ω, e.Unbounded s) ∧
      ∀ e : Evaluators ω, e.Unbounded s → i.runOver e store program = run := by
  intro s most run
  refine ⟨?_, fun bottom n hn => ?_, ⟨.free s, Evaluators.free_unbounded s⟩, fun e he => ?_⟩
  · rintro rfl
    exact (i.run_eq_runOver interruption record store program).symm
  · have h := i.runOver_layered hstore.fits hparse s (.layered s bottom (n - most))
    have hadd : Evaluators.layered s (.layered s bottom (n - most)) most = .layered s bottom n := by
      rw [Evaluators.layered_layered, Nat.sub_add_cancel hn]
    rw [← hadd]
    exact h
  · exact i.runOver_unbounded hstore.fits hparse he

/-- A program that calls the function that it defines. -/
def oneCall : List Stmt :=
  [.define ⟨1, 1⟩ "yes" false (.fn ⟨1, 11⟩ [] [.eval ⟨1, 17⟩ (.bool ⟨1, 17⟩ true)]),
    .out ⟨2, 1⟩ (.call ⟨2, 4⟩ (.ident ⟨2, 4⟩ "yes") [])]

theorem open_evaluations_bounded_one_call :
    parse .modern "let yes = @() { true }\n<: yes()" = .ok oneCall ∧
      ∃ e : Evaluators String,
        e.Unbounded { limits := { maxCalls := 1 }, record := Store.output, rounds := 0 } ∧
          ((create {} [] { maxCalls := 1 }).1.runOver e (create {} [] { maxCalls := 1 }).2
            oneCall).outputs = ["true"] := by
  have hparse : parse .modern "let yes = @() { true }\n<: yes()" = .ok oneCall := by
    decide +kernel
  obtain ⟨-, -, ⟨e, he⟩, hfree⟩ := open_evaluations_bounded (create {} [] { maxCalls := 1 }).1
    (.create [] { maxCalls := 1 } .empty) hparse none Store.output 0
  refine ⟨hparse, e, he, ?_⟩
  rw [hfree e he]
  decide +kernel

end Interpreter

end ScriptLab.Machine
