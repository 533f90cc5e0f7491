import ScriptLab.Proofs.Machine.OpenEvaluations
import ScriptLab.Proofs.Machine.Reuse

/-!
# Executions end

The evaluator gives up where too many evaluations are open, and where a loop takes too many rounds.
A program that has been parsed never meets the first bound, and only an endless loop can meet the
second one. Whatever an interpreter has run before, the execution of a program without endless loops
ends by itself, and so does every execution under a limit on steps.
-/

namespace ScriptLab.Machine

open Program
open Text (Pos)

variable {ω : Type} {α β : Type}

/-! ## Programs without endless loops -/

/-- A part occurs in itself, and wherever it occurs in something inside. -/
inductive Occurs (c : Part) : Part → Prop
  | here : Occurs c c
  | inside {child p : Part} (hchild : child ∈ p.children) (h : Occurs c child) : Occurs c p

/-- A part in which no endless loop occurs, not even in a function that is never called. -/
def LoopFree (p : Part) : Prop :=
  ∀ pos body, ¬Occurs (.stmt (.loop pos body)) p

theorem LoopFree.child {p child : Part} (h : LoopFree p) (hchild : child ∈ p.children) :
    LoopFree child :=
  fun pos body hoccurs => h pos body (.inside hchild hoccurs)

theorem LoopFree.of_children {p : Part} (hp : ∀ pos body, p ≠ .stmt (.loop pos body))
    (h : ∀ child ∈ p.children, LoopFree child) : LoopFree p := by
  intro pos body hoccurs
  cases hoccurs with
  | here => exact hp pos body rfl
  | inside hchild hin => exact h _ hchild pos body hin

theorem LoopFree.evaluated {x : Stmt} (h : LoopFree (.stmt x)) :
    ∀ c ∈ Discipline.evaluated x, LoopFree c := by
  cases x with
  | assign pos target op value =>
      intro c hc
      rcases List.mem_append.1 hc with hc | hc
      · exact h.child hc
      · exact (h.child List.mem_cons_self).child hc
  | _ => exact fun c hc => h.child hc

theorem mem_evaluated_of_partsInside {looped : Bool} {x : Stmt} {d : Bool × Part}
    (h : d ∈ partsInside looped (.stmt x)) : d.2 ∈ Discipline.evaluated x := by
  have hmap : ∀ body : List Stmt, d ∈ body.map (fun y => (true, Part.stmt y)) →
      d.2 ∈ Part.ofStmts body := by
    intro body hd
    obtain ⟨y, hy, rfl⟩ := List.mem_map.1 hd
    exact List.mem_map_of_mem hy
  cases x with
  | loop pos body => exact hmap body h
  | each pos var items body | count pos var items body =>
      rcases List.mem_cons.1 h with rfl | h
      · exact List.mem_cons_self
      · exact List.mem_cons_of_mem _ (hmap body h)
  | _ =>
      obtain ⟨c, hc, rfl⟩ := List.mem_map.1 h
      exact hc

theorem mem_children_of_partsInside {looped : Bool} {x : Expr} {d : Bool × Part}
    (h : d ∈ partsInside looped (.expr x)) : d.2 ∈ (Part.expr x).children := by
  cases x with
  | fn pos params body =>
      obtain ⟨y, hy, rfl⟩ := List.mem_map.1 h
      exact List.mem_map_of_mem hy
  | _ =>
      obtain ⟨c, hc, rfl⟩ := List.mem_map.1 h
      exact hc

/-! ## Runs without endless loops -/

/-- A store all of whose functions have bodies without endless loops that are not too deep. -/
def Tame (store : Store) : Prop :=
  EachBody (fun x => LoopFree (.stmt x) ∧ (Part.stmt x).Within (maxTreeDepth - 1)) store

/-- What can be evaluated to its end: a part without endless loops for which there is room. -/
def Finite (s : Setting ω) (n calls : Nat) (c : Part) : Prop :=
  LoopFree c ∧ ∃ d, c.Within d ∧ Ample s (maxTreeDepth - 1) n d calls

namespace Finite

variable {s : Setting ω} {n calls : Nat}

theorem inside {c : Part} (h : Finite s (n + 1) calls c) {looped : Bool} :
    ∀ d ∈ partsInside looped c, Finite s n calls d.2 := by
  obtain ⟨hfree, d, hd, hroom⟩ := h
  obtain ⟨d, rfl⟩ : ∃ k, d = k + 1 := ⟨d - 1, by have := hd.pos; omega⟩
  intro part hpart
  cases c with
  | stmt x =>
      have hmem := mem_evaluated_of_partsInside hpart
      exact ⟨hfree.evaluated _ hmem, d, Bounded.within_evaluated hd _ hmem, hroom.succ⟩
  | expr x =>
      have hmem := mem_children_of_partsInside hpart
      exact ⟨hfree.child hmem, d, hd _ hmem, hroom.succ⟩

theorem call {c : Part} (h : Finite s (n + 1) calls c) (hcalls : calls < s.limits.maxCalls)
    {x : Stmt} (hx : LoopFree (.stmt x) ∧ (Part.stmt x).Within (maxTreeDepth - 1)) :
    Finite s n (calls + 1) (.stmt x) := by
  obtain ⟨-, d, hd, hroom⟩ := h
  obtain ⟨d, rfl⟩ : ∃ k, d = k + 1 := ⟨d - 1, by have := hd.pos; omega⟩
  exact ⟨hx.1, maxTreeDepth - 1, hx.2, hroom.call hcalls⟩

theorem not_zero {c : Part} (h : Finite s 0 calls c) : False := by
  obtain ⟨-, d, hd, hroom⟩ := h
  have := hd.pos
  have := hroom.room
  omega

end Finite

theorem Tame.closure {store : Store} (h : Tame store) {s : Setting ω} {n calls : Nat} {pos : Pos}
    {params : List String} {body : List Stmt} (hfn : Finite s n calls (.expr (.fn pos params body)))
    (env : Env) : Tame (store.newCallable (.closure params body env)).2 := by
  refine EachBody.newCallable h ?_
  rintro _ _ _ ⟨⟩ x hx
  obtain ⟨hfree, d, hd, hroom⟩ := hfn
  obtain ⟨d, rfl⟩ : ∃ k, d = k + 1 := ⟨d - 1, by have := hd.pos; omega⟩
  have hin : Part.stmt x ∈ (Part.expr (.fn pos params body)).children := List.mem_map_of_mem hx
  have hwithin : (Part.stmt x).Within d := hd _ hin
  exact ⟨hfree.child hin, hwithin.mono (Nat.le_of_succ_le_succ hroom.shallow)⟩

/-- What can be evaluated to its end does not give up. This is about a single run, so that nothing
moves. -/
def ended (s : Setting ω) : Accord s where
  shift := .none
  Same _ _ := True
  Valid := Tame
  Scope _ := True
  Allowed n calls _ c := Finite s n calls c
  Control _ := True
  Stops halt := halt ≠ .exhausted
  record _ _ := trivial
  heap h hcallables _ := EachBody.of_callables h hcallables
  newFrame _ h := EachBody.of_callables h rfl
  scope _ _ := trivial
  define h _ _ := EachBody.of_callables h (callables_edit _ _)
  assign h _ _ := EachBody.of_callables h (callables_edit _ _)
  closure h hfn := h.closure hfn _
  known h hid _ _ _ _ hc hcalls x hx :=
    hc.call hcalls (h _ _ _ (Array.mem_of_getElem? hid) x hx)
  inside hc := hc.inside
  leave _ := trivial
  again _ := trivial
  exhausted hc := hc.not_zero.elim
  endless hc := (hc.1 _ _ .here).elim
  aborted := nofun
  crashed _ := nofun
  fault _ _ _ := nofun
  misplaced _ _ := nofun
  stray _ _ := nofun

theorem Accord.Agree.endingOf_ne_exhausted {s : Setting ω} {A : Accord s}
    {R : Option Value → Option Value → Prop} {r r' : EStateM.Result Halt (Progress ω) (Option Value)}
    (h : A.Agree (fun _ _ => False) R r r') (hstops : ¬A.Stops .exhausted) :
    endingOf r ≠ .exhausted := by
  cases h with
  | ok => nofun
  | error hhalt =>
      cases hhalt with
      | exhausted hexhausted => exact absurd hexhausted hstops
      | jump hjump => exact hjump.elim
      | fault | aborted | crashed => nofun

namespace Interpreter

/-- A program without endless loops does not give up, where all functions are like it. -/
theorem ne_exhausted_of_tame (i : Interpreter) {store : Store} (htame : Tame store)
    (interruption : Option Interruption) (record : Store → Value → ω) {program : List Stmt}
    (hdepth : ∀ x ∈ program, (Part.stmt x).Within maxTreeDepth)
    (hloops : ∀ x ∈ program, LoopFree (.stmt x)) :
    (i.run interruption record store program).ending ≠ .exhausted := by
  rcases Bool.eq_false_or_eq_true i.aborted with ha | ha
  · rw [run_of_aborted ha]
    nofun
  · let A := ended (i.setting interruption record)
    have hallowed : ∀ x ∈ program, A.Allowed (budget i.limits) 0 false (.stmt x) := fun x hx =>
      ⟨hloops x hx, maxTreeDepth, hdepth x hx, .budget _⟩
    have hscope : A.Scope ⟨(store.newFrame []).1, [i.globals]⟩ := trivial
    have hagree := A.program (J := fun _ _ => False) (budget i.limits) hallowed none hscope
      { store := (store.newFrame []).2 } { store := (store.newFrame []).2 }
      (EachBody.of_callables htame rfl) ⟨_, [], .refl _, .nil, rfl⟩
    rw [run_eq_conclude ha]
    exact hagree.endingOf_ne_exhausted fun hstops => hstops rfl

end Interpreter

/-! ## More rounds -/

/-- A setting with another number of rounds for a loop. -/
def Setting.turning (s : Setting ω) (rounds : Nat) : Setting ω :=
  { s with rounds }

/-- Actions that do the same, unless the first one gives up. -/
def Onward (m m' : Eval ω α) : Prop :=
  ∀ p, m' p = m p ∨ ∃ q, m p = .error .exhausted q

namespace Onward

theorem refl (m : Eval ω α) : Onward m m :=
  fun _ => .inl rfl

theorem exhausted (m' : Eval ω α) : Onward (throw .exhausted) m' :=
  fun p => .inr ⟨p, rfl⟩

theorem bind {m m' : Eval ω α} {f f' : α → Eval ω β} (hm : Onward m m')
    (hf : ∀ a, Onward (f a) (f' a)) : Onward (m >>= f) (m' >>= f') := by
  intro p
  rcases hm p with heq | ⟨q, hq⟩
  -- The first action has the same result in both, so that the second starts in one state.
  · rw [bind_apply, bind_apply, heq]
    cases m p with
    | ok a q => exact hf a q
    | error halt q => exact .inl rfl
  · exact .inr ⟨q, bind_of_error hq f⟩

theorem land {m m' : Eval ω Flow} (hm : Onward m m') :
    Onward (Machine.land m) (Machine.land m') := by
  intro p
  rw [land_apply, land_apply]
  rcases hm p with heq | ⟨q, hq⟩
  · rw [heq]
    exact .inl rfl
  · rw [hq]
    exact .inr ⟨q, rfl⟩

/-- A loop that may take more rounds goes on where the other gives up. -/
theorem loop {s : Setting ω} (rounds : Nat) {e e' : Evaluators ω} {body : List Stmt} {env : Env}
    {calls : Nat} (pos : Pos) (h : Onward (e.block [] body env calls) (e'.block [] body env calls))
    {n m : Nat} (hnm : n ≤ m) :
    Onward (e.loop s body pos env calls n) (e'.loop (s.turning rounds) body pos env calls m) := by
  induction n generalizing m with
  | zero => exact exhausted _
  | succ n ih =>
      obtain ⟨m, rfl⟩ : ∃ k, m = k + 1 := ⟨m - 1, by omega⟩
      have hround : Onward (s.step pos >>= fun _ => e.loop s body pos env calls n)
          ((s.turning rounds).step pos >>= fun _ => e'.loop (s.turning rounds) body pos env calls m) :=
        (refl (s.step pos)).bind fun _ => ih (Nat.le_of_succ_le_succ hnm)
      refine h.bind fun flow => ?_
      cases flow with
      | leave | back => exact refl _
      | next | again => exact hround

/-- Going on with more rounds is a discipline. -/
def discipline (s : Setting ω) {rounds : Nat} (hrounds : s.rounds ≤ rounds) :
    Discipline fun more : Bool => s.turning (bif more then rounds else s.rounds) where
  Holds m := Onward (m false) (m true)
  Known _ := True
  quiet _ := .refl _
  bind := .bind
  land := .land
  check := .refl _
  emit _ := .refl _
  sleep _ := .refl _
  step _ := .refl _
  closure _ _ _ _ := .refl _
  callable _ _ h := (refl _).bind fun c => h c fun _ _ _ _ => trivial
  guard calls pos _ h :=
    guard_rule (fun m => Onward (m false) (m true)) (fun more => s.turning (bif more then _ else _))
      (fun _ => rfl) calls pos (.refl _) fun hc => h ⟨false, hc⟩
  loop _ _ pos _ _ h := loop rounds pos h hrounds

theorem program (s : Setting ω) {rounds : Nat} (hrounds : s.rounds ≤ rounds) (n : Nat) (env : Env)
    (last : Option Value) (program : List Stmt) :
    Onward (runProgram s n env last program) (runProgram (s.turning rounds) n env last program) :=
  Discipline.program (D := discipline s hrounds) (fun _ => n)
    (fun x _ env => ((discipline s hrounds).within (fun _ => trivial) (exhausted _) n).1 x env 0)
    last env

end Onward

/-! ## Whole runs -/

theorem Ending.moved_ne_exhausted {σ : Shift} {ending : Ending} (h : ending ≠ .exhausted) :
    ending.moved σ ≠ .exhausted := by
  cases ending with
  | exhausted => exact absurd rfl h
  | _ => nofun

namespace Interpreter

/-- The stores that an interpreter without constants comes to hold: that in which it is made, and those
that its runs leave behind. -/
inductive Holds : Interpreter → Store → Prop
  | create {store : Store} (limits : Limits) (h : Reached store) :
      Holds (Interpreter.create store [] limits).1 (Interpreter.create store [] limits).2
  | run {ω : Type} {i : Interpreter} {store : Store} {dialect : Dialect} {code : String}
      {program : List Stmt} (interruption : Option Interruption) (record : Store → Value → ω)
      (h : Holds i store) (hparse : parse dialect code = .ok program) :
      Holds i (i.run interruption record store program).store
  | abort {i : Interpreter} {store : Store} (h : Holds i store) : Holds i.abort store

theorem Holds.reached {i : Interpreter} {store : Store} (h : i.Holds store) : Reached store := by
  induction h with
  | create limits h => exact h.create [] limits
  | @run _ i _ _ _ _ interruption record _ hparse ih => exact ih.run i interruption record hparse
  | abort _ ih => exact ih

theorem Holds.stocked {i : Interpreter} {store : Store} (h : i.Holds store) :
    ∃ first, Stocked first i.globals store := by
  induction h with
  | create limits _ => exact ⟨_, stocked_create _ limits⟩
  | @run _ i _ _ _ program interruption record _ _ ih =>
      obtain ⟨first, hstocked⟩ := ih
      exact ⟨first, (i.run_alike hstocked (fun _ _ => True) interruption record
        (fun _ _ => trivial) program).2⟩
  | abort _ ih => exact ih

theorem eachBody_stock (P : Stmt → Prop) : EachBody P stock :=
  EachBody.of_callables (EachBody.builtinBindings EachBody.empty Builtin.all) rfl

theorem tame_stock : Tame stock :=
  eachBody_stock _

/-- A program without endless loops does not give up, whatever was run before it: it runs as in a new
store, where there are no functions but the provided ones. -/
theorem Holds.ne_exhausted {i : Interpreter} {store : Store} (h : i.Holds store)
    (interruption : Option Interruption) (record : Store → Value → ω) {program : List Stmt}
    (hdepth : ∀ x ∈ program, (Part.stmt x).Within maxTreeDepth)
    (hloops : ∀ x ∈ program, LoopFree (.stmt x)) :
    (i.run interruption record store program).ending ≠ .exhausted := by
  obtain ⟨first, hstocked⟩ := h.stocked
  have halike := (i.run_alike hstocked (fun _ _ => True) interruption record
    (fun _ _ => trivial) program).1.ending
  have hnew := ne_exhausted_of_tame { i with globals := 0 } tame_stock interruption record hdepth
    hloops
  rw [halike]
  exact Ending.moved_ne_exhausted hnew

/-- With more rounds for its loops, a program that does not give up runs in the same way. -/
theorem runOver_turning (i : Interpreter) (interruption : Option Interruption)
    (record : Store → Value → ω) {store : Store} {program : List Stmt}
    (h : (i.run interruption record store program).ending ≠ .exhausted) {rounds : Nat}
    (hrounds : maxRounds i.limits ≤ rounds) :
    i.runOver (.layered ((i.setting interruption record).turning rounds) .spent (budget i.limits))
      store program = i.run interruption record store program := by
  rcases Bool.eq_false_or_eq_true i.aborted with ha | ha
  · rw [run_of_aborted ha, runOver, if_pos ha]
  · rw [run_eq_conclude ha] at h ⊢
    rw [runOver, if_neg (by simp [ha]), Evaluators.layered_spent, ← runProgram_eq_program]
    rcases Onward.program (i.setting interruption record) hrounds (budget i.limits)
        ⟨(store.newFrame []).1, [i.globals]⟩ none program { store := (store.newFrame []).2 } with
      heq | ⟨q, hq⟩
    · exact congrArg (conclude _) heq
    · exact absurd (congrArg endingOf hq) h

/-- Executions end. Under a limit on steps every program that has been parsed ends, and without one
every program in which no endless loop occurs, whatever the interpreter has run before: its run does
not give up, and it is the same without any bound on open evaluations and with more rounds for every
loop. -/
theorem executions_end {i : Interpreter} {store : Store} (hstore : i.Holds store)
    {dialect : Dialect} {code : String} {program : List Stmt}
    (hparse : parse dialect code = .ok program)
    (hends : i.limits.maxSteps ≠ none ∨
      ∀ x ∈ program, ∀ pos body, ¬Occurs (.stmt (.loop pos body)) (.stmt x))
    (interruption : Option Interruption) (record : Store → Value → ω) :
    let run := i.run interruption record store program
    run.ending ≠ .exhausted ∧
      ∀ rounds, maxRounds i.limits ≤ rounds →
        let s : Setting ω := { limits := i.limits, interruption, record, rounds }
        (∃ e : Evaluators ω, e.Unbounded s) ∧
          ∀ e : Evaluators ω, e.Unbounded s → i.runOver e store program = run := by
  intro run
  have hrun : run.ending ≠ .exhausted := by
    rcases hends with hsteps | hloops
    · intro hexhausted
      rcases Bool.eq_false_or_eq_true i.aborted with ha | ha
      · rw [show run = _ from run_of_aborted ha ..] at hexhausted
        cases hexhausted
      · obtain ⟨_, _, _, hdepth⟩ := parse_ok hparse
        exact hsteps (maxSteps_of_exhausted ha hstore.reached.fits hdepth hexhausted)
    · exact hstore.ne_exhausted interruption record (within_of_parse hparse) hloops
  refine ⟨hrun, fun rounds hrounds => ?_⟩
  intro s
  refine ⟨⟨.free s, Evaluators.free_unbounded s⟩, fun e he => ?_⟩
  rw [i.runOver_unbounded hstore.reached.fits hparse he]
  exact i.runOver_turning interruption record hrun hrounds

/-- A loop that is left at once. -/
def leftAtOnce : List Stmt :=
  [.loop ⟨1, 1⟩ [.leave ⟨1, 8⟩]]

theorem parse_leftAtOnce : parse .modern "loop { break }" = .ok leftAtOnce := by
  decide +kernel

/-- A function that calls nothing but itself. -/
def selfCalling : List Stmt :=
  [.define ⟨1, 1⟩ "f" false
      (.fn ⟨1, 9⟩ [] [.eval ⟨1, 15⟩ (.call ⟨1, 15⟩ (.ident ⟨1, 15⟩ "f") [])]),
    .eval ⟨2, 1⟩ (.call ⟨2, 1⟩ (.ident ⟨2, 1⟩ "f") [])]

theorem parse_selfCalling : parse .modern "let f = @() { f() }\nf()" = .ok selfCalling := by
  decide +kernel

theorem loopFree_selfCalling : ∀ x ∈ selfCalling, LoopFree (.stmt x) := by
  have hcall : ∀ pos, LoopFree (.expr (.call pos (.ident pos "f") [])) := fun pos => by
    refine .of_children nofun (List.forall_mem_singleton.2 ?_)
    exact .of_children nofun nofun
  have heval : ∀ pos, LoopFree (.stmt (.eval pos (.call pos (.ident pos "f") []))) := fun pos =>
    .of_children nofun (List.forall_mem_singleton.2 (hcall pos))
  refine List.forall_mem_cons.2 ⟨?_, List.forall_mem_singleton.2 (heval _)⟩
  refine .of_children nofun (List.forall_mem_singleton.2 ?_)
  exact .of_children nofun (List.forall_mem_singleton.2 (heval _))

theorem executions_end_self_calling :
    let made := create {} [] { maxCalls := 3 }
    let used := made.1.run none Store.output made.2 leftAtOnce
    let run := made.1.run none Store.output used.store selfCalling
    parse .modern "loop { break }" = .ok leftAtOnce ∧
      parse .modern "let f = @() { f() }\nf()" = .ok selfCalling ∧
      run.ending ≠ .exhausted ∧ run.steps = 5 := by
  have hholds := (Holds.create { maxCalls := 3 } .empty).run none Store.output parse_leftAtOnce
  have h := executions_end hholds parse_selfCalling (.inr loopFree_selfCalling) none Store.output
  exact ⟨parse_leftAtOnce, parse_selfCalling, h.1, by decide +kernel⟩

end Interpreter

end ScriptLab.Machine
