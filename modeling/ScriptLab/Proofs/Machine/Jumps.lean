import ScriptLab.Proofs.Machine.Faults

/-!
# Jumps

Loop control and returns leave the evaluations around them at once. What is evaluated inside a part is
given here by rules, one for each place and none for the bodies of functions, and so are the rounds of a
loop: a jump arrives at a part where these rules lead to the statement that makes it.
-/

namespace ScriptLab.Machine

open Program
open Text (Pos)

variable {ω : Type} {α β : Type}

/-! ## Jumps of actions -/

/-- Whether a statement that ends so does not fall through. -/
def Flow.IsJump : Flow → Prop
  | .next _ => False
  | _ => True

/-- An action that never jumps. -/
def Straight (m : Eval ω α) : Prop :=
  ∀ p flow q, m p ≠ .error (.jump flow) q

theorem jump_bind_iff {m : Eval ω α} {f : α → Eval ω β} {p q : Progress ω} {flow : Flow} :
    (m >>= f) p = .error (.jump flow) q ↔
      m p = .error (.jump flow) q ∨ ∃ a r, m p = .ok a r ∧ f a r = .error (.jump flow) q := by
  rw [bind_apply]
  cases m p with
  | ok a r => simp
  | error halt r => simp

theorem ok_bind_iff {m : Eval ω α} {f : α → Eval ω β} {p q : Progress ω} {b : β} :
    (m >>= f) p = .ok b q ↔ ∃ a r, m p = .ok a r ∧ f a r = .ok b q := by
  rw [bind_apply]
  cases m p with
  | ok a r => simp
  | error halt r => simp

theorem settle_ok_iff {pos : Pos} {result : Except Cause α} {a : α} {p q : Progress ω} :
    settle pos result p = .ok a q ↔ result = .ok a ∧ p = q := by
  cases result with
  | ok b => exact ⟨fun h => by cases h; exact ⟨rfl, rfl⟩, fun ⟨h, hp⟩ => by cases h; cases hp; rfl⟩
  | error cause => exact iff_of_false (fun h => nomatch h) fun h => nomatch h.1

namespace Straight

theorem bind {m : Eval ω α} {f : α → Eval ω β} (hm : Straight m) (hf : ∀ a, Straight (f a)) :
    Straight (m >>= f) := by
  intro p flow q h
  rcases jump_bind_iff.1 h with h | ⟨a, r, -, h⟩
  · exact hm p flow q h
  · exact hf a r flow q h

theorem pure (a : α) : Straight (pure a : Eval ω α) :=
  fun _ _ _ h => nomatch h

theorem raise (cause : Cause) (pos : Pos) : Straight (raise cause pos : Eval ω α) :=
  fun _ _ _ h => nomatch h

theorem settle (pos : Pos) (result : Except Cause α) : Straight (settle pos result : Eval ω α) := by
  cases result with
  | ok a => exact .pure a
  | error cause => exact .raise cause pos

theorem look (f : Store → α) : Straight (look f : Eval ω α) :=
  fun _ _ _ h => nomatch h

theorem change (f : Store → Store) : Straight (change f : Eval ω Unit) :=
  fun _ _ _ h => nomatch h

theorem create (f : Store → α × Store) : Straight (create f : Eval ω α) :=
  fun _ _ _ h => nomatch h

theorem lookup (pos : Pos) (f : Store → Except Cause α) : Straight (lookup pos f : Eval ω α) :=
  bind (look f) fun result => settle pos result

theorem update (pos : Pos) (f : Store → Except Cause Store.Edit) :
    Straight (update pos f : Eval ω Unit) :=
  bind (lookup pos f) fun edit => change (·.edit edit)

variable (s : Setting ω)

theorem sleep (millis : Nat) : Straight (s.sleep millis) := by
  intro p flow q h
  rw [Setting.sleep_apply] at h
  split at h
  · cases h
  · rcases s.pause_error h with heq | ⟨_, heq⟩ <;> cases heq

theorem step (pos : Pos) : Straight (s.step pos) := by
  intro p flow q hq
  rcases Bounded.step_cases s pos p with h | h | h | ⟨_, h⟩
  · rw [h] at hq
    cases hq
  · rw [h] at hq
    cases hq
  · rw [h] at hq
    rcases s.pause_error hq with heq | ⟨_, heq⟩ <;> cases heq
  · rw [h] at hq
    cases hq

theorem emit (v : Value) : Straight (s.emit v) := by
  intro p flow q h
  rw [Setting.emit_apply] at h
  split at h
  · cases h
  · obtain ⟨_, heq⟩ := s.interrupt_error h
    cases heq

theorem callBuiltin (function : Builtin) (args : List Value) (pos : Pos) :
    Straight (callBuiltin s function args pos) := by
  have hnumber : ∀ v, Straight (Machine.settle pos (asNumber v) : Eval ω Float) := fun v => settle pos _
  unfold Machine.callBuiltin
  cases function with
  | print => exact bind (emit s _) fun _ => pure _
  | typeOf => exact pure _
  | toText => exact bind (look _) fun _ => pure _
  | sleep => exact bind (hnumber _) fun _ => bind (sleep s _) fun _ => pure _
  | abort => exact bind (look _) fun _ => raise _ _
  | range =>
      exact bind (hnumber _) fun _ => bind (hnumber _) fun _ => bind (settle pos _) fun _ => create _
  | floor | abs => exact bind (hnumber _) fun _ => pure _
  | push =>
      dsimp only
      split
      · exact bind (change _) fun _ => pure _
      · exact raise _ _

/-! ## Blocks and calls -/

variable {s} {e : Evaluators ω} (hstmt : ∀ x env calls, Straight (e.stmt x env calls))
include hstmt

theorem statements (env : Env) (calls : Nat) (last : Option Value) (body : List Stmt) :
    Straight (e.statements env calls last body) := by
  induction body generalizing last with
  | nil => exact pure _
  | cons x rest ih =>
      refine bind (hstmt x env calls) fun flow => ?_
      cases flow with
      | next value => exact ih value
      | _ => exact pure _

theorem block (bindings : Frame) (body : List Stmt) (env : Env) (calls : Nat) :
    Straight (e.block bindings body env calls) :=
  bind (bind (create _) fun _ => pure _) fun env => statements hstmt env calls none body

theorem loop (body : List Stmt) (pos : Pos) (env : Env) (calls n : Nat) :
    Straight (e.loop s body pos env calls n) := by
  induction n with
  | zero => exact fun p flow q h => nomatch h
  | succ n ih =>
      refine bind (block hstmt [] body env calls) fun flow => ?_
      cases flow with
      | leave | back => exact pure _
      | next | again => exact bind (step s pos) fun _ => ih

/-- Nothing jumps out of a call. -/
theorem closure (params : List String) (body : List Stmt) (env : Env) (args : List Value) (pos : Pos)
    (calls : Nat) : Straight (e.closure s params body env args pos calls) := by
  unfold Evaluators.closure
  by_cases hcalls : s.limits.maxCalls ≤ calls
  · rw [if_pos hcalls]
    exact fun p flow q h => nomatch h
  · rw [if_neg hcalls]
    refine bind (settle pos _) fun frame => bind (block hstmt _ _ _ _) fun flow => ?_
    cases flow with
    | next | back => exact pure _
    | leave | again => exact raise _ _

theorem call (callee : Value) (args : List Value) (pos : Pos) (calls : Nat) :
    Straight (e.call s callee args pos calls) := by
  unfold Evaluators.call
  cases callee with
  | fn id =>
      refine bind (look _) fun callable => ?_
      cases callable with
      | none => exact raise _ _
      | some callable =>
          cases callable with
          | closure params body env => exact closure hstmt params body env args pos calls
          | builtin function => exact callBuiltin s function args pos
  | _ => exact raise _ _

end Straight

/-! ## Rounds of loops -/

namespace Evaluators

variable (s : Setting ω) (e : Evaluators ω)

/-- The rounds of a loop, each behind a step and with its own bindings, and what comes after the last. -/
def turns (body : List Stmt) (pos : Pos) (env : Env) (calls : Nat) (last : Eval ω Flow) :
    List Frame → Eval ω Flow
  | [] => last
  | frame :: rest => do
    s.step pos
    match ← e.block frame body env calls with
    | .leave => return .next none
    | .back value => return .back value
    | _ => turns body pos env calls last rest

/-- What the round of a loop that has ended makes of the loop, where others may follow. -/
def turned (others : Eval ω Flow) : Flow → Eval ω Flow
  | .leave => return .next none
  | .back value => return .back value
  | _ => others

/-- An endless loop that has used up its rounds. -/
def used (pos : Pos) : Eval ω Flow := do
  s.step pos
  throw .exhausted

variable {s e} {body : List Stmt} {pos : Pos} {env : Env} {calls : Nat}

theorem turns_cons (last : Eval ω Flow) (frame : Frame) (rest : List Frame) :
    e.turns s body pos env calls last (frame :: rest) =
      s.step pos >>= fun _ => e.block frame body env calls >>=
        turned (e.turns s body pos env calls last rest) := by
  refine congrArg (s.step pos >>= ·) (funext fun _ => ?_)
  refine congrArg (e.block frame body env calls >>= ·) (funext fun flow => ?_)
  cases flow <;> rfl

theorem each_eq_turns (var : String) (items : List Value) :
    e.each s var body pos env calls items =
      e.turns s body pos env calls (pure (.next none))
        (items.map fun item => [(var, ⟨item, false⟩)]) := by
  induction items with
  | nil => rfl
  | cons item rest ih =>
      rw [List.map_cons, turns_cons, ← ih]
      refine congrArg (s.step pos >>= ·) (funext fun _ => ?_)
      refine congrArg (e.block _ body env calls >>= ·) (funext fun flow => ?_)
      cases flow <;> rfl

theorem count_eq_turns (var : String) (n k : Nat) :
    e.count s var body pos env calls n k =
      e.turns s body pos env calls (pure (.next none))
        ((List.range' k n).map fun i => [(var, ⟨.num (Number.ofNat i), false⟩)]) := by
  induction n generalizing k with
  | zero => rfl
  | succ n ih =>
      rw [List.range'_succ, List.map_cons, turns_cons, ← ih]
      refine congrArg (s.step pos >>= ·) (funext fun _ => ?_)
      refine congrArg (e.block _ body env calls >>= ·) (funext fun flow => ?_)
      cases flow <;> rfl

/-- The step of the statement itself is that of the first round. -/
theorem step_loop_eq_turns (n : Nat) :
    (s.step pos >>= fun _ => e.loop s body pos env calls n) =
      e.turns s body pos env calls (used s pos) (List.replicate n []) := by
  induction n with
  | zero => rfl
  | succ n ih =>
      rw [List.replicate_succ, turns_cons, ← ih]
      refine congrArg (s.step pos >>= ·) (funext fun _ => ?_)
      refine congrArg (e.block [] body env calls >>= ·) (funext fun flow => ?_)
      cases flow <;> rfl

end Evaluators

theorem Straight.turns {s : Setting ω} {e : Evaluators ω} {body : List Stmt} {pos : Pos} {env : Env}
    {calls : Nat} (hstmt : ∀ x env calls, Straight (e.stmt x env calls)) {last : Eval ω Flow}
    (hlast : Straight last) (frames : List Frame) :
    Straight (e.turns s body pos env calls last frames) := by
  induction frames with
  | nil => exact hlast
  | cons frame rest ih =>
      rw [Evaluators.turns_cons]
      refine bind (step s pos) fun _ => bind (block hstmt frame body env calls) fun flow => ?_
      cases flow with
      | leave | back => exact pure _
      | next | again => exact ih

/-! ## One after the other -/

/-- Doing something with each item of a list leads from a state to another one. -/
inductive InTurn (R : α → Progress ω → Progress ω → Prop) :
    List α → Progress ω → Progress ω → Prop
  | nil {p} : InTurn R [] p p
  | cons {a rest p q r} (h : R a p q) (hs : InTurn R rest q r) : InTurn R (a :: rest) p r

/-- Doing something with the first items of a list leads to another one of them, in a state. -/
inductive Upto (R : α → Progress ω → Progress ω → Prop) :
    List α → Progress ω → α → Progress ω → Prop
  | here {a rest p} : Upto R (a :: rest) p a p
  | later {a rest p q b r} (h : R a p q) (hs : Upto R rest q b r) : Upto R (a :: rest) p b r

section

variable {R : α → Progress ω → Progress ω → Prop} {P : α → Progress ω → Prop} {p : Progress ω}

theorem not_upto_nil : ¬∃ b r, Upto R [] p b r ∧ P b r := by
  rintro ⟨b, r, h, -⟩
  cases h

theorem upto_cons_iff {a : α} {rest : List α} :
    (∃ b r, Upto R (a :: rest) p b r ∧ P b r) ↔
      P a p ∨ ∃ q, R a p q ∧ ∃ b r, Upto R rest q b r ∧ P b r := by
  constructor
  · rintro ⟨b, r, h, hb⟩
    cases h with
    | here => exact .inl hb
    | later h hs => exact .inr ⟨_, h, b, r, hs, hb⟩
  · rintro (h | ⟨q, h, b, r, hs, hb⟩)
    · exact ⟨a, p, .here, h⟩
    · exact ⟨b, r, .later h hs, hb⟩

theorem Upto.mem {items : List α} {a : α} {q : Progress ω} (h : Upto R items p a q) :
    a ∈ items := by
  induction h with
  | here => exact List.mem_cons_self
  | later _ _ ih => exact List.mem_cons_of_mem _ ih

end

/-! ## What is evaluated inside -/

namespace Evaluators

/-- The operands of an expression that are evaluated in any case, one after the other. -/
def operands : Expr → List Expr
  | .arr _ items => items
  | .obj _ entries => entries.map Prod.snd
  | .call _ callee args => callee :: args
  | .index _ target index => [target, index]
  | .prop _ target _ => [target]
  | .binary _ .and left _ | .binary _ .or left _ => [left]
  | .binary _ _ left right => [left, right]
  | .unary _ _ operand => [operand]
  | _ => []

/-- The value of the left operand with which an operator goes on to the right one. -/
def goesOn : BinaryOp → Option Bool
  | .and => some true
  | .or => some false
  | _ => none

/-- The expression that a statement other than an assignment starts with. -/
def head : Stmt → Option Expr
  | .define _ _ _ value | .out _ value | .back _ (some value) | .eval _ value => some value
  | .each _ _ items _ => some items
  | .count _ _ times _ => some times
  | _ => none

variable (s : Setting ω) (e : Evaluators ω)

/-- An expression has a value. -/
def Passes (env : Env) (calls : Nat) (x : Expr) (p q : Progress ω) : Prop :=
  ∃ value, e.expr x env calls p = .ok value q

/-- A statement falls through. -/
def Falls (env : Env) (calls : Nat) (x : Stmt) (p q : Progress ω) : Prop :=
  ∃ value, e.stmt x env calls p = .ok (.next value) q

/-- The condition of an arm does not hold. -/
def Refuses (env : Env) (calls : Nat) (arm : Expr × List Stmt) (p q : Progress ω) : Prop :=
  e.condition arm.1 env calls p = .ok false q

/-- A block comes to one of its statements, in its scopes. -/
def Comes (bindings : Frame) (body : List Stmt) (env : Env) (calls : Nat) (p : Progress ω)
    (x : Stmt) (scopes : Env) (q : Progress ω) : Prop :=
  ∃ r, Machine.inner bindings env p = .ok scopes r ∧
    Upto (e.Falls scopes calls) body r x q

/-- A compound assignment reads its place and combines what is there with the value; a plain one does
nothing with the place before it is evaluated for writing. -/
def Combines (target : Expr) (op : AssignOp) (value : Value) (env : Env) (calls : Nat)
    (p q : Progress ω) : Prop :=
  match assignOperator op with
  | none => q = p
  | some op => ∃ current combined, e.expr target env calls p = .ok current q ∧
      combine op current value = .ok combined

/-- The rounds of a loop: with what bindings one starts, how many are left then, and in what state.
One that ends with `continue` is followed by the next one as any other. -/
inductive Round (body : List Stmt) (pos : Pos) (env : Env) (calls : Nat) :
    List Frame → Progress ω → Frame → List Frame → Progress ω → Prop
  | first {frame rest p q} (hstep : s.step pos p = .ok () q) :
      Round body pos env calls (frame :: rest) p frame rest q
  | later {frame rest p q flow r frame' rest' t} (hstep : s.step pos p = .ok () q)
      (hbody : e.block frame body env calls q = .ok flow r)
      (hflow : flow = .again ∨ ∃ value, flow = .next value)
      (h : Round body pos env calls rest r frame' rest' t) :
      Round body pos env calls (frame :: rest) p frame' rest' t

/-- A loop comes to a round of its body, with the bindings of that round; what follows when the round
falls through is given, too. -/
inductive Begins (env : Env) (calls : Nat) :
    Stmt → Progress ω → List Stmt → Frame → Eval ω Flow → Progress ω → Prop
  | loop {pos body p frame rest q}
      (h : e.Round s body pos env calls (List.replicate s.rounds []) p frame rest q) :
      Begins env calls (.loop pos body) p body frame
        (e.turns s body pos env calls (used s pos) rest) q
  | each {pos var items body p q id r frame rest t} (hstep : s.step pos p = .ok () q)
      (hitems : e.expr items env calls q = .ok (.arr id) r)
      (h : e.Round s body pos env calls
        ((r.store.items id).toList.map fun item => [(var, ⟨item, false⟩)]) r frame rest t) :
      Begins env calls (.each pos var items body) p body frame
        (e.turns s body pos env calls (pure (.next none)) rest) t
  | count {pos var times body p q x r frame rest t} (hstep : s.step pos p = .ok () q)
      (htimes : e.expr times env calls q = .ok (.num x) r)
      (h : e.Round s body pos env calls ((List.range' 0 (Evaluators.rounds x)).map fun i =>
        [(var, ⟨.num (Number.ofNat i), false⟩)]) r frame rest t) :
      Begins env calls (.count pos var times body) p body frame
        (e.turns s body pos env calls (pure (.next none)) rest) t

/-- Evaluating a part comes, in the same call, to evaluating a part inside, from which the jump would go
through this one. A jump that is no return does not go through loops. -/
inductive Opens (calls : Nat) (flow : Flow) :
    Part → Env → Progress ω → Part → Env → Progress ω → Prop
  | operand {x y env p q} (h : Upto (e.Passes env calls) (operands x) p y q) :
      Opens calls flow (.expr x) env p (.expr y) env q
  | second {pos op left right b env p q} (hop : goesOn op = some b)
      (h : e.condition left env calls p = .ok b q) :
      Opens calls flow (.expr (.binary pos op left right)) env p (.expr right) env q
  | condition {pos arms otherwise arm env p q}
      (h : Upto (e.Refuses env calls) arms p arm q) :
      Opens calls flow (.expr (.cond pos arms otherwise)) env p (.expr arm.1) env q
  | arm {pos arms otherwise arm env p q r x scopes t}
      (h : Upto (e.Refuses env calls) arms p arm q)
      (hcond : e.condition arm.1 env calls q = .ok true r)
      (hbody : e.Comes [] arm.2 env calls r x scopes t) :
      Opens calls flow (.expr (.cond pos arms otherwise)) env p (.stmt x) scopes t
  | otherwise {pos arms body env p q x scopes t} (h : InTurn (e.Refuses env calls) arms p q)
      (hbody : e.Comes [] body env calls q x scopes t) :
      Opens calls flow (.expr (.cond pos arms (some body))) env p (.stmt x) scopes t
  | head {x y env p q} (hstep : s.step x.pos p = .ok () q) (hx : head x = some y) :
      Opens calls flow (.stmt x) env p (.expr y) env q
  | value {pos target op x env p q} (hstep : s.step pos p = .ok () q) :
      Opens calls flow (.stmt (.assign pos target op x)) env p (.expr x) env q
  | current {pos target op x value env p q r} (hop : op ≠ .set) (hstep : s.step pos p = .ok () q)
      (hvalue : e.expr x env calls q = .ok value r) :
      Opens calls flow (.stmt (.assign pos target op x)) env p (.expr target) env r
  | place {pos target op x value y env p q r t u} (hplace : target.isPlace = true)
      (hstep : s.step pos p = .ok () q) (hvalue : e.expr x env calls q = .ok value r)
      (hcombines : e.Combines target op value env calls r t)
      (h : Upto (e.Passes env calls) (operands target) t y u) :
      Opens calls flow (.stmt (.assign pos target op x)) env p (.expr y) env u
  | round {x p body frame rest q y scopes r env} (hflow : ∃ value, flow = .back value)
      (h : e.Begins s env calls x p body frame rest q)
      (hbody : e.Comes frame body env calls q y scopes r) :
      Opens calls flow (.stmt x) env p (.stmt y) scopes r

/-- Evaluating a part ends with a jump. -/
def Leaves (calls : Nat) (flow : Flow) (c : Part) (env : Env) (p q : Progress ω) : Prop :=
  match c with
  | .stmt x => e.stmt x env calls p = .ok flow q
  | .expr x => e.expr x env calls p = .error (.jump flow) q

/-- A statement is loop control or a return, and ends so. -/
inductive Makes (calls : Nat) : Flow → Stmt → Env → Progress ω → Progress ω → Prop
  | leave {pos env p q} (hstep : s.step pos p = .ok () q) : Makes calls .leave (.leave pos) env p q
  | again {pos env p q} (hstep : s.step pos p = .ok () q) : Makes calls .again (.again pos) env p q
  | back {pos env p q} (hstep : s.step pos p = .ok () q) :
      Makes calls (.back .null) (.back pos none) env p q
  | backWith {pos x value env p q r} (hstep : s.step pos p = .ok () q)
      (hvalue : e.expr x env calls q = .ok value r) :
      Makes calls (.back value) (.back pos (some x)) env p r

/-- Evaluating a part with at most so many evaluations open arrives at a jump of its own: one in the same
call and, unless it is a return, in none of the loops inside. -/
inductive Arrives (s : Setting ω) (calls : Nat) (flow : Flow) :
    Nat → Part → Env → Progress ω → Progress ω → Prop
  | makes {n x env p q} (h : Makes s ⟨runWithin s n, evalWithin s n⟩ calls flow x env p q) :
      Arrives s calls flow (n + 1) (.stmt x) env p q
  | inside {n c env p d scopes q r}
      (h : Opens s ⟨runWithin s n, evalWithin s n⟩ calls flow c env p d scopes q)
      (hd : Arrives s calls flow n d scopes q r) : Arrives s calls flow (n + 1) c env p r

end Evaluators

end ScriptLab.Machine
