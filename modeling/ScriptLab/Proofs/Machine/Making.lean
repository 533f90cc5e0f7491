import ScriptLab.Proofs.Machine.Bounds
import ScriptLab.Proofs.Program.Shape

/-!
# What an evaluation makes

Arrays and objects are made by expressions, at most one by each expression that is evaluated. Behind its
step a statement evaluates none of its own expressions more than twice, and the statements inside it,
like those of the functions that it calls, take steps of their own. So the steps of a run pay for all
that it makes.
-/

namespace ScriptLab

/-! ## Containers in a store -/

namespace Store

theorem nestingBound_edit (s : Store) (edit : Edit) :
    (s.edit edit).nestingBound = s.nestingBound := by
  cases edit <;> simp [Store.edit, nestingBound, setItem, putEntry, Store.bind]

theorem nestingBound_newArray (s : Store) (items : Array Value) :
    (s.newArray items).2.nestingBound = s.nestingBound + 1 := by
  simp only [newArray, nestingBound, Array.size_push]
  omega

theorem nestingBound_newObject (s : Store) (entries : Entries String Value) :
    (s.newObject entries).2.nestingBound = s.nestingBound + 1 := by
  simp only [newObject, nestingBound, Array.size_push]
  omega

end Store

namespace Machine

open Program
open Text (Pos)

variable {ω : Type} {α β : Type}

/-! ## What is made -/

/-- What may become of a store in which all functions have small statements: a number of containers is
made, and with each step as many more as twice the size of a statement. -/
structure Made (size number : Nat) (p q : Progress ω) : Prop where
  bodies : EachBody (·.nodes ≤ size) q.store
  steps : p.steps ≤ q.steps
  nesting : q.store.nestingBound + 2 * size * p.steps ≤
    p.store.nestingBound + number + 2 * size * q.steps

namespace Made

variable {size number number' : Nat} {p q r : Progress ω}

theorem mono (h : Made size number p q) (hle : number ≤ number') : Made size number' p q :=
  ⟨h.bodies, h.steps, by have := h.nesting; omega⟩

theorem trans (h : Made size number p q) (h' : Made size number' q r) :
    Made size (number + number') p r :=
  ⟨h'.bodies, Nat.le_trans h.steps h'.steps, by have := h.nesting; have := h'.nesting; omega⟩

theorem of_le (hbodies : EachBody (·.nodes ≤ size) q.store) (hsteps : p.steps ≤ q.steps)
    (hnesting : q.store.nestingBound ≤ p.store.nestingBound + number) : Made size number p q := by
  have hmul := Nat.mul_le_mul_left (2 * size) hsteps
  exact ⟨hbodies, hsteps, by omega⟩

/-- A step pays for what a statement makes. -/
theorem of_step (h : Made size (2 * size) q r) (hstore : q.store = p.store)
    (hsteps : q.steps = p.steps + 1) : Made size 0 p r := by
  obtain ⟨hbodies, hle, hnesting⟩ := h
  rw [hstore, hsteps, Nat.mul_add] at hnesting
  exact ⟨hbodies, by omega, by omega⟩

end Made

/-- An action that makes no more than a number of containers, beyond what its steps pay for. -/
def Makes (size number : Nat) (m : Eval ω α) : Prop :=
  ∀ p : Progress ω, EachBody (·.nodes ≤ size) p.store → Made size number p (lastState (m p))

namespace Makes

variable {s : Setting ω} {size number number' : Nat}

theorem mono {m : Eval ω α} (h : Makes size number m) (hle : number ≤ number') :
    Makes size number' m :=
  fun p hp => (h p hp).mono hle

theorem bind {m : Eval ω α} {f : α → Eval ω β} (hm : Makes size number m)
    (hf : ∀ a, Makes size number' (f a)) : Makes size (number + number') (m >>= f) := by
  intro p hp
  have hr := hm p hp
  cases h : m p with
  | ok a q =>
      rw [h] at hr
      rw [bind_of_ok h]
      exact hr.trans (hf a q hr.bodies)
  | error halt q =>
      rw [h] at hr
      rw [bind_of_error h]
      exact hr.mono (Nat.le_add_right number number')

/-- An action that makes nothing leaves all to what stands behind it. -/
theorem behind {m : Eval ω α} {f : α → Eval ω β} (hm : Makes size 0 m)
    (hf : ∀ a, Makes size number (f a)) : Makes size number (m >>= f) :=
  (hm.bind hf).mono (Nat.le_of_eq (Nat.zero_add number))

/-- An action makes all where nothing is made behind it. -/
theorem ahead {m : Eval ω α} {f : α → Eval ω β} (hm : Makes size number m)
    (hf : ∀ a, Makes size 0 (f a)) : Makes size number (m >>= f) :=
  hm.bind hf

theorem ite (b : Bool) {m m' : Eval ω α} (hm : Makes size number m) (hm' : Makes size number m') :
    Makes size number (if b then m else m') := by
  cases b with
  | true => exact hm
  | false => exact hm'

/-! ## Actions that make nothing -/

/-- An action that does not add to the store. -/
theorem of_store {m : Eval ω α}
    (hstore : ∀ p, (lastState (m p)).store.callables = p.store.callables ∧
      (lastState (m p)).store.nestingBound = p.store.nestingBound)
    (hsteps : ∀ p, p.steps ≤ (lastState (m p)).steps) : Makes size 0 m :=
  fun p hp => .of_le (hp.of_callables (hstore p).1) (hsteps p) (Nat.le_of_eq (hstore p).2)

theorem of_forward {m : Eval ω α} (hm : Forward s m)
    (hstore : ∀ p, (lastState (m p)).store = p.store) : Makes size 0 m :=
  of_store (fun p => by rw [hstore]; exact ⟨rfl, rfl⟩) fun p => (hm.advance p).steps

theorem throw (halt : Halt) : Makes size 0 (throw halt : Eval ω α) :=
  of_store (fun _ => ⟨rfl, rfl⟩) fun _ => Nat.le_refl _

theorem pure (a : α) : Makes size 0 (pure a : Eval ω α) :=
  of_store (fun _ => ⟨rfl, rfl⟩) fun _ => Nat.le_refl _

theorem settle (pos : Pos) (result : Except Cause α) :
    Makes size 0 (Machine.settle pos result : Eval ω α) := by
  cases result with
  | ok a => exact pure a
  | error cause => exact throw _

theorem look (f : Store → α) : Makes size 0 (Machine.look f : Eval ω α) :=
  of_store (fun _ => ⟨rfl, rfl⟩) fun _ => Nat.le_refl _

theorem lookup (pos : Pos) (f : Store → Except Cause α) :
    Makes size 0 (Machine.lookup pos f : Eval ω α) :=
  (look f).behind fun result => settle pos result

theorem change {f : Store → Store} (hf : ∀ store, (f store).callables = store.callables ∧
    (f store).nestingBound = store.nestingBound) : Makes size 0 (Machine.change f : Eval ω Unit) :=
  of_store (fun p => hf p.store) fun _ => Nat.le_refl _

theorem update (pos : Pos) (f : Store → Except Cause Store.Edit) :
    Makes size 0 (Machine.update pos f : Eval ω Unit) :=
  (lookup pos f).behind fun edit => change fun store =>
    ⟨callables_edit store edit, store.nestingBound_edit edit⟩

/-- What is added to a store counts if it is a container. -/
theorem create {f : Store → α × Store} (hf : ∀ store, (f store).2.callables = store.callables ∧
    (f store).2.nestingBound = store.nestingBound + number) :
    Makes size number (Machine.create f : Eval ω α) :=
  fun p hp => .of_le (hp.of_callables (hf p.store).1) (Nat.le_refl _) (Nat.le_of_eq (hf p.store).2)

theorem newArray (items : Array Value) :
    Makes (ω := ω) size 1 (Machine.create (·.newArray items)) :=
  create fun store => ⟨rfl, store.nestingBound_newArray items⟩

theorem newObject (entries : Entries String Value) :
    Makes (ω := ω) size 1 (Machine.create (·.newObject entries)) :=
  create fun store => ⟨rfl, store.nestingBound_newObject entries⟩

theorem inner (bindings : Frame) (env : Env) : Makes (ω := ω) size 0 (Machine.inner bindings env) :=
  (create fun _ => ⟨rfl, rfl⟩).behind fun frame => pure (Env.mk frame env.frames)

theorem closure (params : List String) {body : List Stmt} (env : Env)
    (hbody : ∀ x ∈ body, x.nodes ≤ size) :
    Makes (ω := ω) size 0 (Machine.create (·.newCallable (.closure params body env))) := by
  intro p hp
  refine .of_le (EachBody.newCallable hp ?_) (Nat.le_refl _) (Nat.le_refl _)
  rintro _ _ _ ⟨⟩
  exact hbody

theorem callable (id : Nat) {f : Option Callable → Eval ω α}
    (hf : ∀ c, (∀ params body env, c = some (.closure params body env) →
      ∀ x ∈ body, x.nodes ≤ size) → Makes size number (f c)) :
    Makes size number (Machine.look (·.callables[id]?) >>= f) :=
  fun p hp => hf p.store.callables[id]? (fun params body env heq =>
    hp params body env (Array.mem_of_getElem? heq)) p hp

theorem check : Makes size 0 (checkAborted : Eval ω Unit) := by
  refine of_store (fun p => ?_) fun p => ?_
  · rw [lastState_checkAborted]
    exact ⟨rfl, rfl⟩
  · rw [lastState_checkAborted]

theorem emit (v : Value) : Makes size 0 (s.emit v) :=
  of_forward (.emit v) (Forward.store_emit v)

theorem sleep (millis : Nat) : Makes size 0 (s.sleep millis) :=
  of_forward (.sleep millis) (Forward.store_sleep millis)

theorem step (pos : Pos) : Makes size 0 (s.step pos) :=
  of_forward (.step pos) (Forward.store_step pos)

/-- What stands behind a step is paid for. -/
theorem step_bind (pos : Pos) {m : Eval ω α} (hm : Makes size (2 * size) m) :
    Makes size 0 (s.step pos >>= fun _ => m) := by
  intro p hp
  have hr : Made size 0 p (lastState (s.step pos p)) := step pos p hp
  have hstore : (lastState (s.step pos p)).store = p.store := Forward.store_step pos p
  cases h : s.step pos p with
  | ok a q =>
      rw [h] at hr hstore
      rw [bind_of_ok h]
      exact (hm q hr.bodies).of_step hstore (Bounded.step_running h).2
  | error halt q =>
      rw [h] at hr
      rw [bind_of_error h]
      exact hr

theorem guard (calls : Nat) (pos : Pos) {m : Eval ω α} (hm : Makes size number m) :
    Makes size number (if s.limits.maxCalls ≤ calls
      then raise .callsExceeded pos >>= fun _ : PUnit => m else m) := by
  by_cases hc : s.limits.maxCalls ≤ calls
  · rw [if_pos hc]
    exact (throw _).behind fun _ => hm
  · rw [if_neg hc]
    exact hm

theorem land {m : Eval ω Flow} (hm : Makes size number m) : Makes size number (Machine.land m) := by
  intro p hp
  rw [lastState_land]
  exact hm p hp

end Makes

/-! ## Statements and expressions -/

/-- Evaluators with which a small statement makes nothing that is not paid for by steps, and an
expression beyond that at most one container for each of its nodes. -/
structure Thrifty (size : Nat) (e : Evaluators ω) : Prop where
  stmt : ∀ x env calls, x.nodes ≤ size → Makes size 0 (e.stmt x env calls)
  expr : ∀ x env calls, x.nodes ≤ size → Makes size x.nodes (e.expr x env calls)

namespace Thrifty

open Makes

variable {s : Setting ω} {e : Evaluators ω} {size : Nat} (he : Thrifty size e)
include he

theorem statements {body : List Stmt} (hbody : ∀ x ∈ body, x.nodes ≤ size) (last : Option Value)
    (env : Env) (calls : Nat) : Makes size 0 (e.statements env calls last body) := by
  induction body generalizing last with
  | nil => exact pure _
  | cons x rest ih =>
      obtain ⟨hx, hrest⟩ := List.forall_mem_cons.1 hbody
      refine (he.stmt x env calls hx).behind fun flow => ?_
      cases flow with
      | next value => exact ih hrest value
      | _ => exact pure _

theorem block {body : List Stmt} (hbody : ∀ x ∈ body, x.nodes ≤ size) (bindings : Frame) (env : Env)
    (calls : Nat) : Makes size 0 (e.block bindings body env calls) :=
  (Makes.inner bindings env).behind fun env => he.statements hbody none env calls

theorem loop {body : List Stmt} (hbody : ∀ x ∈ body, x.nodes ≤ size) (pos : Pos) (env : Env)
    (calls rounds : Nat) : Makes size 0 (e.loop s body pos env calls rounds) := by
  induction rounds with
  | zero => exact throw _
  | succ n ih =>
      refine (he.block hbody [] env calls).behind fun flow => ?_
      cases flow with
      | leave | back => exact pure _
      | next | again => exact (step pos).behind fun _ => ih

theorem each {body : List Stmt} (hbody : ∀ x ∈ body, x.nodes ≤ size) (var : String) (pos : Pos)
    (env : Env) (calls : Nat) (items : List Value) :
    Makes size 0 (e.each s var body pos env calls items) := by
  induction items with
  | nil => exact pure _
  | cons item rest ih =>
      refine (step pos).behind fun _ => (he.block hbody _ env calls).behind fun flow => ?_
      cases flow with
      | leave | back => exact pure _
      | next | again => exact ih

theorem count {body : List Stmt} (hbody : ∀ x ∈ body, x.nodes ≤ size) (var : String) (pos : Pos)
    (env : Env) (calls n i : Nat) : Makes size 0 (e.count s var body pos env calls n i) := by
  induction n generalizing i with
  | zero => exact pure _
  | succ n ih =>
      refine (step pos).behind fun _ => (he.block hbody _ env calls).behind fun flow => ?_
      cases flow with
      | leave | back => exact pure _
      | next | again => exact ih (i + 1)

theorem list {items : List Expr} (hitems : nodesOfExprs items ≤ size) (values : List Value)
    (env : Env) (calls : Nat) : Makes size (nodesOfExprs items) (e.list env calls values items) := by
  induction items generalizing values with
  | nil => exact pure _
  | cons item rest ih =>
      rw [nodesOfExprs] at hitems ⊢
      exact (he.expr item env calls (by omega)).bind fun value => ih (by omega) (value :: values)

theorem entries {items : List (String × Expr)} (hitems : nodesOfEntries items ≤ size)
    (made : Entries String Value) (env : Env) (calls : Nat) :
    Makes size (nodesOfEntries items) (e.entries env calls made items) := by
  induction items generalizing made with
  | nil => exact pure _
  | cons item rest ih =>
      obtain ⟨key, x⟩ := item
      rw [nodesOfEntries] at hitems ⊢
      exact (he.expr x env calls (by omega)).bind fun value => ih (by omega) (made.put key value)

theorem condition {x : Expr} (hx : x.nodes ≤ size) (env : Env) (calls : Nat) :
    Makes size x.nodes (e.condition x env calls) :=
  (he.expr x env calls hx).ahead fun value => Makes.settle x.pos (asBool value)

theorem branch {body : List Stmt} (hbody : ∀ x ∈ body, x.nodes ≤ size) (env : Env) (calls : Nat) :
    Makes size 0 (e.branch body env calls) := by
  refine (he.block hbody [] env calls).behind fun flow => ?_
  cases flow with
  | next value => exact pure _
  | _ => exact throw _

theorem conditional {arms : List (Expr × List Stmt)} {otherwise : Option (List Stmt)}
    (harms : ∀ arm ∈ arms, arm.1.nodes ≤ size ∧ ∀ x ∈ arm.2, x.nodes ≤ size)
    (hlast : ∀ x ∈ otherwise.getD [], x.nodes ≤ size) (env : Env) (calls : Nat) :
    Makes size (nodesOfArms arms) (e.conditional otherwise env calls arms) := by
  induction arms with
  | nil =>
      cases otherwise with
      | none => exact pure _
      | some body => exact he.branch hlast env calls
  | cons arm rest ih =>
      obtain ⟨⟨hcond, hbody⟩, hrest⟩ := List.forall_mem_cons.1 harms
      refine ((he.condition hcond env calls).bind fun b =>
        .ite b ((he.branch hbody env calls).mono (Nat.zero_le _)) (ih hrest)).mono ?_
      rw [nodesOfArms]
      omega

/-! ## Calls -/

theorem closure {body : List Stmt} (hbody : ∀ x ∈ body, x.nodes ≤ size) (params : List String)
    (env : Env) (args : List Value) (pos : Pos) (calls : Nat) :
    Makes size 0 (e.closure s params body env args pos calls) := by
  refine Makes.guard calls pos ((Makes.settle pos _).behind fun frame =>
    (he.block hbody frame env (calls + 1)).behind fun flow => ?_)
  cases flow with
  | next | back => exact pure _
  | leave | again => exact throw _

omit he in
/-- Of the provided functions only one makes a container. -/
theorem callBuiltin (function : Builtin) (args : List Value) (pos : Pos) :
    Makes size 1 (Machine.callBuiltin s function args pos) := by
  unfold Machine.callBuiltin
  cases function with
  | range =>
      refine (Makes.settle pos _).behind fun _ => (Makes.settle pos _).behind fun _ =>
        (Makes.settle pos _).behind fun items => ?_
      exact Makes.newArray items
  | print => exact mono ((emit _).behind fun _ => pure _) (Nat.zero_le 1)
  | typeOf => exact mono (pure _) (Nat.zero_le 1)
  | toText => exact mono ((Makes.look _).behind fun _ => pure _) (Nat.zero_le 1)
  | sleep =>
      exact mono ((Makes.settle pos _).behind fun _ => (sleep _).behind fun _ => pure _) (Nat.zero_le 1)
  | abort => exact mono ((Makes.look _).behind fun _ => throw _) (Nat.zero_le 1)
  | floor | abs => exact mono ((Makes.settle pos _).behind fun _ => pure _) (Nat.zero_le 1)
  | push =>
      generalize args.headD .null = first
      cases first with
      | arr id => 
          refine mono ((Makes.change fun store => ?_).behind fun _ => pure _) (Nat.zero_le 1)
          simp [Store.pushItem, Store.nestingBound]
      | _ => exact mono (throw _) (Nat.zero_le 1)

theorem call {calls : Nat} (callee : Value) (args : List Value) (pos : Pos) :
    Makes size 1 (e.call s callee args pos calls) := by
  cases callee with
  | fn id =>
      refine callable id fun c hc => ?_
      cases c with
      | none => exact mono (throw _) (Nat.zero_le 1)
      | some c =>
          cases c with
          | closure params body env =>
              exact (he.closure (hc _ _ _ rfl) params env args pos calls).mono (Nat.zero_le 1)
          | builtin function => exact callBuiltin function args pos
  | _ => exact mono (throw _) (Nat.zero_le 1)

/-! ## Whole expressions and statements -/

omit he in
theorem nodes_le {p c : Part} (h : c ∈ p.children) (hp : p.nodes ≤ size) : c.nodes ≤ size :=
  Nat.le_trans (Nat.le_of_succ_le (Part.nodes_le_of_mem h)) hp

theorem onExpr {x : Expr} (hx : x.nodes ≤ size) (env : Env) (calls : Nat) :
    Makes size x.nodes (e.onExpr s x env calls) := by
  have hparts : ∀ c ∈ (Part.expr x).children, c.nodes ≤ size := fun c hc => nodes_le hc hx
  cases x with
  | null | bool | num | str => exact mono (pure _) (Nat.zero_le _)
  | arr pos items =>
      rw [Expr.nodes] at hx ⊢
      exact (he.list (by omega) [] env calls).bind fun values => newArray values.toArray
  | obj pos items =>
      rw [Expr.nodes] at hx ⊢
      exact (he.entries (by omega) [] env calls).bind fun values => newObject values
  | ident pos name => exact (Makes.lookup pos _).mono (Nat.zero_le _)
  | fn pos params body =>
      refine (Makes.closure params env fun y hy => ?_).mono (Nat.zero_le _)
      exact hparts _ (List.mem_map_of_mem hy)
  | call pos callee args =>
      rw [Expr.nodes] at hx ⊢
      refine ((he.expr callee env calls (by omega)).bind fun callee =>
        (he.list (by omega) [] env calls).bind fun args => he.call callee args pos).mono ?_
      omega
  | index pos target index =>
      rw [Expr.nodes] at hx ⊢
      refine ((he.expr target env calls (by omega)).bind fun _ =>
        (he.expr index env calls (by omega)).ahead fun _ => Makes.lookup pos _).mono ?_
      omega
  | prop pos target name =>
      rw [Expr.nodes] at hx ⊢
      refine ((he.expr target env calls (by omega)).ahead fun _ => Makes.lookup pos _).mono ?_
      omega
  | binary pos op left right =>
      rw [Expr.nodes] at hx ⊢
      have hleft : left.nodes ≤ size := by omega
      have hright : right.nodes ≤ size := by omega
      have hanswer := (he.condition hright env calls).ahead fun b => pure (Value.bool b)
      have hdone : ∀ b, Makes size right.nodes (Pure.pure (Value.bool b) : Eval ω Value) :=
        fun b => mono (pure _) (Nat.zero_le _)
      have hle : left.nodes + right.nodes ≤ left.nodes + right.nodes + 1 := Nat.le_succ _
      cases op with
      | and => exact mono ((he.condition hleft env calls).bind fun b => .ite b hanswer (hdone _)) hle
      | or => exact mono ((he.condition hleft env calls).bind fun b => .ite b (hdone _) hanswer) hle
      | _ =>
          exact mono ((he.expr left env calls hleft).bind fun _ =>
            (he.expr right env calls hright).ahead fun _ => Makes.settle pos _) hle
  | unary pos op operand =>
      rw [Expr.nodes] at hx ⊢
      have hoperand : operand.nodes ≤ size := Nat.le_of_succ_le hx
      cases op with
      | not => exact ((he.condition hoperand env calls).ahead fun _ => pure _).mono (Nat.le_succ _)
      | neg =>
          exact ((he.expr operand env calls hoperand).ahead fun _ =>
            (Makes.settle _ _).ahead fun _ => pure _).mono (Nat.le_succ _)
  | cond pos arms otherwise =>
      simp only [Part.children, List.forall_mem_append, List.mem_flatMap] at hparts
      have harms : ∀ arm ∈ arms, arm.1.nodes ≤ size ∧ ∀ y ∈ arm.2, y.nodes ≤ size :=
        fun arm harm => ⟨hparts.1 _ ⟨arm, harm, List.mem_cons_self⟩, fun y hy =>
          hparts.1 _ ⟨arm, harm, List.mem_cons_of_mem _ (List.mem_map_of_mem hy)⟩⟩
      have hlast : ∀ y ∈ otherwise.getD [], y.nodes ≤ size :=
        fun y hy => hparts.2 _ (List.mem_map_of_mem hy)
      refine (he.conditional harms hlast env calls).mono ?_
      cases otherwise <;> simp only [Expr.nodes] <;> omega

/-- Nothing is made where a value is written, but for the parts of the place. -/
theorem write {target : Expr} (htarget : target.nodes ≤ size) (value : Value) (env : Env)
    (calls : Nat) : Makes size target.nodes (e.write target value env calls) := by
  cases target with
  | ident pos name => exact (Makes.update pos _).mono (Nat.zero_le _)
  | index pos container index =>
      rw [Expr.nodes] at htarget ⊢
      refine ((he.expr container env calls (by omega)).bind fun _ =>
        (he.expr index env calls (by omega)).ahead fun _ => Makes.update pos _).mono ?_
      omega
  | prop pos container name =>
      rw [Expr.nodes] at htarget ⊢
      refine ((he.expr container env calls (by omega)).ahead fun _ => Makes.update pos _).mono ?_
      omega
  | _ => exact mono (throw _) (Nat.zero_le _)

/-- A compound assignment evaluates the parts of the place twice. -/
theorem assign {target : Expr} (htarget : target.nodes ≤ size) (op : AssignOp) (value : Value)
    (env : Env) (calls : Nat) :
    Makes size (2 * target.nodes) (e.assign target op value env calls) := by
  have hwrite := fun value => he.write htarget value env calls
  cases op with
  | set => exact (hwrite value).mono (by omega)
  | _ =>
      refine ((he.expr target env calls htarget).bind fun _ =>
        (Makes.settle _ _).behind hwrite).mono ?_
      omega

theorem perform {x : Stmt} (hx : x.nodes ≤ size) (env : Env) (calls : Nat) :
    Makes size (2 * x.nodes) (e.perform s x env calls) := by
  have hparts : ∀ c ∈ (Part.stmt x).children, c.nodes ≤ size := fun c hc => nodes_le hc hx
  cases x with
  | metadata | leave | again => exact mono (pure _) (Nat.zero_le _)
  | define pos name isMutable value =>
      rw [Stmt.nodes] at hx ⊢
      refine ((he.expr value env calls (by omega)).ahead fun _ =>
        (Makes.update pos _).ahead fun _ => pure _).mono ?_
      omega
  | assign pos target op value =>
      rw [Stmt.nodes] at hx ⊢
      refine ((he.expr value env calls (by omega)).bind fun value =>
        (he.assign (by omega) op value env calls).ahead fun _ => pure _).mono ?_
      omega
  | out pos value =>
      rw [Stmt.nodes] at hx ⊢
      refine ((he.expr value env calls (by omega)).ahead fun _ =>
        (emit _).ahead fun _ => pure _).mono ?_
      omega
  | back pos value =>
      cases value with
      | none => exact mono (pure _) (Nat.zero_le _)
      | some value =>
          rw [Stmt.nodes] at hx ⊢
          refine ((he.expr value env calls (by omega)).ahead fun _ => pure _).mono ?_
          omega
  | loop pos body =>
      have hbody : ∀ y ∈ body, y.nodes ≤ size := fun y hy => hparts _ (List.mem_map_of_mem hy)
      exact (he.loop hbody pos env calls _).mono (Nat.zero_le _)
  | each pos var items body =>
      simp only [Part.children, List.forall_mem_cons] at hparts
      have hbody : ∀ y ∈ body, y.nodes ≤ size := fun y hy => hparts.2 _ (List.mem_map_of_mem hy)
      rw [Stmt.nodes] at hx ⊢
      refine mono ((he.expr items env calls (by omega)).ahead fun v => ?_) (by omega)
      cases v with
      | arr id =>
          exact (Makes.look _).ahead fun items => he.each hbody var pos env calls items.toList
      | _ => exact throw _
  | count pos var times body =>
      simp only [Part.children, List.forall_mem_cons] at hparts
      have hbody : ∀ y ∈ body, y.nodes ≤ size := fun y hy => hparts.2 _ (List.mem_map_of_mem hy)
      rw [Stmt.nodes] at hx ⊢
      refine ((he.expr times env calls (by omega)).ahead fun v =>
        (Makes.settle _ _).ahead fun x => he.count hbody var pos env calls _ 0).mono ?_
      omega
  | eval pos value =>
      rw [Stmt.nodes] at hx ⊢
      refine ((he.expr value env calls (by omega)).ahead fun _ => pure _).mono ?_
      omega

/-- The step of a statement pays for all that the statement makes. -/
theorem onStmt {x : Stmt} (hx : x.nodes ≤ size) (env : Env) (calls : Nat) :
    Makes size 0 (e.onStmt s x env calls) :=
  (step_bind x.pos ((he.perform hx env calls).mono (Nat.mul_le_mul_left 2 hx))).land

/-- A program makes nothing that its steps do not pay for. -/
theorem program {body : List Stmt} (hbody : ∀ x ∈ body, x.nodes ≤ size) (last : Option Value)
    (env : Env) : Makes size 0 (e.program env last body) := by
  induction body generalizing last with
  | nil => exact check.ahead fun _ => pure _
  | cons x rest ih =>
      obtain ⟨hx, hrest⟩ := List.forall_mem_cons.1 hbody
      refine (he.stmt x env 0 hx).ahead fun flow => ?_
      cases flow with
      | next value => exact ih hrest value
      | back value => exact check.ahead fun _ => pure _
      | leave | again => exact throw _

end Thrifty

end Machine

end ScriptLab
