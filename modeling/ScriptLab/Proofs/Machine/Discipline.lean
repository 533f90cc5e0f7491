import ScriptLab.Proofs.Machine.Action
import ScriptLab.Proofs.Machine.Scopes

/-!
# Disciplines on runs

The same program can be run under several settings at once. A discipline is a property of such
families of actions that sequencing keeps and that the primitive actions have; what is proved here
once is that statements and expressions then have it too, as soon as their parts do. Statements about
one run take a family of one, comparisons of runs a family of two or more.
-/

namespace ScriptLab.Machine

open Program
open Text (Pos)

variable {ω : Type} {α β : Type}

/-! ## Quiet actions -/

/-- Whether a program brings the halt about by itself. -/
def Halt.isOwn : Halt → Bool
  | .fault _ | .jump _ => true
  | .aborted | .crashed _ | .exhausted => false

/-- What a quiet action may make of a store: it adds no function, and changes at most one thing in the
scopes. -/
structure Mild (store after : Store) : Prop where
  callables : after.callables = store.callables
  scopes : ScopeChange store after

theorem Mild.refl (store : Store) : Mild store store :=
  ⟨rfl, .none rfl⟩

/-- An action that looks at nothing but the store, and changes nothing else. -/
def Quiet (m : Eval ω α) : Prop :=
  ∀ store : Store,
    (∃ a after, Mild store after ∧
      ∀ p : Progress ω, p.store = store → m p = .ok a { p with store := after }) ∨
    (∃ h : Halt, h.isOwn = true ∧ ∀ p : Progress ω, p.store = store → m p = .error h p)

namespace Quiet

theorem pure (a : α) : Quiet (pure a : Eval ω α) := by
  intro store
  refine .inl ⟨a, store, .refl store, ?_⟩
  rintro p rfl
  rfl

theorem raise (cause : Cause) (pos : Pos) : Quiet (raise cause pos : Eval ω α) := by
  intro store
  exact .inr ⟨.fault ⟨cause, pos⟩, rfl, fun p _ => rfl⟩

theorem raise_bind (cause : Cause) (pos : Pos) (f : α → Eval ω β) :
    Quiet (Machine.raise cause pos >>= f) := by
  intro store
  exact .inr ⟨.fault ⟨cause, pos⟩, rfl, fun p _ => bind_of_error rfl f⟩

theorem jump (flow : Flow) : Quiet (throw (.jump flow) : Eval ω α) := by
  intro store
  exact .inr ⟨.jump flow, rfl, fun p _ => rfl⟩

theorem look (f : Store → α) : Quiet (look f : Eval ω α) := by
  intro store
  refine .inl ⟨f store, store, .refl store, ?_⟩
  rintro p rfl
  rfl

theorem change {f : Store → Store} (hf : ∀ store, Mild store (f store)) :
    Quiet (change f : Eval ω Unit) := by
  intro store
  refine .inl ⟨(), f store, hf store, ?_⟩
  rintro p rfl
  rfl

theorem create {f : Store → α × Store} (hf : ∀ store, Mild store (f store).2) :
    Quiet (create f : Eval ω α) := by
  intro store
  refine .inl ⟨(f store).1, (f store).2, hf store, ?_⟩
  rintro p rfl
  rfl

theorem settle (pos : Pos) (result : Except Cause α) : Quiet (settle pos result : Eval ω α) := by
  cases result with
  | ok a => exact Quiet.pure a
  | error cause => exact Quiet.raise cause pos

end Quiet

theorem callables_edit (store : Store) (edit : Store.Edit) :
    (store.edit edit).callables = store.callables := by
  cases edit <;> rfl

theorem lookup_apply (pos : Pos) (f : Store → Except Cause α) (p : Progress ω) :
    lookup pos f p = match f p.store with
      | .ok a => .ok a p
      | .error cause => .error (.fault ⟨cause, pos⟩) p := by
  change settle pos (f p.store) p = _
  cases f p.store <;> rfl

theorem update_apply (pos : Pos) (f : Store → Except Cause Store.Edit) (p : Progress ω) :
    update pos f p = match f p.store with
      | .ok edit => .ok () { p with store := p.store.edit edit }
      | .error cause => .error (.fault ⟨cause, pos⟩) p := by
  unfold update
  rw [bind_apply, lookup_apply]
  cases f p.store <;> rfl

theorem Quiet.update (pos : Pos) {f : Store → Except Cause Store.Edit}
    (hf : ∀ store edit, f store = .ok edit → ScopeChange store (store.edit edit)) :
    Quiet (Machine.update pos f : Eval ω Unit) := by
  intro store
  cases hedit : f store with
  | ok edit =>
      refine .inl ⟨(), store.edit edit, ⟨callables_edit store edit, hf store edit hedit⟩, ?_⟩
      rintro p rfl
      rw [update_apply, hedit]
  | error cause =>
      refine .inr ⟨.fault ⟨cause, pos⟩, rfl, ?_⟩
      rintro p rfl
      rw [update_apply, hedit]

/-! ## Programs over any evaluators -/

/-- Runs the statements of a program over any evaluators, as `runProgram` does over bounded ones. -/
def Evaluators.program (e : Evaluators ω) (env : Env) :
    Option Value → List Stmt → Eval ω (Option Value)
  | last, [] => do
    checkAborted
    return last
  | _, stmt :: rest => do
    match ← e.stmt stmt env 0 with
    | .next value => e.program env value rest
    | .back value =>
      checkAborted
      return some value
    | _ => raise .strayLoopControl stmt.pos

theorem runProgram_eq_program (s : Setting ω) (n : Nat) (env : Env) (last : Option Value)
    (program : List Stmt) :
    runProgram s n env last program =
      Evaluators.program ⟨runWithin s n, evalWithin s n⟩ env last program := by
  induction program generalizing last with
  | nil => rfl
  | cons stmt rest ih =>
      unfold runProgram Evaluators.program
      refine congrArg (runWithin s n stmt env 0 >>= ·) (funext fun flow => ?_)
      cases flow with
      | next value => exact ih value
      | _ => rfl

/-! ## Disciplines -/

/-- A property of families of actions that sequencing keeps and that the primitive actions have.
A function enters the store with a known body, and every function found there has one. -/
structure Discipline {ι : Type} (s : ι → Setting ω) where
  Holds : {α : Type} → (ι → Eval ω α) → Prop
  Known : List Stmt → Prop
  quiet : ∀ {α : Type} {m : Eval ω α}, Quiet m → Holds fun _ => m
  bind : ∀ {α β : Type} {m : ι → Eval ω α} {f : ι → α → Eval ω β},
    Holds m → (∀ a, Holds fun i => f i a) → Holds fun i => m i >>= f i
  land : ∀ {m : ι → Eval ω Flow}, Holds m → Holds fun i => land (m i)
  check : Holds fun _ => checkAborted
  emit : ∀ v, Holds fun i => (s i).emit v
  sleep : ∀ millis, Holds fun i => (s i).sleep millis
  step : ∀ pos, Holds fun i => (s i).step pos
  closure : ∀ params {body} env, Known body →
    Holds fun _ => create (·.newCallable (.closure params body env))
  callable : ∀ {α : Type} (id : Nat) {f : ι → Option Callable → Eval ω α},
    (∀ c, (∀ params body env, c = some (.closure params body env) → Known body) →
      Holds fun i => f i c) →
    Holds fun i => look (·.callables[id]?) >>= f i
  /-- A call is made only where the limit on open calls allows it. -/
  guard : ∀ {α : Type} (calls : Nat) (pos : Pos) {m : ι → Eval ω α},
    ((∃ i, calls < (s i).limits.maxCalls) → Holds m) →
    Holds fun i => if (s i).limits.maxCalls ≤ calls
      then raise .callsExceeded pos >>= fun _ : PUnit => m i else m i
  loop : ∀ (e : ι → Evaluators ω) body pos env calls,
    Holds (fun i => (e i).block [] body env calls) →
    Holds fun i => (e i).loop (s i) body pos env calls (s i).rounds

namespace Discipline

variable {ι : Type} {s : ι → Setting ω} (D : Discipline s) (e : ι → Evaluators ω)

theorem pure (a : α) : D.Holds fun _ => (Pure.pure a : Eval ω α) :=
  D.quiet (Quiet.pure a)

theorem raise (cause : Cause) (pos : Pos) :
    D.Holds fun _ => (Machine.raise cause pos : Eval ω α) :=
  D.quiet (Quiet.raise cause pos)

theorem settle (pos : Pos) (result : Except Cause α) :
    D.Holds fun _ => (Machine.settle pos result : Eval ω α) :=
  D.quiet (Quiet.settle pos result)

theorem look (f : Store → α) : D.Holds fun _ => (Machine.look f : Eval ω α) :=
  D.quiet (Quiet.look f)

theorem lookup (pos : Pos) (f : Store → Except Cause α) :
    D.Holds fun _ => (Machine.lookup pos f : Eval ω α) :=
  D.bind (D.look f) fun result => D.settle pos result

theorem update (pos : Pos) {f : Store → Except Cause Store.Edit}
    (hf : ∀ store edit, f store = .ok edit → ScopeChange store (store.edit edit)) :
    D.Holds fun _ => (Machine.update pos f : Eval ω Unit) :=
  D.quiet (Quiet.update pos hf)

theorem inner {bindings : Frame} (h : Immutable bindings) (env : Env) :
    D.Holds fun _ => (Machine.inner bindings env : Eval ω Env) :=
  D.bind (D.quiet (Quiet.create fun _ => ⟨rfl, .enter h⟩)) fun frame =>
    D.pure (Env.mk frame env.frames)

/-- Evaluating a part, in any scope. -/
def Part (calls : Nat) : Program.Part → Prop
  | .stmt x => ∀ env, D.Holds fun i => (e i).stmt x env calls
  | .expr x => ∀ env, D.Holds fun i => (e i).expr x env calls

/-- Evaluating the statements of every known body, in a call that may be made. -/
def Bodies (calls : Nat) : Prop :=
  (∃ i, calls < (s i).limits.maxCalls) →
    ∀ body, D.Known body → ∀ x ∈ body, D.Part e (calls + 1) (.stmt x)

variable {D e} {calls : Nat}

/-! ## Blocks and loops -/

theorem statements {body : List Stmt} (h : ∀ x ∈ body, D.Part e calls (.stmt x))
    (last : Option Value) (env : Env) :
    D.Holds fun i => (e i).statements env calls last body := by
  induction body generalizing last with
  | nil => exact D.pure _
  | cons stmt rest ih =>
      refine D.bind (h stmt List.mem_cons_self env) fun flow => ?_
      cases flow with
      | next value => exact ih (fun x hx => h x (List.mem_cons_of_mem _ hx)) value
      | _ => exact D.pure _

theorem block {body : List Stmt} (h : ∀ x ∈ body, D.Part e calls (.stmt x))
    {bindings : Frame} (himmutable : Immutable bindings) (env : Env) :
    D.Holds fun i => (e i).block bindings body env calls :=
  D.bind (D.inner himmutable env) fun env => statements h none env

theorem each {body : List Stmt} (h : ∀ x ∈ body, D.Part e calls (.stmt x))
    (var : String) (pos : Pos) (env : Env) (items : List Value) :
    D.Holds fun i => (e i).each (s i) var body pos env calls items := by
  induction items with
  | nil => exact D.pure _
  | cons item rest ih =>
      refine D.bind (D.step pos) fun _ => D.bind (block h (.singleton var item) env) fun flow => ?_
      cases flow with
      | leave => exact D.pure _
      | back value => exact D.pure _
      | next value => exact ih
      | again => exact ih

theorem count {body : List Stmt} (h : ∀ x ∈ body, D.Part e calls (.stmt x))
    (var : String) (pos : Pos) (env : Env) (n k : Nat) :
    D.Holds fun i => (e i).count (s i) var body pos env calls n k := by
  induction n generalizing k with
  | zero => exact D.pure _
  | succ n ih =>
      refine D.bind (D.step pos) fun _ => D.bind (block h (.singleton var _) env) fun flow => ?_
      cases flow with
      | leave => exact D.pure _
      | back value => exact D.pure _
      | next value => exact ih (k + 1)
      | again => exact ih (k + 1)

/-! ## Expressions -/

theorem list {items : List Expr} (h : ∀ x ∈ items, D.Part e calls (.expr x))
    (values : List Value) (env : Env) :
    D.Holds fun i => (e i).list env calls values items := by
  induction items generalizing values with
  | nil => exact D.pure _
  | cons item rest ih =>
      exact D.bind (h item List.mem_cons_self env) fun value =>
        ih (fun x hx => h x (List.mem_cons_of_mem _ hx)) (value :: values)

theorem entries {items : List (String × Expr)}
    (h : ∀ x ∈ items.map Prod.snd, D.Part e calls (.expr x))
    (made : Entries String Value) (env : Env) :
    D.Holds fun i => (e i).entries env calls made items := by
  induction items generalizing made with
  | nil => exact D.pure _
  | cons item rest ih =>
      obtain ⟨key, x⟩ := item
      rw [List.map_cons] at h
      exact D.bind (h x List.mem_cons_self env) fun value =>
        ih (fun y hy => h y (List.mem_cons_of_mem _ hy)) (made.put key value)

theorem condition {x : Expr} (h : D.Part e calls (.expr x)) (env : Env) :
    D.Holds fun i => (e i).condition x env calls :=
  D.bind (h env) fun value => D.settle x.pos (asBool value)

theorem branch {body : List Stmt} (h : ∀ x ∈ body, D.Part e calls (.stmt x)) (env : Env) :
    D.Holds fun i => (e i).branch body env calls := by
  refine D.bind (block h .nil env) fun flow => ?_
  cases flow with
  | next value => exact D.pure _
  | _ => exact D.quiet (Quiet.jump _)

theorem conditional {arms : List (Expr × List Stmt)} {otherwise : Option (List Stmt)}
    (harms : ∀ arm ∈ arms, D.Part e calls (.expr arm.1) ∧
      ∀ x ∈ arm.2, D.Part e calls (.stmt x))
    (hlast : ∀ x ∈ otherwise.getD [], D.Part e calls (.stmt x)) (env : Env) :
    D.Holds fun i => (e i).conditional otherwise env calls arms := by
  induction arms with
  | nil =>
      cases otherwise with
      | none => exact D.pure _
      | some body => exact branch hlast env
  | cons arm rest ih =>
      obtain ⟨hcond, hbody⟩ := harms arm List.mem_cons_self
      refine D.bind (condition hcond env) fun b => ?_
      cases b with
      | true => exact branch hbody env
      | false => exact ih fun arm h => harms arm (List.mem_cons_of_mem _ h)

/-! ## Calls -/

theorem callBuiltin (function : Builtin) (args : List Value) (pos : Pos) :
    D.Holds fun i => Machine.callBuiltin (s i) function args pos := by
  unfold Machine.callBuiltin
  cases function with
  | print => exact D.bind (D.emit _) fun _ => D.pure _
  | typeOf => exact D.pure _
  | toText => exact D.bind (D.look _) fun _ => D.pure _
  | sleep =>
      exact D.bind (D.settle pos _) fun _ => D.bind (D.sleep _) fun _ => D.pure _
  | abort => exact D.bind (D.look _) fun _ => D.raise _ pos
  | range =>
      exact D.bind (D.settle pos _) fun _ => D.bind (D.settle pos _) fun _ =>
        D.bind (D.settle pos _) fun _ => D.quiet (Quiet.create fun _ => ⟨rfl, .none rfl⟩)
  | floor => exact D.bind (D.settle pos _) fun _ => D.pure _
  | abs => exact D.bind (D.settle pos _) fun _ => D.pure _
  | push =>
      generalize args.headD .null = first
      cases first with
      | arr id => exact D.bind (D.quiet (Quiet.change fun _ => ⟨rfl, .none rfl⟩)) fun _ => D.pure _
      | _ => exact D.raise _ pos

theorem closureCall (hbodies : D.Bodies e calls) (params : List String) {body : List Stmt}
    (hbody : D.Known body) (env : Env) (args : List Value) (pos : Pos) :
    D.Holds fun i => (e i).closure (s i) params body env args pos calls := by
  refine D.guard calls pos fun hcalls => ?_
  cases hparams : bindParams [] params args with
  | error cause => exact D.raise cause pos
  | ok frame =>
      have hframe := immutable_bindParams .nil hparams
      change D.Holds fun i => (e i).block frame body env (calls + 1) >>= _
      refine D.bind (block (hbodies hcalls body hbody) hframe env) fun flow => ?_
      cases flow with
      | next value => exact D.pure _
      | back value => exact D.pure _
      | _ => exact D.raise _ pos

theorem call (hbodies : D.Bodies e calls) (callee : Value) (args : List Value) (pos : Pos) :
    D.Holds fun i => (e i).call (s i) callee args pos calls := by
  cases callee with
  | fn id =>
      refine D.callable id fun c hc => ?_
      cases c with
      | none => exact D.raise _ pos
      | some c =>
          cases c with
          | closure params body env => exact closureCall hbodies params (hc _ _ _ rfl) env args pos
          | builtin function => exact callBuiltin function args pos
  | _ => exact D.raise _ pos

/-! ## Whole expressions and statements -/

/-- An expression keeps a discipline if its parts do, and if a function that it makes is known. -/
theorem onExpr {x : Expr} (hparts : ∀ c ∈ (Program.Part.expr x).children, D.Part e calls c)
    (hknown : ∀ pos params body, x = .fn pos params body → D.Known body)
    (hbodies : D.Bodies e calls) (env : Env) :
    D.Holds fun i => (e i).onExpr (s i) x env calls := by
  cases x with
  | null | bool | num | str => exact D.pure _
  | arr pos items =>
      refine D.bind (list (fun y hy => hparts _ (List.mem_map_of_mem hy)) [] env) fun values => ?_
      exact D.quiet (Quiet.create fun _ => ⟨rfl, .none rfl⟩)
  | obj pos items =>
      refine D.bind (entries (fun y hy => hparts _ (List.mem_map_of_mem hy)) [] env) fun _ => ?_
      exact D.quiet (Quiet.create fun _ => ⟨rfl, .none rfl⟩)
  | ident pos name => exact D.lookup pos _
  | fn pos params body => exact D.closure params env (hknown _ _ _ rfl)
  | call pos callee args =>
      simp only [Program.Part.children, List.forall_mem_cons] at hparts
      refine D.bind (hparts.1 env) fun callee => ?_
      refine D.bind (list (fun y hy => hparts.2 _ (List.mem_map_of_mem hy)) [] env) fun args => ?_
      exact call hbodies callee args pos
  | index pos target index =>
      simp only [Program.Part.children, List.forall_mem_cons] at hparts
      exact D.bind (hparts.1 env) fun _ => D.bind (hparts.2.1 env) fun _ => D.lookup pos _
  | prop pos target name =>
      simp only [Program.Part.children, List.forall_mem_cons] at hparts
      exact D.bind (hparts.1 env) fun _ => D.lookup pos _
  | binary pos op left right =>
      simp only [Program.Part.children, List.forall_mem_cons] at hparts
      cases op with
      | and =>
          refine D.bind (condition hparts.1 env) fun b => ?_
          cases b with
          | true => exact D.bind (condition hparts.2.1 env) fun _ => D.pure _
          | false => exact D.pure _
      | or =>
          refine D.bind (condition hparts.1 env) fun b => ?_
          cases b with
          | true => exact D.pure _
          | false => exact D.bind (condition hparts.2.1 env) fun _ => D.pure _
      | _ =>
          exact D.bind (hparts.1 env) fun _ => D.bind (hparts.2.1 env) fun _ => D.settle pos _
  | unary pos op operand =>
      simp only [Program.Part.children, List.forall_mem_cons] at hparts
      cases op with
      | not => exact D.bind (condition hparts.1 env) fun _ => D.pure _
      | neg => exact D.bind (hparts.1 env) fun _ => D.bind (D.settle _ _) fun _ => D.pure _
  | cond pos arms otherwise =>
      simp only [Program.Part.children, List.forall_mem_append, List.mem_flatMap] at hparts
      refine conditional (fun arm harm => ⟨?_, fun y hy => ?_⟩)
        (fun y hy => hparts.2 _ (List.mem_map_of_mem hy)) env
      · exact hparts.1 _ ⟨arm, harm, List.mem_cons_self⟩
      · exact hparts.1 _ ⟨arm, harm, List.mem_cons_of_mem _ (List.mem_map_of_mem hy)⟩

theorem write {target : Expr}
    (hparts : ∀ c ∈ (Program.Part.expr target).children, D.Part e calls c)
    (value : Value) (env : Env) :
    D.Holds fun i => (e i).write target value env calls := by
  cases target with
  | ident pos name => exact D.update pos fun _ _ => .assign
  | index pos container index =>
      simp only [Program.Part.children, List.forall_mem_cons] at hparts
      exact D.bind (hparts.1 env) fun _ => D.bind (hparts.2.1 env) fun _ =>
        D.update pos fun _ _ h => .none (frames_writeIndex h)
  | prop pos container name =>
      simp only [Program.Part.children, List.forall_mem_cons] at hparts
      exact D.bind (hparts.1 env) fun _ =>
        D.update pos fun _ _ h => .none (frames_writeProperty h)
  | _ => exact D.raise _ _

theorem assign {target : Expr} (htarget : D.Part e calls (.expr target))
    (hparts : ∀ c ∈ (Program.Part.expr target).children, D.Part e calls c)
    (op : AssignOp) (value : Value) (env : Env) :
    D.Holds fun i => (e i).assign target op value env calls := by
  cases op with
  | set => exact write hparts value env
  | _ =>
      exact D.bind (htarget env) fun _ => D.bind (D.settle _ _) fun value =>
        write hparts value env

/-- The parts of a statement, and those of the place that it assigns to, which is taken apart
anew. -/
def evaluated : Stmt → List Program.Part
  | .assign _ target _ value =>
      [.expr target, .expr value] ++ (Program.Part.expr target).children
  | x => (Program.Part.stmt x).children

/-- A statement keeps a discipline if what it evaluates does. -/
theorem onStmt {x : Stmt} (hparts : ∀ c ∈ evaluated x, D.Part e calls c) (env : Env) :
    D.Holds fun i => (e i).onStmt (s i) x env calls := by
  refine D.land (D.bind (D.step x.pos) fun _ => ?_)
  cases x with
  | metadata | leave | again => exact D.pure _
  | define pos name isMutable value =>
      simp only [evaluated, Program.Part.children, List.forall_mem_cons] at hparts
      exact D.bind (hparts.1 env) fun _ => D.bind (D.update pos fun _ _ => .define) fun _ =>
        D.pure _
  | assign pos target op value =>
      simp only [evaluated, List.cons_append, List.nil_append, List.forall_mem_cons] at hparts
      exact D.bind (hparts.2.1 env) fun value =>
        D.bind (assign hparts.1 hparts.2.2 op value env) fun _ => D.pure _
  | out pos value =>
      simp only [evaluated, Program.Part.children, List.forall_mem_cons] at hparts
      exact D.bind (hparts.1 env) fun value => D.bind (D.emit value) fun _ => D.pure _
  | back pos value =>
      cases value with
      | none => exact D.pure _
      | some value =>
          exact D.bind (hparts _ List.mem_cons_self env) fun _ => D.pure _
  | loop pos body =>
      exact D.loop e body pos env calls
        (block (fun y hy => hparts _ (List.mem_map_of_mem hy)) .nil env)
  | each pos var items body =>
      simp only [evaluated, Program.Part.children, List.forall_mem_cons] at hparts
      refine D.bind (hparts.1 env) fun v => ?_
      cases v with
      | arr id =>
          refine D.bind (D.look _) fun items => ?_
          exact each (fun y hy => hparts.2 _ (List.mem_map_of_mem hy)) var pos env items.toList
      | _ => exact D.raise _ _
  | count pos var times body =>
      simp only [evaluated, Program.Part.children, List.forall_mem_cons] at hparts
      refine D.bind (hparts.1 env) fun v => D.bind (D.settle _ _) fun x => ?_
      exact count (fun y hy => hparts.2 _ (List.mem_map_of_mem hy)) var pos env _ 0
  | eval pos value =>
      simp only [evaluated, Program.Part.children, List.forall_mem_cons] at hparts
      exact D.bind (hparts.1 env) fun _ => D.pure _

/-! ## The evaluator -/

/-- The evaluators with the given bounds on open evaluations. -/
def bounded (s : ι → Setting ω) (bound : ι → Nat) (i : ι) : Evaluators ω :=
  ⟨runWithin (s i) (bound i), evalWithin (s i) (bound i)⟩

theorem part_of {bound : ι → Nat}
    (hstmt : ∀ x env, D.Holds fun i => runWithin (s i) (bound i) x env calls)
    (hexpr : ∀ x env, D.Holds fun i => evalWithin (s i) (bound i) x env calls)
    (c : Program.Part) : D.Part (bounded s bound) calls c := by
  cases c with
  | stmt x => exact hstmt x
  | expr x => exact hexpr x

/-- A discipline that lets every function be known, and that running out of the bound keeps, holds of
every evaluation. -/
theorem within (D : Discipline s) (hknown : ∀ body, D.Known body)
    (hexhausted : ∀ {α : Type}, D.Holds fun _ => (throw .exhausted : Eval ω α)) (n : Nat) :
    (∀ x env calls, D.Holds fun i => runWithin (s i) n x env calls) ∧
      ∀ x env calls, D.Holds fun i => evalWithin (s i) n x env calls := by
  induction n with
  | zero => exact ⟨fun _ _ _ => hexhausted, fun _ _ _ => hexhausted⟩
  | succ n ih =>
      have hpart : ∀ calls c, D.Part (bounded s fun _ => n) calls c := fun calls =>
        part_of (fun x env => ih.1 x env calls) fun x env => ih.2 x env calls
      have hbodies : ∀ calls, D.Bodies (bounded s fun _ => n) calls :=
        fun calls _ _ _ x _ => hpart (calls + 1) (.stmt x)
      exact ⟨fun x env calls => onStmt (fun c _ => hpart calls c) env,
        fun x env calls => onExpr (fun c _ => hpart calls c) (fun _ _ body _ => hknown body)
          (hbodies calls) env⟩

/-! ## Programs -/

theorem programOver {body : List Stmt} (h : ∀ x ∈ body, D.Part e 0 (.stmt x))
    (last : Option Value) (env : Env) : D.Holds fun i => (e i).program env last body := by
  induction body generalizing last with
  | nil => exact D.bind D.check fun _ => D.pure _
  | cons stmt rest ih =>
      refine D.bind (h stmt List.mem_cons_self env) fun flow => ?_
      cases flow with
      | next value => exact ih (fun x hx => h x (List.mem_cons_of_mem _ hx)) value
      | back value => exact D.bind D.check fun _ => D.pure _
      | _ => exact D.raise _ _

theorem program (bound : ι → Nat) {body : List Stmt}
    (h : ∀ x ∈ body, ∀ env, D.Holds fun i => runWithin (s i) (bound i) x env 0)
    (last : Option Value) (env : Env) :
    D.Holds fun i => runProgram (s i) (bound i) env last body := by
  simp only [runProgram_eq_program]
  exact programOver (e := bounded s bound) h last env

end Discipline

end ScriptLab.Machine
