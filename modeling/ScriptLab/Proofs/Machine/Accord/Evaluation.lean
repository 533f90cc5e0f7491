import ScriptLab.Proofs.Machine.Accord

/-!
# Evaluation in accord

Two runs in accord stay so through every statement and expression. Each rule follows the evaluator
for one form, over what is known of its parts; the bound on open evaluations ties them together.
-/

namespace ScriptLab.Machine

open Program
open Text (Pos)

variable {ω : Type}

/-- What a range gives has no places in it. -/
theorem rangeItems_value (σ : Shift) (first last : Int) :
    rangeItems first last = (rangeItems first last).map (Array.map σ.value) := by
  unfold rangeItems
  dsimp only
  split
  · rfl
  · refine congrArg Except.ok ?_
    rw [Array.map_map]
    rfl

namespace Accord

variable {s : Setting ω} (A : Accord s) (e : Evaluators ω)

/-- Evaluating a part in scopes of the two runs. -/
def Part (calls : Nat) (looped : Bool) : Program.Part → Prop
  | .stmt x => ∀ (J : Flow → Flow → Prop) (env : Env), A.Scope env →
      A.Keeps J (A.Flows looped) (e.stmt x env calls) (e.stmt x (A.shift.env env) calls)
  | .expr x => ∀ env : Env, A.Scope env →
      A.Keeps (A.Flows looped) (Maps A.shift.value) (e.expr x env calls)
        (e.expr x (A.shift.env env) calls)

/-- Evaluating the bodies of the functions in a store, in a call that may be made. -/
def Bodies (calls : Nat) : Prop :=
  ∀ (store : Store) (id : Nat) (params : List String) (body : List Stmt) (env : Env),
    A.Valid store → store.callables[id]? = some (.closure params body env) →
      calls < s.limits.maxCalls → ∀ x ∈ body, A.Part e (calls + 1) false (.stmt x)

variable {A e} {J : Flow → Flow → Prop} {calls : Nat} {looped : Bool} {pos : Pos} {env : Env}

/-! ## Blocks and loops -/

theorem inner (bindings : Frame) (env : Env) :
    A.Keeps J (fun made made' => A.Scope made ∧ made' = A.shift.env made)
      (inner bindings env) (inner (A.shift.bindings bindings) (A.shift.env env)) := by
  refine bind (R := fun frame frame' =>
    A.Scope ⟨frame, env.frames⟩ ∧ frame' = A.shift.frames frame) ?_ ?_
  · refine create (fun store store' hp hs => ?_) fun store hp => A.newFrame bindings hp
    obtain ⟨hframe, hs'⟩ := hs.newFrame bindings
    exact ⟨⟨A.scope env.frames hp, hframe⟩, hs'⟩
  · rintro frame _ ⟨hscope, rfl⟩
    exact pure ⟨hscope, rfl⟩

theorem getD_null (last : Option Value) :
    (last.map A.shift.value).getD .null = A.shift.value (last.getD .null) := by
  cases last <;> rfl

theorem statements {body : List Stmt} (h : ∀ x ∈ body, A.Part e calls looped (.stmt x))
    (last : Option Value) (henv : A.Scope env) :
    A.Keeps J (A.Flows looped) (e.statements env calls last body)
      (e.statements (A.shift.env env) calls (last.map A.shift.value) body) := by
  induction body generalizing last with
  | nil =>
      refine pure ?_
      rw [getD_null]
      exact .next (some _)
  | cons stmt rest ih =>
      refine bind (h stmt List.mem_cons_self J env henv) fun flow flow' hflow => ?_
      cases hflow with
      | next value => exact ih (fun x hx => h x (List.mem_cons_of_mem _ hx)) value
      | back value => exact pure (.back value)
      | leave hc => exact pure (.leave hc)
      | again hc => exact pure (.again hc)

theorem block {body : List Stmt} (h : ∀ x ∈ body, A.Part e calls looped (.stmt x))
    (bindings : Frame) (env : Env) :
    A.Keeps J (A.Flows looped) (e.block bindings body env calls)
      (e.block (A.shift.bindings bindings) body (A.shift.env env) calls) := by
  refine bind (inner bindings env) ?_
  rintro made _ ⟨hmade, rfl⟩
  exact statements h none hmade

theorem loop {body : List Stmt} (h : ∀ x ∈ body, A.Part e calls true (.stmt x))
    (hpos : A.Faulty pos) (hends : A.Stops .exhausted) (env : Env) (rounds : Nat) :
    A.Keeps J (A.Flows looped) (e.loop s body pos env calls rounds)
      (e.loop s body pos (A.shift.env env) calls rounds) := by
  induction rounds with
  | zero => exact throw (.exhausted hends)
  | succ n ih =>
      refine bind (block h [] env) fun flow flow' hflow => ?_
      cases hflow with
      | leave => exact pure (.next none)
      | back value => exact pure (.back value)
      | next | again => exact bind (step hpos) fun _ _ _ => ih

theorem each {body : List Stmt} (h : ∀ x ∈ body, A.Part e calls true (.stmt x))
    (var : String) (hpos : A.Faulty pos) (env : Env) (items : List Value) :
    A.Keeps J (A.Flows looped) (e.each s var body pos env calls items)
      (e.each s var body pos (A.shift.env env) calls (items.map A.shift.value)) := by
  induction items with
  | nil => exact pure (.next none)
  | cons item rest ih =>
      refine bind (step hpos) fun _ _ _ => ?_
      refine bind (block h [(var, ⟨item, false⟩)] env) fun flow flow' hflow => ?_
      cases hflow with
      | leave => exact pure (.next none)
      | back value => exact pure (.back value)
      | next | again => exact ih

theorem count {body : List Stmt} (h : ∀ x ∈ body, A.Part e calls true (.stmt x))
    (var : String) (hpos : A.Faulty pos) (env : Env) (n k : Nat) :
    A.Keeps J (A.Flows looped) (e.count s var body pos env calls n k)
      (e.count s var body pos (A.shift.env env) calls n k) := by
  induction n generalizing k with
  | zero => exact pure (.next none)
  | succ n ih =>
      refine bind (step hpos) fun _ _ _ => ?_
      refine bind (block h [(var, ⟨.num (Number.ofNat k), false⟩)] env) fun flow flow' hflow => ?_
      cases hflow with
      | leave => exact pure (.next none)
      | back value => exact pure (.back value)
      | next | again => exact ih (k + 1)

/-! ## Expressions -/

theorem list {items : List Expr} (h : ∀ x ∈ items, A.Part e calls looped (.expr x))
    (values : List Value) (henv : A.Scope env) :
    A.Keeps (A.Flows looped) (Maps (List.map A.shift.value)) (e.list env calls values items)
      (e.list (A.shift.env env) calls (values.map A.shift.value) items) := by
  induction items generalizing values with
  | nil => exact pure List.map_reverse.symm
  | cons item rest ih =>
      refine bind (h item List.mem_cons_self env henv) ?_
      rintro value _ rfl
      exact ih (fun x hx => h x (List.mem_cons_of_mem _ hx)) (value :: values)

theorem entries {items : List (String × Expr)}
    (h : ∀ item ∈ items, A.Part e calls looped (.expr item.2))
    (made : Entries String Value) (henv : A.Scope env) :
    A.Keeps (A.Flows looped) (Maps A.shift.entries) (e.entries env calls made items)
      (e.entries (A.shift.env env) calls (A.shift.entries made) items) := by
  induction items generalizing made with
  | nil => exact pure rfl
  | cons item rest ih =>
      obtain ⟨key, x⟩ := item
      refine bind (h (key, x) List.mem_cons_self env henv) ?_
      rintro value _ rfl
      have hput : (A.shift.entries made).put key (A.shift.value value) =
          A.shift.entries (made.put key value) := Entries.put_mapValues A.shift.value made key value
      rw [hput]
      exact ih (fun item hitem => h item (List.mem_cons_of_mem _ hitem)) (made.put key value)

theorem condition {x : Expr} (h : A.Part e calls looped (.expr x)) (hpos : A.Faulty x.pos)
    (henv : A.Scope env) :
    A.Keeps (A.Flows looped) Eq (e.condition x env calls)
      (e.condition x (A.shift.env env) calls) := by
  refine bind (h env henv) ?_
  rintro value _ rfl
  exact settle_same hpos (.asBool value) (asBool_value A.shift value)

theorem branch {body : List Stmt} (h : ∀ x ∈ body, A.Part e calls looped (.stmt x))
    (env : Env) :
    A.Keeps (A.Flows looped) (Maps A.shift.value) (e.branch body env calls)
      (e.branch body (A.shift.env env) calls) := by
  refine bind (block h [] env) fun flow flow' hflow => ?_
  cases hflow with
  | next value => exact pure (getD_null value)
  | back value => exact throw (.jump (.back value))
  | leave hc => exact throw (.jump (.leave hc))
  | again hc => exact throw (.jump (.again hc))

theorem conditional {arms : List (Expr × List Stmt)} {otherwise : Option (List Stmt)}
    (harms : ∀ arm ∈ arms, A.Part e calls looped (.expr arm.1) ∧ A.Faulty arm.1.pos ∧
      ∀ x ∈ arm.2, A.Part e calls looped (.stmt x))
    (hlast : ∀ x ∈ otherwise.getD [], A.Part e calls looped (.stmt x)) (henv : A.Scope env) :
    A.Keeps (A.Flows looped) (Maps A.shift.value) (e.conditional otherwise env calls arms)
      (e.conditional otherwise (A.shift.env env) calls arms) := by
  induction arms with
  | nil =>
      cases otherwise with
      | none => exact pure rfl
      | some body => exact branch hlast env
  | cons arm rest ih =>
      obtain ⟨hcond, hpos, hbody⟩ := harms arm List.mem_cons_self
      refine bind (condition hcond hpos henv) ?_
      rintro b _ rfl
      cases b with
      | true => exact branch hbody env
      | false => exact ih fun arm harm => harms arm (List.mem_cons_of_mem _ harm)

/-- The right operand of `and` and of `or` is evaluated in both runs or in none. -/
theorem binary (op : BinaryOp) {left right : Expr} (hleft : A.Part e calls looped (.expr left))
    (hright : A.Part e calls looped (.expr right)) (hpos : A.Faulty pos)
    (hleftPos : A.Faulty left.pos) (hrightPos : A.Faulty right.pos) (henv : A.Scope env) :
    A.Keeps (A.Flows looped) (Maps A.shift.value) (e.onExpr s (.binary pos op left right) env calls)
      (e.onExpr s (.binary pos op left right) (A.shift.env env) calls) := by
  cases op with
  | and =>
      refine bind (condition hleft hleftPos henv) ?_
      rintro b _ rfl
      cases b with
      | false => exact pure rfl
      | true =>
          refine bind (condition hright hrightPos henv) ?_
          rintro b _ rfl
          exact pure rfl
  | or =>
      refine bind (condition hleft hleftPos henv) ?_
      rintro b _ rfl
      cases b with
      | true => exact pure rfl
      | false =>
          refine bind (condition hright hrightPos henv) ?_
          rintro b _ rfl
          exact pure rfl
  | _ =>
      refine bind (hleft env henv) ?_
      rintro left _ rfl
      refine bind (hright env henv) ?_
      rintro right _ rfl
      exact settle hpos (.combine _ left right) (combine_value A.shift _ left right)

theorem unary (op : UnaryOp) {operand : Expr} (hoperand : A.Part e calls looped (.expr operand))
    (hpos : A.Faulty operand.pos) (henv : A.Scope env) :
    A.Keeps (A.Flows looped) (Maps A.shift.value) (e.onExpr s (.unary pos op operand) env calls)
      (e.onExpr s (.unary pos op operand) (A.shift.env env) calls) := by
  cases op with
  | not =>
      refine bind (condition hoperand hpos henv) ?_
      rintro b _ rfl
      exact pure rfl
  | neg =>
      refine bind (hoperand env henv) ?_
      rintro value _ rfl
      refine bind (settle_same hpos (.asNumber value) (asNumber_value _ value)) ?_
      rintro x _ rfl
      exact pure rfl

/-! ## Calls -/

theorem callBuiltin (function : Builtin) (args : List Value) (hpos : A.Faulty pos) :
    A.Keeps J (Maps A.shift.value) (callBuiltin s function args pos)
      (callBuiltin s function (args.map A.shift.value) pos) := by
  have hhead : ∀ args : List Value,
      (args.map A.shift.value).headD .null = A.shift.value (args.headD .null) := by
    intro args
    cases args <;> rfl
  have hnumber : ∀ v : Value, A.Keeps J Eq (Machine.settle pos (asNumber v))
      (Machine.settle pos (asNumber (A.shift.value v))) :=
    fun v => settle_same hpos (.asNumber v) (asNumber_value A.shift v)
  have htext : ∀ v : Value, A.Keeps (α := String) J Eq (Machine.look (·.text v))
      (Machine.look (·.text (A.shift.value v))) :=
    fun v => look fun _ _ _ hs => (hs.text v).symm
  unfold Machine.callBuiltin
  rw [← List.map_tail, hhead, hhead]
  generalize args.headD .null = first
  generalize args.tail.headD .null = second
  cases function with
  | print => exact bind (emit first) fun _ _ _ => pure rfl
  | typeOf => exact pure (congrArg (fun type => Value.str type.text) (A.shift.type_value first))
  | toText =>
      refine bind (htext first) ?_
      rintro text _ rfl
      exact pure rfl
  | sleep =>
      refine bind (hnumber first) ?_
      rintro x _ rfl
      exact bind (sleep _) fun _ _ _ => pure rfl
  | abort =>
      refine bind (htext first) ?_
      rintro text _ rfl
      exact raise (hpos _ rfl)
  | range =>
      refine bind (hnumber first) ?_
      rintro x _ rfl
      refine bind (hnumber second) ?_
      rintro y _ rfl
      refine bind (settle hpos (.rangeItems _ _) (rangeItems_value A.shift _ _)) ?_
      rintro items _ rfl
      exact create (fun _ _ _ hs => hs.newArray items) fun _ hp => A.heap hp rfl rfl
  | floor | abs =>
      refine bind (hnumber first) ?_
      rintro x _ rfl
      exact pure rfl
  | push =>
      cases first with
      | arr id =>
          refine bind (change (fun _ _ hs => hs.pushItem id second) fun _ hp => A.heap hp rfl rfl) ?_
          exact fun _ _ _ => pure rfl
      | _ => exact raise (hpos _ rfl)

theorem closureCall {params : List String} {body : List Stmt}
    (h : calls < s.limits.maxCalls → ∀ x ∈ body, A.Part e (calls + 1) false (.stmt x))
    (args : List Value) (hpos : A.Faulty pos)
    (hstray : A.Control false → A.Stops (.fault ⟨.strayLoopControl, pos⟩)) (env : Env) :
    A.Keeps J (Maps A.shift.value) (e.closure s params body env args pos calls)
      (e.closure s params body (A.shift.env env) (args.map A.shift.value) pos calls) := by
  unfold Evaluators.closure
  by_cases hcalls : s.limits.maxCalls ≤ calls
  · rw [if_pos hcalls, if_pos hcalls]
    exact bind (R := fun _ _ => False) (raise (hpos _ rfl)) fun _ _ h => h.elim
  rw [if_neg hcalls, if_neg hcalls]
  refine bind (settle hpos (.bindParams [] params args) (bindParams_shifted A.shift [] params args))
    ?_
  rintro frame _ rfl
  refine bind (block (h (Nat.lt_of_not_le hcalls)) frame env) fun flow flow' hflow => ?_
  cases hflow with
  | next value => exact pure (getD_null value)
  | back value => exact pure rfl
  | leave hc => exact raise (hstray hc)
  | again hc => exact raise (hstray hc)

theorem call (hbodies : A.Bodies e calls) (callee : Value) (args : List Value)
    (hpos : A.Faulty pos)
    (hstray : A.Control false → A.Stops (.fault ⟨.strayLoopControl, pos⟩)) :
    A.Keeps J (Maps A.shift.value) (e.call s callee args pos calls)
      (e.call s (A.shift.value callee) (args.map A.shift.value) pos calls) := by
  cases callee with
  | fn id =>
      refine bind (R := fun c c' => c' = c.map A.shift.callable ∧
        ∀ params body env, c = some (.closure params body env) →
          calls < s.limits.maxCalls → ∀ x ∈ body, A.Part e (calls + 1) false (.stmt x)) ?_ ?_
      · refine look fun store store' hp hs => ⟨hs.callables.item id, fun params body env hc => ?_⟩
        exact hbodies store id params body env hp hc
      · rintro c _ ⟨rfl, hc⟩
        rcases c with _ | ⟨params, body, env⟩ | function
        · exact raise (hpos _ rfl)
        · exact closureCall (hc params body env rfl) args hpos hstray env
        · exact callBuiltin function args hpos
  | _ => exact raise (hpos _ rfl)

/-! ## Whole expressions and statements -/

section Parts

variable {n : Nat} (ih : ∀ calls looped c, A.Allowed n calls looped c → A.Part e calls looped c)
include ih

/-- An expression that is allowed keeps an accord if all that is allowed inside does. -/
theorem onExpr {x : Expr} (hx : A.Allowed (n + 1) calls looped (.expr x))
    (hbodies : A.Bodies e calls) (henv : A.Scope env) :
    A.Keeps (A.Flows looped) (Maps A.shift.value) (e.onExpr s x env calls)
      (e.onExpr s x (A.shift.env env) calls) := by
  have hpos : A.Faulty x.pos := A.fault hx
  have hin := A.inside hx
  cases x with
  | null | bool | num | str => exact pure rfl
  | arr pos items =>
      simp only [partsInside, Part.children, Part.ofExprs, List.forall_mem_map] at hin
      refine bind (list (fun y hy => ih _ _ _ (hin y hy)) [] henv) ?_
      rintro values _ rfl
      refine create (fun _ _ _ hs => ?_) fun _ hp => A.heap hp rfl rfl
      rw [← List.map_toArray]
      exact hs.newArray values.toArray
  | obj pos items =>
      simp only [partsInside, Part.children, Part.ofExprs, List.forall_mem_map] at hin
      refine bind (entries (fun y hy => ih _ _ _ (hin y hy)) [] henv) ?_
      rintro made _ rfl
      exact create (fun _ _ _ hs => hs.newObject made) fun _ hp => A.heap hp rfl rfl
  | ident pos name =>
      exact lookup hpos (fun store => .readName store env name)
        fun _ _ hs => readName_shifted hs env name
  | fn pos params body =>
      change A.Keeps _ _ (Machine.create (·.newCallable (.closure params body env)))
        (Machine.create (·.newCallable (A.shift.callable (.closure params body env))))
      exact create (fun _ _ _ hs => hs.newCallable _) fun _ hp => A.closure hp hx
  | call pos callee args =>
      simp only [partsInside, Part.children, Part.ofExprs, List.map_cons, List.forall_mem_cons,
        List.forall_mem_map] at hin
      refine bind (ih _ _ _ hin.1 env henv) ?_
      rintro callee _ rfl
      refine bind (list (fun y hy => ih _ _ _ (hin.2 y hy)) [] henv) ?_
      rintro args _ rfl
      exact call hbodies callee args hpos (A.stray hx)
  | index pos target index =>
      simp only [partsInside, Part.children, List.map_cons, List.forall_mem_cons] at hin
      refine bind (ih _ _ _ hin.1 env henv) ?_
      rintro target _ rfl
      refine bind (ih _ _ _ hin.2.1 env henv) ?_
      rintro index _ rfl
      exact lookup hpos (fun store => .readIndex store target index)
        fun _ _ hs => readIndex_shifted hs target index
  | prop pos target name =>
      simp only [partsInside, Part.children, List.map_cons, List.forall_mem_cons] at hin
      refine bind (ih _ _ _ hin.1 env henv) ?_
      rintro target _ rfl
      exact lookup hpos (fun store => .readProperty store target name)
        fun _ _ hs => readProperty_shifted hs target name
  | binary pos op left right =>
      simp only [partsInside, Part.children, List.map_cons, List.forall_mem_cons] at hin
      exact binary op (ih _ _ _ hin.1) (ih _ _ _ hin.2.1) hpos (A.fault hin.1) (A.fault hin.2.1) henv
  | unary pos op operand =>
      simp only [partsInside, Part.children, List.map_cons, List.forall_mem_cons] at hin
      exact unary op (ih _ _ _ hin.1) (A.fault hin.1) henv
  | cond pos arms otherwise =>
      simp only [partsInside, Part.children, Part.ofStmts, List.map_append, List.forall_mem_append,
        List.forall_mem_map, List.mem_flatMap] at hin
      refine conditional (fun arm harm => ?_) (fun y hy => ih _ _ _ (hin.2 y hy)) henv
      have hcond := hin.1 (.expr arm.1) ⟨arm, harm, List.mem_cons_self⟩
      exact ⟨ih _ _ _ hcond, A.fault hcond, fun y hy => ih _ _ _ (hin.1 (.stmt y)
        ⟨arm, harm, List.mem_cons_of_mem _ (List.mem_map_of_mem hy)⟩)⟩

theorem write {target : Expr}
    (htarget : ∀ c ∈ (Program.Part.expr target).children, A.Allowed n calls looped c)
    (hpos : A.Faulty target.pos)
    (hplace : target.isPlace = false → A.Stops (.fault ⟨.notAPlace, target.pos⟩))
    (value : Value) (henv : A.Scope env) :
    A.Keeps (A.Flows looped) (fun _ _ => True) (e.write target value env calls)
      (e.write target (A.shift.value value) (A.shift.env env) calls) := by
  cases target with
  | ident pos name =>
      exact update hpos (fun store => .writeName store env name value)
        (fun _ _ hs => writeName_shifted hs env name value) fun _ _ hp hedit => A.assign hp henv hedit
  | index pos container index =>
      simp only [Part.children, List.forall_mem_cons] at htarget
      refine bind (ih _ _ _ htarget.1 env henv) ?_
      rintro container _ rfl
      refine bind (ih _ _ _ htarget.2.1 env henv) ?_
      rintro index _ rfl
      refine update_heap hpos (fun store => .writeIndex store container index value)
        (fun _ _ hs => writeIndex_shifted hs container index value) fun store edit hedit => ?_
      exact frames_writeIndex hedit
  | prop pos container name =>
      simp only [Part.children, List.forall_mem_cons] at htarget
      refine bind (ih _ _ _ htarget.1 env henv) ?_
      rintro container _ rfl
      refine update_heap hpos (fun _ => .writeProperty container name value)
        (fun _ _ _ => writeProperty_value A.shift container name value) fun store edit hedit => ?_
      exact frames_writeProperty hedit
  | _ => exact raise (hplace rfl)

theorem assignTo {target : Expr} (htarget : A.Allowed n calls looped (.expr target))
    (hparts : ∀ c ∈ (Program.Part.expr target).children, A.Allowed n calls looped c)
    (hplace : target.isPlace = false → A.Stops (.fault ⟨.notAPlace, target.pos⟩))
    (op : AssignOp) (value : Value) (henv : A.Scope env) :
    A.Keeps (A.Flows looped) (fun _ _ => True) (e.assign target op value env calls)
      (e.assign target op (A.shift.value value) (A.shift.env env) calls) := by
  have hpos : A.Faulty target.pos := A.fault htarget
  cases op with
  | set => exact write ih hparts hpos hplace value henv
  | _ =>
      refine bind (ih _ _ _ htarget env henv) ?_
      rintro current _ rfl
      refine bind (settle hpos (.combine _ current value) (combine_value A.shift _ current value)) ?_
      rintro value _ rfl
      exact write ih hparts hpos hplace value henv

/-- A statement that is allowed keeps an accord if all that is allowed inside does. -/
theorem onStmt {x : Stmt} (hx : A.Allowed (n + 1) calls looped (.stmt x)) (henv : A.Scope env) :
    A.Keeps J (A.Flows looped) (e.onStmt s x env calls)
      (e.onStmt s x (A.shift.env env) calls) := by
  have hpos : A.Faulty x.pos := A.fault hx
  have hin := A.inside hx
  refine land (T := A.Flows looped) (bind (step hpos) fun _ _ _ => ?_)
  cases x with
  | metadata => exact pure (.next none)
  | leave pos => exact pure (.leave (A.leave hx))
  | again pos => exact pure (.again (A.again hx))
  | define pos name isMutable value =>
      simp only [partsInside, Discipline.evaluated, Part.children, List.map_cons,
        List.forall_mem_cons] at hin
      refine bind (ih _ _ _ hin.1 env henv) ?_
      rintro value _ rfl
      refine bind (update hpos (fun store => .defineName store env name ⟨value, isMutable⟩)
        (fun _ _ hs => defineName_shifted hs env name ⟨value, isMutable⟩)
        fun _ _ hp hedit => A.define hp henv hedit) ?_
      exact fun _ _ _ => pure (.next none)
  | assign pos target op value =>
      simp only [partsInside, Discipline.evaluated, List.cons_append, List.nil_append,
        List.map_cons, List.forall_mem_cons, List.forall_mem_map] at hin
      refine bind (ih _ _ _ hin.2.1 env henv) ?_
      rintro value _ rfl
      refine bind (assignTo ih hin.1 hin.2.2 (A.misplaced hx) op value henv) ?_
      exact fun _ _ _ => pure (.next none)
  | out pos value =>
      simp only [partsInside, Discipline.evaluated, Part.children, List.map_cons,
        List.forall_mem_cons] at hin
      refine bind (ih _ _ _ hin.1 env henv) ?_
      rintro value _ rfl
      exact bind (emit value) fun _ _ _ => pure (.next none)
  | back pos value =>
      cases value with
      | none => exact pure (.back .null)
      | some value =>
          refine bind (ih _ _ _ (hin _ List.mem_cons_self) env henv) ?_
          rintro value _ rfl
          exact pure (.back value)
  | loop pos body =>
      simp only [partsInside, List.forall_mem_map] at hin
      exact loop (fun y hy => ih _ _ _ (hin y hy)) hpos (A.endless hx) env _
  | each pos var items body =>
      simp only [partsInside, List.forall_mem_cons, List.forall_mem_map] at hin
      refine bind (ih _ _ _ hin.1 env henv) ?_
      rintro value _ rfl
      cases value with
      | arr id =>
          refine bind (R := Maps (Array.map A.shift.value)) (look fun _ _ _ hs => hs.items id) ?_
          rintro items _ rfl
          rw [Array.toList_map]
          exact each (fun y hy => ih _ _ _ (hin.2 y hy)) var hpos env items.toList
      | _ => exact raise (A.fault hin.1 _ rfl)
  | count pos var times body =>
      simp only [partsInside, List.forall_mem_cons, List.forall_mem_map] at hin
      refine bind (ih _ _ _ hin.1 env henv) ?_
      rintro value _ rfl
      refine bind (settle_same (A.fault hin.1) (.asNumber value) (asNumber_value _ value)) ?_
      rintro x _ rfl
      exact count (fun y hy => ih _ _ _ (hin.2 y hy)) var hpos env _ 0
  | eval pos value =>
      simp only [partsInside, Discipline.evaluated, Part.children, List.map_cons,
        List.forall_mem_cons] at hin
      refine bind (ih _ _ _ hin.1 env henv) ?_
      rintro value _ rfl
      exact pure (.next (some value))

end Parts

/-! ## The evaluator -/

/-- What is allowed keeps an accord. -/
theorem within (A : Accord s) (n : Nat) (calls : Nat) (looped : Bool) (c : Program.Part)
    (hc : A.Allowed n calls looped c) : A.Part ⟨runWithin s n, evalWithin s n⟩ calls looped c := by
  induction n generalizing calls looped c with
  | zero =>
      have hends := A.exhausted hc
      cases c with
      | stmt x => exact fun _ _ _ => throw (.exhausted hends)
      | expr x => exact fun _ _ => throw (.exhausted hends)
  | succ n ih =>
      cases c with
      | stmt x => exact fun _ _ henv => onStmt ih hc henv
      | expr x =>
          refine fun _ henv => onExpr ih hc ?_ henv
          intro store id params body env hp hid hcalls y hy
          exact ih _ _ _ (A.known hp hid hc hcalls y hy)

/-- A program keeps an accord whose statements are allowed. -/
theorem program (A : Accord s) (n : Nat) {program : List Stmt}
    (h : ∀ x ∈ program, A.Allowed n 0 false (.stmt x)) (last : Option Value) {env : Env}
    (henv : A.Scope env) :
    A.Keeps J (Maps (Option.map A.shift.value)) (runProgram s n env last program)
      (runProgram s n (A.shift.env env) (last.map A.shift.value) program) := by
  induction program generalizing last with
  | nil => exact bind check fun _ _ _ => pure rfl
  | cons x rest ih =>
      have hx := h x List.mem_cons_self
      refine bind (A.within n 0 false (.stmt x) hx J env henv) fun flow flow' hflow => ?_
      cases hflow with
      | next value => exact ih (fun y hy => h y (List.mem_cons_of_mem _ hy)) value
      | back value => exact bind check fun _ _ _ => pure rfl
      | leave hc => exact raise (A.stray hx hc)
      | again hc => exact raise (A.stray hx hc)

end Accord

end ScriptLab.Machine
