import ScriptLab.Machine.Eval
import ScriptLab.Machine.Operation

/-!
# Evaluation

Statements and expressions are evaluated over evaluators for the statements and expressions inside
them. Tied together with a bound on how many evaluations may be open at once, they give a total
evaluator; running into the bound is reported apart from everything else.
-/

namespace ScriptLab.Machine

open Program
open Text (Pos)

variable {ω : Type}

/-- The result of an operation, with a fault at the given place. -/
def settle {α : Type} (pos : Pos) : Except Cause α → Eval ω α
  | .ok a => pure a
  | .error cause => raise cause pos

/-- Applies an operation that only reads. -/
def lookup {α : Type} (pos : Pos) (f : Store → Except Cause α) : Eval ω α := do
  settle pos (← look f)

/-- Makes the change that an operation finds. -/
def update (pos : Pos) (f : Store → Except Cause Store.Edit) : Eval ω Unit := do
  let edit ← lookup pos f
  change (·.edit edit)

/-- Loop control and returns that leave a conditional end the statement around it. -/
def land (action : Eval ω Flow) : Eval ω Flow :=
  fun p =>
    match action p with
    | .error (.jump flow) p => .ok flow p
    | result => result

/-- The scopes inside a new one with the given bindings. -/
def inner (bindings : Frame) (env : Env) : Eval ω Env := do
  let frame ← create (·.newFrame bindings)
  return ⟨frame, env.frames⟩

/-- Evaluators for the parts of a statement or an expression. The number is that of the calls that
are open. -/
structure Evaluators (ω : Type) where
  stmt : Stmt → Env → Nat → Eval ω Flow
  expr : Expr → Env → Nat → Eval ω Value

/-! ## Provided functions -/

/-- The greatest number of milliseconds that can be slept at once. -/
def maxMillis : Int := UInt64.size - 1

/-- The whole numbers from one to another, both included, in either direction. -/
def rangeItems (first last : Int) : Except Cause (Array Value) :=
  let distance := (last - first).natAbs
  if maxRangeLength ≤ distance then .error .rangeTooLong
  else
    let direction : Int := if first ≤ last then 1 else -1
    .ok ((Array.range (distance + 1)).map fun (i : Nat) =>
      .num (Number.ofInt (first + direction * i)))

/-- The floor of a double among the integers of 64 bits. -/
def rangeEnd (x : Float) : Int :=
  Number.clampedFloor (-9223372036854775808) 9223372036854775807 x

/-- Calls a provided function. -/
def callBuiltin (s : Setting ω) (function : Builtin) (args : List Value) (pos : Pos) :
    Eval ω Value := do
  let first := args.headD .null
  let second := args.tail.headD .null
  match function with
  | .print =>
    s.emit first
    return .null
  | .typeOf => return .str first.type.text
  | .toText => return .str (← look (·.text first))
  | .sleep =>
    let x ← settle pos (asNumber first)
    s.sleep (Number.clampedFloor 0 maxMillis x).toNat
    return .null
  | .abort =>
    let message ← look (·.text first)
    raise (.raised message) pos
  | .range =>
    let x ← settle pos (asNumber first)
    let y ← settle pos (asNumber second)
    let items ← settle pos (rangeItems (rangeEnd x) (rangeEnd y))
    create (·.newArray items)
  | .floor => return .num (Number.floor (← settle pos (asNumber first)))
  | .abs => return .num (← settle pos (asNumber first)).abs
  | .push =>
    match first with
    | .arr id =>
      change (·.pushItem id second)
      return first
    | v => raise (.mismatch .arr v.type) pos

namespace Evaluators

variable (s : Setting ω) (e : Evaluators ω)

/-! ## Blocks and loops -/

/-- Runs statements one after the other. A block has the value of its last statement, if that is an
expression. -/
def statements (env : Env) (calls : Nat) : Option Value → List Stmt → Eval ω Flow
  | last, [] => return .next (some (last.getD .null))
  | _, stmt :: rest => do
    match ← e.stmt stmt env calls with
    | .next value => statements env calls value rest
    | flow => return flow

/-- Runs a block in a new scope with the given bindings. -/
def block (bindings : Frame) (body : List Stmt) (env : Env) (calls : Nat) : Eval ω Flow := do
  let env ← inner bindings env
  e.statements env calls none body

/-- Runs the body of an endless loop, with a step behind each round. -/
def loop (body : List Stmt) (pos : Pos) (env : Env) (calls : Nat) : Nat → Eval ω Flow
  | 0 => throw .exhausted
  | n + 1 => do
    match ← e.block [] body env calls with
    | .leave => return .next none
    | .back value => return .back value
    | _ =>
      s.step pos
      loop body pos env calls n

/-- Runs the body of a loop for each of some items, with a step before each round. -/
def each (var : String) (body : List Stmt) (pos : Pos) (env : Env) (calls : Nat) :
    List Value → Eval ω Flow
  | [] => return .next none
  | item :: rest => do
    s.step pos
    match ← e.block [(var, ⟨item, false⟩)] body env calls with
    | .leave => return .next none
    | .back value => return .back value
    | _ => each var body pos env calls rest

/-- Runs the body of a loop a number of times, counting up, with a step before each round. -/
def count (var : String) (body : List Stmt) (pos : Pos) (env : Env) (calls : Nat) :
    Nat → Nat → Eval ω Flow
  | 0, _ => return .next none
  | n + 1, i => do
    s.step pos
    match ← e.block [(var, ⟨.num (Number.ofNat i), false⟩)] body env calls with
    | .leave => return .next none
    | .back value => return .back value
    | _ => count var body pos env calls n (i + 1)

/-! ## Expressions -/

/-- Evaluates expressions from left to right. -/
def list (env : Env) (calls : Nat) : List Value → List Expr → Eval ω (List Value)
  | values, [] => return values.reverse
  | values, expr :: rest => do
    let value ← e.expr expr env calls
    list env calls (value :: values) rest

/-- Evaluates the entries of an object. A repeated key keeps its first place and its last value. -/
def entries (env : Env) (calls : Nat) :
    Entries String Value → List (String × Expr) → Eval ω (Entries String Value)
  | made, [] => return made
  | made, (key, expr) :: rest => do
    let value ← e.expr expr env calls
    entries env calls (made.put key value) rest

/-- Evaluates an expression that must be a truth value. -/
def condition (expr : Expr) (env : Env) (calls : Nat) : Eval ω Bool := do
  let value ← e.expr expr env calls
  settle expr.pos (asBool value)

/-- Runs the chosen body of a conditional. What does not fall through leaves the statement around. -/
def branch (body : List Stmt) (env : Env) (calls : Nat) : Eval ω Value := do
  match ← e.block [] body env calls with
  | .next value => return value.getD .null
  | flow => throw (.jump flow)

/-- Runs the body of the first arm whose condition holds, or the last body. -/
def conditional (otherwise : Option (List Stmt)) (env : Env) (calls : Nat) :
    List (Expr × List Stmt) → Eval ω Value
  | [] =>
    match otherwise with
    | some body => e.branch body env calls
    | none => return .null
  | (cond, body) :: rest => do
    if ← e.condition cond env calls then e.branch body env calls
    else conditional otherwise env calls rest

/-- Calls a function of a program. -/
def closure (params : List String) (body : List Stmt) (env : Env) (args : List Value) (pos : Pos)
    (calls : Nat) : Eval ω Value := do
  if s.limits.maxCalls ≤ calls then raise .callsExceeded pos
  let frame ← settle pos (bindParams [] params args)
  match ← e.block frame body env (calls + 1) with
  | .next value => return value.getD .null
  | .back value => return value
  | _ => raise .strayLoopControl pos

/-- Calls a value with arguments. -/
def call (callee : Value) (args : List Value) (pos : Pos) (calls : Nat) : Eval ω Value := do
  match callee with
  | .fn id =>
    match ← look (·.callables[id]?) with
    | some (.closure params body env) => e.closure s params body env args pos calls
    | some (.builtin function) => callBuiltin s function args pos
    | none => raise (.mismatch .fn .fn) pos
  | v => raise (.mismatch .fn v.type) pos

/-- Evaluates an expression. -/
def onExpr (expr : Expr) (env : Env) (calls : Nat) : Eval ω Value := do
  match expr with
  | .null _ => return .null
  | .bool _ b => return .bool b
  | .num _ x => return .num x
  | .str _ t => return .str t
  | .arr _ items =>
    let values ← e.list env calls [] items
    create (·.newArray values.toArray)
  | .obj _ entries =>
    let values ← e.entries env calls [] entries
    create (·.newObject values)
  | .ident pos name => lookup pos (readName · env name)
  | .fn _ params body => create (·.newCallable (.closure params body env))
  | .call pos callee args =>
    let callee ← e.expr callee env calls
    let args ← e.list env calls [] args
    e.call s callee args pos calls
  | .index pos target index =>
    let target ← e.expr target env calls
    let index ← e.expr index env calls
    lookup pos (readIndex · target index)
  | .prop pos target name =>
    let target ← e.expr target env calls
    lookup pos (readProperty · target name)
  | .binary _ .and left right =>
    if ← e.condition left env calls then return .bool (← e.condition right env calls)
    else return .bool false
  | .binary _ .or left right =>
    if ← e.condition left env calls then return .bool true
    else return .bool (← e.condition right env calls)
  | .binary pos op left right =>
    let left ← e.expr left env calls
    let right ← e.expr right env calls
    settle pos (combine op left right)
  | .unary _ .not operand => return .bool !(← e.condition operand env calls)
  | .unary _ .neg operand =>
    let value ← e.expr operand env calls
    return .num (-(← settle operand.pos (asNumber value)))
  | .cond _ arms otherwise => e.conditional otherwise env calls arms

/-! ## Statements -/

/-- Writes a value to a place. The parts of the place are evaluated anew. -/
def write (target : Expr) (value : Value) (env : Env) (calls : Nat) : Eval ω Unit := do
  match target with
  | .ident pos name => update pos (writeName · env name value)
  | .index pos container index =>
    let container ← e.expr container env calls
    let index ← e.expr index env calls
    update pos (writeIndex · container index value)
  | .prop pos container name =>
    let container ← e.expr container env calls
    update pos fun _ => writeProperty container name value
  | target => raise .notAPlace target.pos

/-- Assigns a value to a place. A compound assignment reads the place first. -/
def assign (target : Expr) (op : AssignOp) (value : Value) (env : Env) (calls : Nat) :
    Eval ω Unit := do
  match assignOperator op with
  | none => e.write target value env calls
  | some op =>
    let current ← e.expr target env calls
    let value ← settle target.pos (combine op current value)
    e.write target value env calls

/-- The number of rounds of a counted loop. -/
def rounds (x : Float) : Nat :=
  (Number.clampedFloor 0 (UInt64.size - 1) x).toNat

/-- Runs a statement, behind its step. -/
def perform (stmt : Stmt) (env : Env) (calls : Nat) : Eval ω Flow := do
  match stmt with
  | .metadata .. => return .next none
  | .define pos name mutable value =>
    let value ← e.expr value env calls
    update pos (defineName · env name ⟨value, mutable⟩)
    return .next none
  | .assign _ target op value =>
    let value ← e.expr value env calls
    e.assign target op value env calls
    return .next none
  | .out _ value =>
    s.emit (← e.expr value env calls)
    return .next none
  | .back _ (some value) => return .back (← e.expr value env calls)
  | .back _ none => return .back .null
  | .leave _ => return .leave
  | .again _ => return .again
  | .loop pos body => e.loop s body pos env calls s.rounds
  | .each pos var items body =>
    match ← e.expr items env calls with
    | .arr id =>
      let items ← look (·.items id)
      e.each s var body pos env calls items.toList
    | v => raise (.mismatch .arr v.type) items.pos
  | .count pos var times body =>
    let value ← e.expr times env calls
    let x ← settle times.pos (asNumber value)
    e.count s var body pos env calls (rounds x) 0
  | .eval _ value => return .next (some (← e.expr value env calls))

/-- Runs a statement: a step, then what the statement says. -/
def onStmt (stmt : Stmt) (env : Env) (calls : Nat) : Eval ω Flow :=
  land do
    s.step stmt.pos
    e.perform s stmt env calls

end Evaluators

/-! ## The evaluator -/

mutual

/-- Runs a statement with at most the given number of evaluations open. -/
def runWithin (s : Setting ω) : Nat → Stmt → Env → Nat → Eval ω Flow
  | 0, _, _, _ => throw .exhausted
  | n + 1, stmt, env, calls =>
    Evaluators.onStmt s ⟨runWithin s n, evalWithin s n⟩ stmt env calls

/-- Evaluates an expression with at most the given number of evaluations open. -/
def evalWithin (s : Setting ω) : Nat → Expr → Env → Nat → Eval ω Value
  | 0, _, _, _ => throw .exhausted
  | n + 1, expr, env, calls =>
    Evaluators.onExpr s ⟨runWithin s n, evalWithin s n⟩ expr env calls

end

end ScriptLab.Machine
