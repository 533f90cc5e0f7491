import ScriptLab.Proofs.Machine.Jumps
import ScriptLab.Proofs.Machine.OpenEvaluations

/-!
# Compound assignment

A compound assignment to an element locates the element twice: first to read it, and then once more to
write it, in the state that the first time has left. Where locating it changes nothing, that is the same
as locating it once.
-/

namespace ScriptLab.Machine

open Program
open Text (Pos)

variable {ω : Type} {α β : Type}

theorem lookup_ok_iff {pos : Pos} {f : Store → Except Cause α} {a : α} {p q : Progress ω} :
    lookup pos f p = .ok a q ↔ f p.store = .ok a ∧ p = q := by
  rw [lookup_apply]
  cases f p.store <;> simp

theorem update_ok_iff {pos : Pos} {f : Store → Except Cause Store.Edit} {p q : Progress ω} :
    update pos f p = .ok () q ↔
      ∃ edit, f p.store = .ok edit ∧ q = { p with store := p.store.edit edit } := by
  rw [update_apply]
  cases f p.store <;> simp [eq_comm]

/-! ## Elements -/

/-- An element inside a value: a container with an index, or with the name of a property. -/
inductive Element where
  | index (container index : Value)
  | prop (container : Value) (name : String)

namespace Element

/-- What an element holds. -/
def read (element : Element) (store : Store) : Except Cause Value :=
  match element with
  | .index container position => readIndex store container position
  | .prop container name => readProperty store container name

/-- The change that writes an element. -/
def write (element : Element) (value : Value) (store : Store) : Except Cause Store.Edit :=
  match element with
  | .index container position => writeIndex store container position value
  | .prop container name => writeProperty container name value

end Element

/-- The expressions that denote elements. -/
inductive IsElement : Expr → Prop
  | index (pos : Pos) (container index : Expr) : IsElement (.index pos container index)
  | prop (pos : Pos) (container : Expr) (name : String) : IsElement (.prop pos container name)

namespace Evaluators

variable (e : Evaluators ω)

/-- Evaluates the container and the index of an element. -/
def locate (target : Expr) (env : Env) (calls : Nat) : Eval ω Element := do
  match target with
  | .index _ container index =>
    let container ← e.expr container env calls
    let index ← e.expr index env calls
    return .index container index
  | .prop _ container name =>
    let container ← e.expr container env calls
    return .prop container name
  | target => raise .notAPlace target.pos

/-- Combines an element with a value. It is located once. -/
def updateOnce (op : BinaryOp) (target : Expr) (value : Value) (env : Env) (calls : Nat) :
    Eval ω Unit := do
  let element ← e.locate target env calls
  let current ← lookup target.pos element.read
  let result ← settle target.pos (combine op current value)
  update target.pos (element.write result)

/-- Combines an element with a value. It is located to be read, and located anew to be written. -/
def updateTwice (op : BinaryOp) (target : Expr) (value : Value) (env : Env) (calls : Nat) :
    Eval ω Unit := do
  let element ← e.locate target env calls
  let current ← lookup target.pos element.read
  let result ← settle target.pos (combine op current value)
  let element ← e.locate target env calls
  update target.pos (element.write result)

variable {e} {s : Setting ω}

theorem Unbounded.expr_eq (he : e.Unbounded s) (x : Expr) (env : Env) (calls : Nat) :
    e.expr x env calls = e.onExpr s x env calls :=
  congrFun (congrFun (congrFun (congrArg Evaluators.expr he.symm) x) env) calls

theorem Unbounded.stmt_eq (he : e.Unbounded s) (x : Stmt) (env : Env) (calls : Nat) :
    e.stmt x env calls = e.onStmt s x env calls :=
  congrFun (congrFun (congrFun (congrArg Evaluators.stmt he.symm) x) env) calls

/-- An element is read where it is located. -/
theorem expr_element (he : e.Unbounded s) {target : Expr} (htarget : IsElement target) (env : Env)
    (calls : Nat) :
    e.expr target env calls = (do
      let element ← e.locate target env calls
      lookup target.pos element.read) := by
  rw [he.expr_eq]
  cases htarget with
  | index pos container index =>
    simp only [onExpr, locate, bind_assoc, pure_bind]
    rfl
  | prop pos container name =>
    simp only [onExpr, locate, bind_assoc, pure_bind]
    rfl

/-- An element is written where it is located. -/
theorem write_element {target : Expr} (htarget : IsElement target) (value : Value) (env : Env)
    (calls : Nat) :
    e.write target value env calls = (do
      let element ← e.locate target env calls
      update target.pos (element.write value)) := by
  cases htarget with
  | index pos container index =>
    simp only [write, locate, bind_assoc, pure_bind]
    rfl
  | prop pos container name =>
    simp only [write, locate, bind_assoc, pure_bind]
    rfl

theorem assign_eq (he : e.Unbounded s) {op : AssignOp} {operator : BinaryOp}
    (hop : assignOperator op = some operator) {target : Expr} (htarget : IsElement target)
    (value : Value) (env : Env) (calls : Nat) :
    e.assign target op value env calls = e.updateTwice operator target value env calls := by
  unfold assign updateTwice
  simp only [hop, expr_element he htarget, write_element htarget, bind_assoc]

/-- A compound assignment that succeeds has located its target twice, one time after the other. -/
theorem updateTwice_ok_iff {op : BinaryOp} {target : Expr} {value : Value} {env : Env} {calls : Nat}
    {p q : Progress ω} :
    e.updateTwice op target value env calls p = .ok () q ↔
      ∃ element p₁ current result element' p₂ edit,
        e.locate target env calls p = .ok element p₁ ∧ element.read p₁.store = .ok current ∧
        combine op current value = .ok result ∧ e.locate target env calls p₁ = .ok element' p₂ ∧
        element'.write result p₂.store = .ok edit ∧
        q = { p₂ with store := p₂.store.edit edit } := by
  unfold updateTwice
  simp only [ok_bind_iff, lookup_ok_iff, settle_ok_iff, update_ok_iff]
  constructor
  · rintro ⟨element, p₁, hfirst, current, _, ⟨hread, rfl⟩, result, _, ⟨hcombine, rfl⟩, element', p₂,
      hsecond, edit, hwrite, rfl⟩
    exact ⟨element, _, current, result, element', p₂, edit, hfirst, hread, hcombine, hsecond, hwrite,
      rfl⟩
  · rintro ⟨element, p₁, current, result, element', p₂, edit, hfirst, hread, hcombine, hsecond, hwrite,
      rfl⟩
    exact ⟨element, p₁, hfirst, current, p₁, ⟨hread, rfl⟩, result, p₁, ⟨hcombine, rfl⟩, element', p₂,
      hsecond, edit, hwrite, rfl⟩

/-! ## Targets whose evaluation changes nothing -/

/-- Expressions made of names, constants, operators and elements of values. -/
inductive Steady : Expr → Prop
  | null (pos : Pos) : Steady (.null pos)
  | bool (pos : Pos) (b : Bool) : Steady (.bool pos b)
  | num (pos : Pos) (x : Float) : Steady (.num pos x)
  | str (pos : Pos) (text : String) : Steady (.str pos text)
  | ident (pos : Pos) (name : String) : Steady (.ident pos name)
  | index {target index} (pos : Pos) (h : Steady target) (h' : Steady index) :
      Steady (.index pos target index)
  | prop {target} (pos : Pos) (name : String) (h : Steady target) : Steady (.prop pos target name)
  | binary {left right} (pos : Pos) (op : BinaryOp) (h : Steady left) (h' : Steady right) :
      Steady (.binary pos op left right)
  | unary {operand} (pos : Pos) (op : UnaryOp) (h : Steady operand) :
      Steady (.unary pos op operand)

end Evaluators

/-- Actions that leave the state as it is, whether they succeed or not. -/
def Inert (m : Eval ω α) : Prop :=
  ∀ p, lastState (m p) = p

namespace Inert

theorem pure (a : α) : Inert (Pure.pure a : Eval ω α) :=
  fun _ => rfl

theorem settle (pos : Pos) (result : Except Cause α) : Inert (Machine.settle pos result : Eval ω α) := by
  intro p
  cases result <;> rfl

theorem lookup (pos : Pos) (f : Store → Except Cause α) :
    Inert (Machine.lookup pos f : Eval ω α) := by
  intro p
  rw [lookup_apply]
  cases f p.store <;> rfl

theorem bind {m : Eval ω α} {f : α → Eval ω β} (hm : Inert m) (hf : ∀ a, Inert (f a)) :
    Inert (m >>= f) := by
  intro p
  have hp := hm p
  rw [bind_apply]
  cases hr : m p with
  | ok a q =>
    rw [hr] at hp
    cases hp
    exact hf a _
  | error halt q =>
    rw [hr] at hp
    exact hp

/-- An action that succeeds does so in the state in which it started. -/
theorem eq_of_ok {m : Eval ω α} (hm : Inert m) {p q : Progress ω} {a : α} (h : m p = .ok a q) :
    q = p := by
  have hp := hm p
  rw [h] at hp
  exact hp

end Inert

namespace Evaluators

variable {e : Evaluators ω} {s : Setting ω}

theorem Inert.condition {x : Expr} {env : Env} {calls : Nat} (h : Inert (e.expr x env calls)) :
    Inert (e.condition x env calls) :=
  h.bind fun _ => .settle _ _

/-- Evaluating a steady expression changes nothing. -/
theorem Steady.inert (he : e.Unbounded s) {x : Expr} (h : Steady x) (env : Env) (calls : Nat) :
    Inert (e.expr x env calls) := by
  induction h with
  | null | bool | num | str =>
    rw [he.expr_eq]
    exact .pure _
  | ident =>
    rw [he.expr_eq]
    exact .lookup _ _
  | index pos _ _ ih ih' =>
    rw [he.expr_eq]
    exact ih.bind fun _ => ih'.bind fun _ => .lookup _ _
  | prop pos name _ ih =>
    rw [he.expr_eq]
    exact ih.bind fun _ => .lookup _ _
  | binary pos op _ _ ih ih' =>
    rw [he.expr_eq]
    cases op with
    | and =>
      apply (Inert.condition ih).bind
      intro b
      cases b with
      | false => exact .pure _
      | true => exact (Inert.condition ih').bind fun _ => .pure _
    | or =>
      apply (Inert.condition ih).bind
      intro b
      cases b with
      | false => exact (Inert.condition ih').bind fun _ => .pure _
      | true => exact .pure _
    | eq | ne | add | sub | mul | div | rem | lt | le | gt | ge =>
      exact ih.bind fun _ => ih'.bind fun _ => .settle _ _
  | unary pos op _ ih =>
    rw [he.expr_eq]
    cases op with
    | not => exact (Inert.condition ih).bind fun _ => .pure _
    | neg => exact ih.bind fun _ => (Inert.settle _ _).bind fun _ => .pure _

theorem Steady.locate_inert (he : e.Unbounded s) {target : Expr} (h : Steady target)
    (htarget : IsElement target) (env : Env) (calls : Nat) : Inert (e.locate target env calls) := by
  cases h with
  | index pos h h' =>
    exact (h.inert he env calls).bind fun _ => (h'.inert he env calls).bind fun _ => .pure _
  | prop pos name h => exact (h.inert he env calls).bind fun _ => .pure _
  | null | bool | num | str | ident | binary | unary => cases htarget

/-- Where locating an element changes nothing, it makes no difference how often it is located. -/
theorem updateTwice_of_inert {target : Expr} {env : Env} {calls : Nat}
    (h : Inert (e.locate target env calls)) (op : BinaryOp) (value : Value) :
    e.updateTwice op target value env calls = e.updateOnce op target value env calls := by
  funext p
  unfold updateTwice updateOnce
  cases hlocate : e.locate target env calls p with
  | error halt q => rw [bind_of_error hlocate, bind_of_error hlocate]
  | ok element q =>
    have hq := h.eq_of_ok hlocate
    subst hq
    rw [bind_of_ok hlocate, bind_of_ok hlocate]
    cases hread : element.read q.store with
    | error cause =>
      have hlookup : lookup target.pos element.read q = .error (.fault ⟨cause, target.pos⟩) q := by
        rw [lookup_apply, hread]
      rw [bind_of_error hlookup, bind_of_error hlookup]
    | ok current =>
      have hlookup : lookup target.pos element.read q = .ok current q :=
        lookup_ok_iff.2 ⟨hread, rfl⟩
      rw [bind_of_ok hlookup, bind_of_ok hlookup]
      cases combine op current value with
      | error cause => rfl
      | ok result => exact bind_of_ok hlocate _

end Evaluators

/-! ## Compound assignments of programs -/

namespace Interpreter

open Evaluators (Steady)

/-- A compound assignment to an element takes its step and evaluates its value, and then it locates the
element, reads it, combines it, locates the element anew from where the first time has led, and writes
the element that it then finds. For a steady target that is the same as locating the element once, which
changes nothing. The evaluators meant are those that make the runs of programs. -/
theorem compound_locates_twice (i : Interpreter) (interruption : Option Interruption)
    (record : Store → Value → ω) {e : Evaluators ω}
    (he : e.Unbounded (i.setting interruption record)) :
    (∀ store code program, Reached store → parse .modern code = .ok program →
      i.run interruption record store program = i.runOver e store program) ∧
    ∀ op operator target, assignOperator op = some operator → IsElement target →
      ∀ pos value env calls,
        e.stmt (.assign pos target op value) env calls =
          land (do
            (i.setting interruption record).step pos
            let v ← e.expr value env calls
            e.updateTwice operator target v env calls
            return .next none) ∧
        (∀ v p q, e.updateTwice operator target v env calls p = .ok () q ↔
          ∃ element p₁ current result element' p₂ edit,
            e.locate target env calls p = .ok element p₁ ∧
            element.read p₁.store = .ok current ∧ combine operator current v = .ok result ∧
            e.locate target env calls p₁ = .ok element' p₂ ∧
            element'.write result p₂.store = .ok edit ∧
            q = { p₂ with store := p₂.store.edit edit }) ∧
        (Steady target →
          (∀ p element q, e.locate target env calls p = .ok element q → q = p) ∧
          ∀ v, e.updateTwice operator target v env calls =
            e.updateOnce operator target v env calls) := by
  refine ⟨?_, ?_⟩
  · intro store code program hstore hparse
    rw [i.run_eq_runOver, i.runOver_unbounded hstore.fits hparse he]
    rfl
  · intro op operator target hop htarget pos value env calls
    refine ⟨?_, fun v p q => Evaluators.updateTwice_ok_iff, fun hsteady => ?_⟩
    · rw [he.stmt_eq]
      simp only [Evaluators.onStmt, Evaluators.perform, Evaluators.assign_eq he hop htarget]
      rfl
    · have hinert := hsteady.locate_inert he htarget env calls
      exact ⟨fun p element q h => hinert.eq_of_ok h,
        fun v => Evaluators.updateTwice_of_inert hinert operator v⟩

/-- An object of which an entry is extended. -/
def extending : List Stmt :=
  [.define ⟨1, 1⟩ "o" true (.obj ⟨1, 9⟩ [("k", .str ⟨1, 14⟩ "x")]),
    .assign ⟨2, 1⟩ (.prop ⟨2, 1⟩ (.ident ⟨2, 1⟩ "o") "k") .add (.str ⟨2, 8⟩ "y"),
    .out ⟨3, 1⟩ (.prop ⟨3, 4⟩ (.ident ⟨3, 4⟩ "o") "k")]

theorem compound_locates_twice_extending :
    let made := create {} [] {}
    parse .modern "var o = \x7b k: \"x\" \x7d\no.k += \"y\"\n<: o.k" = .ok extending ∧
      ∃ e : Evaluators String, e.Unbounded (made.1.setting none Store.output) ∧
        (made.1.runOver e made.2 extending).outputs = ["\"xy\""] ∧
        ∀ env calls v, e.updateTwice .add (.prop ⟨2, 1⟩ (.ident ⟨2, 1⟩ "o") "k") v env calls =
          e.updateOnce .add (.prop ⟨2, 1⟩ (.ident ⟨2, 1⟩ "o") "k") v env calls := by
  intro made
  have hparse : parse .modern "var o = \x7b k: \"x\" \x7d\no.k += \"y\"\n<: o.k" =
      .ok extending := by
    decide +kernel
  have hfree := Evaluators.free_unbounded (made.1.setting none Store.output)
  obtain ⟨hrun, hassign⟩ := compound_locates_twice made.1 none Store.output hfree
  refine ⟨hparse, _, hfree, ?_, fun env calls v => ?_⟩
  · rw [← hrun made.2 _ _ (.create [] {} .empty) hparse]
    decide +kernel
  · exact ((hassign .add .add _ rfl (.prop ⟨2, 1⟩ (.ident ⟨2, 1⟩ "o") "k") ⟨2, 1⟩
      (.str ⟨2, 8⟩ "y") env calls).2.2 (.prop _ _ (.ident _ _))).2 v

/-- What a program gives out in a new interpreter. -/
def outputsOf (code : String) : Option (List String) :=
  let made := create {} [] {}
  (parse .modern code).toOption.map fun program =>
    (made.1.run none Store.output made.2 program).outputs

/-- A function in a target is called twice, where it is called once if the element is only read, and
the element that is written need not be the one that is read. -/
theorem compound_calls_twice :
    outputsOf "var a = [0]\n@f() \x7b <: \"f\"\n a \x7d\nf()[0] += 1" = some ["\"f\"", "\"f\""] ∧
    outputsOf "var a = [0]\n@f() \x7b <: \"f\"\n a \x7d\nf()[0]" = some ["\"f\""] ∧
    outputsOf ("var n = 0\nvar a = [\"x\"]\nvar b = [\"y\"]\n" ++
      "@f() \x7b n = n + 1\n if n == 1 \x7b a \x7d else \x7b b \x7d \x7d\n" ++
      "f()[0] += \"z\"\n<: a[0]\n<: b[0]") = some ["\"x\"", "\"xz\""] := by
  refine ⟨?_, ?_, ?_⟩ <;> decide +kernel

end Interpreter

end ScriptLab.Machine
