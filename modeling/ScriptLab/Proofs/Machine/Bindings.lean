import ScriptLab.Proofs.Machine.Moments
import ScriptLab.Proofs.Machine.Reuse

/-!
# Bindings that last

A binding that cannot be assigned to has one value from the moment at which it is made, and the global
scope of an interpreter is the same behind every run. An assignment changes the one binding that is
found under its name, and what is refused changes none.
-/

namespace ScriptLab.Machine

open Program
open Text (Pos)

variable {ω : Type}

/-! ## Global scopes -/

/-- Nothing is evaluated in a sealed scope. This is about a single run, so that nothing moves. -/
def sealing (s : Setting ω) (frame : Nat) {bindings : Frame} (himmutable : Immutable bindings) :
    Accord s where
  shift := .none
  Same _ _ := True
  Valid := Sealed frame bindings
  Scope env := env.frame ≠ frame
  Allowed _ _ _ _ := True
  Control _ := True
  Stops _ := True
  record _ _ := trivial
  heap h _ hframes := h.of_frames hframes
  newFrame added h := h.newFrame added
  scope _ h := Nat.ne_of_gt h.lt
  define h henv hedit := h.define henv hedit
  assign h _ hedit := h.assign himmutable hedit
  closure h _ := h.of_frames rfl
  known := by
    intros
    trivial
  inside _ _ _ := trivial
  leave _ := trivial
  again _ := trivial
  exhausted _ := trivial
  endless _ := trivial
  aborted := trivial
  crashed _ := trivial
  fault _ _ _ := trivial
  misplaced _ _ := trivial
  stray _ _ := trivial

theorem frames_builtinBindings (functions : List Builtin) (store : Store) :
    (builtinBindings functions store).2.frames = store.frames := by
  induction functions generalizing store with
  | nil => rfl
  | cons function rest ih => exact ih _

namespace Interpreter

/-- A run leaves every sealed scope of the store alone. -/
theorem sealed_run (i : Interpreter) {store : Store} {frame : Nat} {bindings : Frame}
    (h : Sealed frame bindings store) (himmutable : Immutable bindings)
    (interruption : Option Interruption) (record : Store → Value → ω) (program : List Stmt) :
    Sealed frame bindings (i.run interruption record store program).store := by
  rcases Bool.eq_false_or_eq_true i.aborted with ha | ha
  · rw [run_of_aborted ha]
    exact h
  · let A := sealing (i.setting interruption record) frame himmutable
    have hframe : (store.newFrame []).1 ≠ frame := Nat.ne_of_gt h.lt
    have hagree := A.program (J := fun _ _ => False) (budget i.limits)
      (fun x (_ : x ∈ program) => trivial) none
      (show A.Scope ⟨(store.newFrame []).1, [i.globals]⟩ from hframe)
      { store := (store.newFrame []).2 } { store := (store.newFrame []).2 }
      (h.newFrame []) ⟨_, [], .refl _, .nil, rfl⟩
    obtain ⟨-, last, hlast, hstore⟩ := hagree.conclude (store.newFrame []).1
    rw [run_eq_conclude ha]
    rcases hstore with hstore | hstore
    · exact hstore ▸ hlast
    · exact hstore ▸ hlast.clearFrame hframe

/-- The global scope of a new interpreter: the provided functions and the constants. -/
theorem sealed_create (store : Store) (consts : Entries String Value) (limits : Limits) :
    ∃ bindings, Immutable bindings ∧
      Sealed (create store consts limits).1.globals bindings (create store consts limits).2 :=
  ⟨_, immutable_consts (immutable_builtinBindings Builtin.all store) consts, Array.getElem?_push_size⟩

/-- A new interpreter leaves the scopes that exist alone. -/
theorem sealed_create_of {store : Store} {frame : Nat} {bindings : Frame}
    (h : Sealed frame bindings store) (consts : Entries String Value) (limits : Limits) :
    Sealed frame bindings (create store consts limits).2 :=
  (h.of_frames (frames_builtinBindings Builtin.all store)).newFrame _

end Interpreter

/-- The interpreters of a host, and the store that they share. The host makes and aborts interpreters
and runs programs on them, and between runs it may do what it likes with arrays, objects and functions. -/
inductive Shared : List Interpreter → Store → Prop
  | empty : Shared [] {}
  | host {is : List Interpreter} {store after : Store} (h : Shared is store)
      (hframes : after.frames = store.frames) : Shared is after
  | create {is : List Interpreter} {store : Store} (consts : Entries String Value) (limits : Limits)
      (h : Shared is store) :
      Shared ((Interpreter.create store consts limits).1 :: is)
        (Interpreter.create store consts limits).2
  | run {ω : Type} {is : List Interpreter} {store : Store} {i : Interpreter}
      (interruption : Option Interruption) (record : Store → Value → ω) (program : List Stmt)
      (h : Shared is store) (hi : i ∈ is) :
      Shared is (i.run interruption record store program).store
  | abort {is : List Interpreter} {store : Store} {i : Interpreter} (h : Shared is store)
      (hi : i ∈ is) : Shared (i.abort :: is) store

/-- The global scopes of all interpreters are sealed. -/
theorem Shared.globals {is : List Interpreter} {store : Store} (h : Shared is store) :
    ∀ i ∈ is, ∃ bindings, Immutable bindings ∧ Sealed i.globals bindings store := by
  induction h with
  | empty => exact fun _ hi => nomatch hi
  | host _ hframes ih =>
      intro i hi
      obtain ⟨bindings, himmutable, hsealed⟩ := ih i hi
      exact ⟨bindings, himmutable, hsealed.of_frames hframes⟩
  | create consts limits _ ih =>
      refine List.forall_mem_cons.2 ⟨Interpreter.sealed_create _ consts limits, fun i hi => ?_⟩
      obtain ⟨bindings, himmutable, hsealed⟩ := ih i hi
      exact ⟨bindings, himmutable, Interpreter.sealed_create_of hsealed consts limits⟩
  | run interruption record program _ _ ih =>
      intro i hi
      obtain ⟨bindings, himmutable, hsealed⟩ := ih i hi
      exact ⟨bindings, himmutable,
        Interpreter.sealed_run _ hsealed himmutable interruption record program⟩
  | @abort _ _ i _ hi ih => exact List.forall_mem_cons.2 ⟨ih i hi, ih⟩

/-! ## Moments -/

/-- The store behind a run, from the last one of its program: the scope of the program is cleared, unless
the run crashed. -/
def Closes (frame : Nat) (last : Store) (run : Run ω) : Prop :=
  match run.ending with
  | .crashed _ => run.store = last
  | _ => run.store = last.clearFrame frame

namespace Interpreter

variable (i : Interpreter) (record : Store → Value → ω) (store : Store) (program : List Stmt)

end Interpreter

/-! ## Definitions and assignments -/

end ScriptLab.Machine
