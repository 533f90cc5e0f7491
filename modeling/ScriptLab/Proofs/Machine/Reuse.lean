import ScriptLab.Proofs.Machine.Accord.Evaluation

/-!
# Interpreters that are used again

An interpreter without constants runs one program after the other in one store. Each finds the
provided functions and the global scope as the first one did, and what others have left is out of its
reach: its run is that of the same program in a new store, but for the places.
-/

namespace ScriptLab.Machine

open Program

variable {ω : Type}

/-! ## Stores with the provided functions -/

/-- The scope of the provided functions, the first of which is at the given place. -/
def globalFrame (first : Nat) : Frame :=
  (Builtin.all.zipIdx first).map fun entry => (entry.1.name, ⟨.fn entry.2, false⟩)

/-- A store with the provided functions and their scope in the given places. -/
structure Stocked (first globals : Nat) (store : Store) : Prop where
  provided : ∀ (i : Nat) (function : Builtin), Builtin.all[i]? = some function →
    store.callables[i + first]? = some (.builtin function)
  globals : store.frames[globals]? = some (globalFrame first)

theorem builtinBindings_eq (functions : List Builtin) (store : Store) :
    builtinBindings functions store =
      ((functions.zipIdx store.callables.size).map fun entry =>
          (entry.1.name, ⟨.fn entry.2, false⟩),
        { store with
          callables := store.callables ++ (functions.map Callable.builtin).toArray }) := by
  induction functions generalizing store with
  | nil => simp [builtinBindings]
  | cons function rest ih =>
      simp only [builtinBindings, ih, Store.newCallable]
      simp

theorem create_eq (store : Store) (limits : Limits) :
    Interpreter.create store [] limits =
      ({ globals := store.frames.size, limits },
        { store with
          callables := store.callables ++ (Builtin.all.map Callable.builtin).toArray
          frames := store.frames.push (globalFrame store.callables.size) }) := by
  unfold Interpreter.create
  rw [builtinBindings_eq]
  rfl

/-- An interpreter without constants is made with the provided functions behind what is in the
store. -/
theorem stocked_create (store : Store) (limits : Limits) :
    Stocked store.callables.size (Interpreter.create store [] limits).1.globals
      (Interpreter.create store [] limits).2 := by
  rw [create_eq]
  refine ⟨fun i function h => ?_, ?_⟩
  · rw [Array.getElem?_append_right (Nat.le_add_left _ _), Nat.add_sub_cancel,
      List.getElem?_toArray, List.getElem?_map, h]
    rfl
  · exact Array.getElem?_push_size

/-- The store of an interpreter without constants, before anything else is in it. -/
def stock : Store :=
  (Interpreter.create {} [] {}).2

theorem stocked_stock : Stocked 0 0 stock :=
  stocked_create {} {}

namespace Stocked

variable {first globals : Nat} {store : Store}

theorem size_callables (h : Stocked first globals store) :
    first + stock.callables.size ≤ store.callables.size := by
  have hlast := h.provided 8 .push rfl
  have : 8 + first < store.callables.size := (Array.getElem?_eq_some_iff.1 hlast).1
  have : stock.callables.size = 9 := rfl
  omega

theorem first_le (h : Stocked first globals store) :
    first ≤ store.callables.size - stock.callables.size :=
  Nat.le_sub_of_add_le h.size_callables

theorem globals_lt (h : Stocked first globals store) : globals < store.frames.size :=
  (Array.getElem?_eq_some_iff.1 h.globals).1

theorem globals_le (h : Stocked first globals store) : globals ≤ store.frames.size - 1 :=
  Nat.le_sub_one_of_lt h.globals_lt

/-- The provided functions and their scope move to their places, and what is made in a new store moves
behind all that a used one holds. -/
def shift (h : Stocked first globals store) : Shift where
  arrays := .split 0 0 store.arrays.size (Nat.zero_le _)
  objects := .split 0 0 store.objects.size (Nat.zero_le _)
  callables := .split stock.callables.size first (store.callables.size - stock.callables.size)
    h.first_le
  frames := .split 1 globals (store.frames.size - 1) h.globals_le

theorem callables_shift (h : Stocked first globals store) {i : Nat}
    (hi : i < stock.callables.size) : h.shift.callables i = i + first :=
  Renaming.split_of_lt h.first_le hi

theorem frames_shift (h : Stocked first globals store) : h.shift.frames 0 = globals :=
  (Renaming.split_of_lt h.globals_le Nat.zero_lt_one).trans (Nat.zero_add globals)

theorem bindings_shift (h : Stocked first globals store) :
    h.shift.bindings (globalFrame 0) = globalFrame first := by
  rw [globalFrame, globalFrame, List.zipIdx_eq_map_add (i := first), List.map_map, Shift.bindings,
    Entries.mapValues, List.map_map]
  refine List.map_congr_left fun entry hentry => ?_
  obtain ⟨function, i⟩ := entry
  have hi : i < 0 + stock.callables.size := (List.mem_zipIdx hentry).2.1
  rw [Nat.zero_add] at hi
  have hvalue : h.shift.value (.fn i) = .fn (first + i) := by
    rw [Shift.value_fn, h.callables_shift hi, Nat.add_comm]
  exact congrArg (fun v => (function.name, (⟨v, false⟩ : Binding))) hvalue

/-- A new store is found in every store that has the provided functions. -/
theorem shifted (h : Stocked first globals store) : Shifted h.shift stock store where
  arrays := .split (Nat.zero_le _) rfl (Nat.zero_add _).symm
    fun _ hi => absurd hi (Nat.not_lt_zero _)
  objects := .split (Nat.zero_le _) rfl (Nat.zero_add _).symm
    fun _ hi => absurd hi (Nat.not_lt_zero _)
  callables := by
    refine .split h.first_le rfl ?_ fun i hi => ?_
    · have := h.size_callables
      omega
    · have hfunction := List.getElem?_eq_getElem (l := Builtin.all) hi
      have hstock := stocked_stock.provided i _ hfunction
      rw [Nat.add_zero] at hstock
      rw [h.provided i _ hfunction, hstock]
      rfl
  frames := by
    refine .split h.globals_le rfl ?_ fun i hi => ?_
    · have := h.globals_lt
      change store.frames.size = 1 + (store.frames.size - 1)
      omega
    · obtain rfl : i = 0 := Nat.lt_one_iff.1 hi
      rw [Nat.zero_add, h.globals, stocked_stock.globals, Option.map_some, h.bindings_shift]

/-- The provided functions stay in their places through every run of the new store that is followed in
the used one. -/
theorem of_shifted {origin made : Store} (h : Stocked first globals origin)
    (hmade : Stocked 0 0 made) (hs : Shifted h.shift made store) : Stocked first globals store where
  provided i function hfunction := by
    have hitem := hs.callables.item i
    have hfound := hmade.provided i function hfunction
    rw [Nat.add_zero] at hfound
    rw [h.callables_shift (List.getElem?_eq_some_iff.1 hfunction).1, hfound] at hitem
    exact hitem
  globals := by
    have hitem := hs.frames.item 0
    rw [h.frames_shift, hmade.globals, Option.map_some, h.bindings_shift] at hitem
    exact hitem

end Stocked

/-! ## What no program changes -/

theorem getElem?_push_of_some {α : Type} {xs : Array α} {i : Nat} {a b : α} (h : xs[i]? = some a) :
    (xs.push b)[i]? = some a := by
  have hi : i < xs.size := (Array.getElem?_eq_some_iff.1 h).1
  rw [Array.getElem?_push, if_neg (Nat.ne_of_lt hi)]
  exact h

/-- Nothing that the provided functions are bound to can be assigned to. -/
theorem immutable_globalFrame (first : Nat) : Immutable (globalFrame first) :=
  List.forall_mem_map.2 fun _ _ => rfl

namespace Stocked

variable {first globals : Nat} {store : Store}

theorem heap {after : Store} (h : Stocked first globals store)
    (hcallables : after.callables = store.callables)
    (hsealed : Sealed globals (globalFrame first) after) : Stocked first globals after where
  provided := by
    rw [hcallables]
    exact h.provided
  globals := hsealed

theorem newFrame (h : Stocked first globals store) (bindings : Frame) :
    Stocked first globals (store.newFrame bindings).2 :=
  h.heap rfl (Sealed.newFrame h.globals bindings)

theorem clearFrame (h : Stocked first globals store) {frame : Nat} (hframe : frame ≠ globals) :
    Stocked first globals (store.clearFrame frame) :=
  h.heap rfl (Sealed.clearFrame h.globals hframe)

theorem newCallable (h : Stocked first globals store) (callable : Callable) :
    Stocked first globals (store.newCallable callable).2 where
  provided i function hfunction := getElem?_push_of_some (h.provided i function hfunction)
  globals := h.globals

end Stocked

/-! ## Runs -/

/-- A program that starts in a new store does the same behind whatever a used one holds. -/
def reused (s : Setting ω) {first globals : Nat} {origin : Store}
    (horigin : Stocked first globals origin) (Same : ω → ω → Prop)
    (hrecord : ∀ {store store' : Store}, Shifted horigin.shift store store' → ∀ v,
      Same (s.record store v) (s.record store' (horigin.shift.value v))) : Accord s where
  shift := horigin.shift
  Same := Same
  Valid := Stocked 0 0
  Scope env := env.frame ≠ 0
  Allowed _ _ _ _ := True
  Control _ := True
  Stops _ := True
  record := hrecord
  heap h hcallables hframes := h.heap hcallables (Sealed.of_frames h.globals hframes)
  newFrame bindings h := h.newFrame bindings
  scope _ h := Nat.ne_of_gt h.globals_lt
  define h henv hedit := h.heap (callables_edit _ _) (Sealed.define h.globals henv hedit)
  assign h _ hedit :=
    h.heap (callables_edit _ _) (Sealed.assign h.globals (immutable_globalFrame 0) hedit)
  closure h _ := h.newCallable _
  known := by
    intros
    trivial
  inside _ _ _ := trivial
  leave _ := trivial
  again _ := trivial
  exhausted _ := trivial
  endless _ := trivial
  aborted := trivial
  crashed _ := trivial
  fault _ _ _ := trivial
  misplaced _ _ := trivial
  stray _ _ := trivial

/-- An ending with its value moved. -/
def Ending.moved (σ : Shift) : Ending → Ending
  | .finished last => .finished (last.map σ.value)
  | ending => ending

/-- Runs that differ in nothing but places, and in how the outputs are recorded. -/
structure Run.Alike (σ : Shift) (Same : ω → ω → Prop) (run run' : Run ω) : Prop where
  started : run'.started = run.started
  outputs : List.Forall₂ Same run.outputs run'.outputs
  ending : run'.ending = run.ending.moved σ
  store : Shifted σ run.store run'.store
  steps : run'.steps = run.steps
  aborted : run'.aborted = run.aborted
  interrupted : run'.interrupted = run.interrupted

/-- Results that agree make runs that are alike. -/
theorem Accord.Agree.conclude {s : Setting ω} {A : Accord s} {J : Flow → Flow → Prop}
    {r r' : EStateM.Result Halt (Progress ω) (Option Value)}
    (h : A.Agree J (Maps (Option.map A.shift.value)) r r') (frame : Nat) :
    Run.Alike A.shift A.Same (conclude frame r) (conclude (A.shift.frames frame) r') ∧
      (∃ store, A.Valid store ∧ ((conclude frame r).store = store ∨
        (conclude frame r).store = store.clearFrame frame)) := by
  cases h with
  | @ok a a' p p' ha hp htwin =>
      obtain rfl : a' = a.map A.shift.value := ha
      obtain ⟨store, outputs, hs, ho, rfl⟩ := htwin
      exact ⟨⟨rfl, List.forall₂_reverse_iff.2 ho, rfl, hs.clearFrame frame, rfl, rfl, rfl⟩,
        p.store, hp, .inr rfl⟩
  | @error halt halt' p p' hhalt hp htwin =>
      obtain ⟨store, outputs, hs, ho, rfl⟩ := htwin
      have ho' := List.forall₂_reverse_iff.2 ho
      cases hhalt with
      | crashed message =>
          exact ⟨⟨rfl, ho', rfl, hs, rfl, rfl, rfl⟩, p.store, hp, .inl rfl⟩
      | fault | aborted | exhausted | jump =>
          exact ⟨⟨rfl, ho', rfl, hs.clearFrame frame, rfl, rfl, rfl⟩, p.store, hp, .inr rfl⟩

namespace Interpreter

/-- A run in a used store is that of the same program in a new one, but for the places, and leaves the
store fit for further use. -/
theorem run_alike (i : Interpreter) {first : Nat} {store : Store}
    (h : Stocked first i.globals store) (Same : ω → ω → Prop) (interruption : Option Interruption)
    (record : Store → Value → ω)
    (hrecord : ∀ {made made' : Store}, Shifted h.shift made made' → ∀ v,
      Same (record made v) (record made' (h.shift.value v)))
    (program : List Stmt) :
    let run := ({ i with globals := 0 } : Interpreter).run interruption record stock program
    let run' := i.run interruption record store program
    Run.Alike h.shift Same run run' ∧ Stocked first i.globals run'.store := by
  intro run run'
  rcases Bool.eq_false_or_eq_true i.aborted with ha | ha
  · have hrun : run = _ := run_of_aborted (i := { i with globals := 0 }) ha ..
    have hrun' : run' = _ := run_of_aborted ha ..
    rw [hrun, hrun']
    exact ⟨⟨rfl, .nil, rfl, h.shifted, rfl, rfl, rfl⟩, h⟩
  · have hrun : run = _ := run_eq_conclude (i := { i with globals := 0 }) ha ..
    have hrun' : run' = _ := run_eq_conclude ha ..
    let A := reused (i.setting interruption record) h Same hrecord
    have hframe : (store.newFrame []).1 = h.shift.frames (stock.newFrame []).1 :=
      (h.shifted.newFrame []).1
    have henv : (⟨(store.newFrame []).1, [i.globals]⟩ : Env) =
        h.shift.env ⟨(stock.newFrame []).1, [0]⟩ := by
      rw [hframe, Shift.env, List.map_singleton, h.frames_shift]
    have hscope : A.Scope ⟨(stock.newFrame []).1, [0]⟩ := Nat.one_ne_zero
    have hagree := A.program (J := fun _ _ => False) (budget i.limits)
      (fun x (_ : x ∈ program) => trivial) none hscope
      { store := (stock.newFrame []).2 } { store := (store.newFrame []).2 }
      (stocked_stock.newFrame []) ⟨_, _, (h.shifted.newFrame []).2, .nil, rfl⟩
    rw [← show _ = A.shift.env _ from henv] at hagree
    obtain ⟨halike, made, hmade, hstore⟩ := hagree.conclude (stock.newFrame []).1
    rw [← show _ = A.shift.frames _ from hframe] at halike
    rw [hrun, hrun']
    refine ⟨halike, h.of_shifted ?_ halike.store⟩
    rcases hstore with hstore | hstore
    · rw [hstore]
      exact hmade
    · rw [hstore]
      exact hmade.clearFrame Nat.one_ne_zero

end Interpreter

end ScriptLab.Machine
