import Mathlib.Logic.Relation
import ScriptLab.Machine.Interpreter

/-!
# Scopes

What becomes of the bindings in a store. Scopes are added, names are defined in them, and a name is
assigned to where it is found; nothing else that is done to a store touches a binding. So a binding
that cannot be assigned to lasts.
-/

namespace ScriptLab.Machine

open Program (Cause)

/-! ## Bindings -/

/-- A scope none of whose names can be assigned to. -/
def Immutable (frame : Frame) : Prop :=
  ∀ entry ∈ frame, entry.2.mutable = false

theorem Immutable.find? {frame : Frame} (h : Immutable frame) {name : String} {binding : Binding}
    (hfound : Entries.find? frame name = some binding) : binding.mutable = false :=
  h _ (Entries.mem_of_find? hfound)

theorem Immutable.put {frame : Frame} (h : Immutable frame) (name : String) (value : Value) :
    Immutable (Entries.put frame name ⟨value, false⟩) := by
  induction frame with
  | nil => exact List.forall_mem_singleton.2 rfl
  | cons entry rest ih =>
      obtain ⟨hentry, hrest⟩ := List.forall_mem_cons.1 h
      unfold Entries.put
      split
      · exact List.forall_mem_cons.2 ⟨rfl, hrest⟩
      · exact List.forall_mem_cons.2 ⟨hentry, ih hrest⟩

theorem Immutable.nil : Immutable [] :=
  fun _ h => nomatch h

theorem Immutable.singleton (name : String) (value : Value) : Immutable [(name, ⟨value, false⟩)] :=
  List.forall_mem_singleton.2 rfl

/-- Parameters cannot be assigned to. -/
theorem immutable_bindParams {frame made : Frame} {params : List String} {args : List Value}
    (h : Immutable frame) (hmade : bindParams frame params args = .ok made) : Immutable made := by
  induction params generalizing frame args with
  | nil =>
      cases hmade
      exact h
  | cons param rest ih =>
      unfold bindParams at hmade
      split at hmade
      · cases hmade
      · exact ih (h.put param _) hmade

theorem immutable_builtinBindings (functions : List Builtin) (store : Store) :
    Immutable (builtinBindings functions store).1 := by
  induction functions generalizing store with
  | nil => exact .nil
  | cons function rest ih => exact List.forall_mem_cons.2 ⟨rfl, ih _⟩

theorem immutable_consts {frame : Frame} (h : Immutable frame) (consts : Entries String Value) :
    Immutable (consts.foldl (fun frame const => frame.put const.1 ⟨const.2, false⟩) frame) := by
  induction consts generalizing frame with
  | nil => exact h
  | cons const rest ih => exact ih (h.put const.1 const.2)

theorem bindings_bind (store : Store) (frame other : Nat) (name : String) (binding : Binding) :
    (store.bind frame name binding).bindings other =
      if frame = other ∧ other < store.frames.size then (store.bindings other).put name binding
      else store.bindings other := by
  change (store.frames.modify frame _).getD other [] = _
  rw [Array.getD_eq_getD_getElem?, Array.getElem?_modify, Store.bindings,
    Array.getD_eq_getD_getElem?]
  by_cases hframe : frame = other
  · by_cases hlt : other < store.frames.size
    · rw [if_pos hframe, if_pos ⟨hframe, hlt⟩, Array.getElem?_eq_getElem hlt]
      rfl
    · rw [if_pos hframe, if_neg fun h => hlt h.2, Array.getElem?_eq_none (Nat.le_of_not_lt hlt)]
      rfl
  · rw [if_neg hframe, if_neg fun h => hframe h.1]

/-- Binding a name in a scope leaves all other bindings alone. -/
theorem find?_bind_of_ne (store : Store) {frame other : Nat} {name key : String}
    (h : (other, key) ≠ (frame, name)) (binding : Binding) :
    ((store.bind frame name binding).bindings other).find? key =
      (store.bindings other).find? key := by
  rw [bindings_bind]
  split
  · next hsame =>
      rw [Entries.find?_put, if_neg]
      rintro rfl
      exact h (by rw [hsame.1])
  · rfl

theorem find?_of_resolve? {store : Store} {name : String} {frames : List Nat} {frame : Nat}
    {binding : Binding} (h : store.resolve? name frames = some (frame, binding)) :
    (store.bindings frame).find? name = some binding := by
  induction frames with
  | nil => cases h
  | cons outer rest ih =>
      unfold Store.resolve? at h
      split at h
      · next hfound =>
          cases h
          exact hfound
      · exact ih h

theorem writeName_ok {store : Store} {env : Env} {name : String} {value : Value}
    {edit : Store.Edit} (h : writeName store env name value = .ok edit) :
    ∃ frame binding, store.resolve? name env.frames = some (frame, binding) ∧
      binding.mutable = true ∧ edit = .binding frame name { binding with value } := by
  unfold writeName at h
  split at h
  · next frame binding hfound =>
      split at h
      · next hmutable =>
          cases h
          exact ⟨frame, binding, hfound, hmutable, rfl⟩
      · cases h
  · cases h

theorem defineName_ok {store : Store} {env : Env} {name : String} {binding : Binding}
    {edit : Store.Edit} (h : defineName store env name binding = .ok edit) :
    (store.bindings env.frame).find? name = none ∧ edit = .binding env.frame name binding := by
  unfold defineName at h
  split at h
  · cases h
  · next hnone =>
      cases h
      exact ⟨hnone, rfl⟩

/-! ## Changes that leave the scopes alone -/

theorem frames_writeIndex {store : Store} {target index value : Value} {edit : Store.Edit}
    (h : writeIndex store target index value = .ok edit) :
    (store.edit edit).frames = store.frames := by
  cases target with
  | arr id =>
    simp only [writeIndex] at h
    cases hslot : slot (store.items id).size index with
    | error cause =>
      rw [hslot] at h
      cases h
    | ok i =>
      rw [hslot] at h
      cases h
      rfl
  | obj id =>
    simp only [writeIndex] at h
    cases hkey : asKey index with
    | error cause =>
      rw [hkey] at h
      cases h
    | ok key =>
      rw [hkey] at h
      cases h
      rfl
  | _ => cases h

theorem frames_writeProperty {store : Store} {target value : Value} {name : String}
    {edit : Store.Edit} (h : writeProperty target name value = .ok edit) :
    (store.edit edit).frames = store.frames := by
  cases target with
  | obj id => cases h; rfl
  | _ => cases h

/-! ## Elementary changes -/

/-- What one operation of a run may do to the scopes in a store: nothing, or add a scope for a block, a
round or a call, or define a name, or assign to one. -/
inductive ScopeChange : Store → Store → Prop
  | none {store after : Store} (h : after.frames = store.frames) : ScopeChange store after
  | enter {store : Store} {bindings : Frame} (h : Immutable bindings) :
      ScopeChange store (store.newFrame bindings).2
  | define {store : Store} {env : Env} {name : String} {binding : Binding} {edit : Store.Edit}
      (h : defineName store env name binding = .ok edit) : ScopeChange store (store.edit edit)
  | assign {store : Store} {env : Env} {name : String} {value : Value} {edit : Store.Edit}
      (h : writeName store env name value = .ok edit) : ScopeChange store (store.edit edit)

/-- What becomes of the scopes in a store, one elementary change after the other. -/
abbrev History : Store → Store → Prop :=
  Relation.ReflTransGen ScopeChange

/-- A name is bound to a value in a scope, and cannot be assigned to. -/
def Fixed (store : Store) (frame : Nat) (name : String) (value : Value) : Prop :=
  (store.bindings frame).find? name = some ⟨value, false⟩

section Fixed

variable {store after : Store} {frame : Nat} {name : String} {value : Value}

theorem Fixed.bind (h : Fixed store frame name value) {other : Nat} {key : String}
    (hne : (frame, name) ≠ (other, key)) (binding : Binding) :
    Fixed (store.bind other key binding) frame name value :=
  (find?_bind_of_ne store hne binding).trans h

theorem Fixed.clearFrame (h : Fixed store frame name value) {cleared : Nat}
    (hne : cleared ≠ frame) : Fixed (store.clearFrame cleared) frame name value := by
  change Entries.find? ((store.frames.setIfInBounds cleared []).getD frame []) name = _
  rw [Array.getD_eq_getD_getElem?, Array.getElem?_setIfInBounds_ne hne, ← Array.getD_eq_getD_getElem?]
  exact h

end Fixed

/-! ## Sealed scopes -/

/-- A scope of a store in which nothing is bound but what is there. -/
def Sealed (frame : Nat) (bindings : Frame) (store : Store) : Prop :=
  store.frames[frame]? = some bindings

namespace Sealed

variable {frame : Nat} {bindings : Frame} {store after : Store}

theorem lt (h : Sealed frame bindings store) : frame < store.frames.size :=
  (Array.getElem?_eq_some_iff.1 h).1

theorem bindings_eq (h : Sealed frame bindings store) : store.bindings frame = bindings := by
  rw [Store.bindings, Array.getD_eq_getD_getElem?, h, Option.getD_some]

theorem of_frames (h : Sealed frame bindings store) (heq : after.frames = store.frames) :
    Sealed frame bindings after :=
  (congrArg (·[frame]?) heq).trans h

theorem newFrame (h : Sealed frame bindings store) (added : Frame) :
    Sealed frame bindings (store.newFrame added).2 :=
  (Array.getElem?_push_lt h.lt).trans ((Array.getElem?_eq_getElem h.lt).symm.trans h)

theorem bind (h : Sealed frame bindings store) {other : Nat} (hne : other ≠ frame) (name : String)
    (binding : Binding) : Sealed frame bindings (store.bind other name binding) := by
  change (store.frames.modify other _)[frame]? = _
  rw [Array.getElem?_modify, if_neg hne]
  exact h

theorem clearFrame (h : Sealed frame bindings store) {other : Nat} (hne : other ≠ frame) :
    Sealed frame bindings (store.clearFrame other) :=
  (Array.getElem?_setIfInBounds_ne hne).trans h

/-- Names are defined in the innermost scope. -/
theorem define (h : Sealed frame bindings store) {env : Env} (henv : env.frame ≠ frame)
    {name : String} {binding : Binding} {edit : Store.Edit}
    (hedit : defineName store env name binding = .ok edit) :
    Sealed frame bindings (store.edit edit) := by
  obtain ⟨-, rfl⟩ := defineName_ok hedit
  exact h.bind henv name binding

/-- An assignment to a name that cannot be assigned to is refused. -/
theorem assign (h : Sealed frame bindings store) (himmutable : Immutable bindings) {env : Env}
    {name : String} {value : Value} {edit : Store.Edit}
    (hedit : writeName store env name value = .ok edit) :
    Sealed frame bindings (store.edit edit) := by
  obtain ⟨found, binding, hfound, hmutable, rfl⟩ := writeName_ok hedit
  refine h.bind (fun heq => ?_) name _
  have hbound := find?_of_resolve? hfound
  rw [heq, h.bindings_eq] at hbound
  rw [himmutable.find? hbound] at hmutable
  cases hmutable

end Sealed

end ScriptLab.Machine
