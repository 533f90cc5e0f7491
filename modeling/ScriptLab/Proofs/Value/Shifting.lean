import ScriptLab.Machine.Operation

/-!
# Stores that are moved

A program that runs behind what others have left in a store finds its own arrays, objects, functions
and scopes at other places. Reading, writing and adding do the same in both stores, up to the
places.
-/

namespace ScriptLab

open Program (Cause)

/-! ## Places -/

/-- Places that are moved, no two of them to the same one. -/
structure Renaming where
  place : Nat → Nat
  inj : ∀ i j, place i = place j → i = j

namespace Renaming

instance : CoeFun Renaming fun _ => Nat → Nat :=
  ⟨place⟩

variable (m : Renaming)

theorem eq_iff {i j : Nat} : m i = m j ↔ i = j :=
  ⟨m.inj i j, congrArg m⟩

/-- All places stay. -/
def still : Renaming :=
  ⟨id, fun _ _ h => h⟩

/-- The first places move by one distance and all others by another one that is no less. -/
def split (first near far : Nat) (h : near ≤ far) : Renaming where
  place i := if i < first then i + near else i + far
  inj i j := by
    split <;> split <;> omega

theorem split_of_lt {first near far i : Nat} (h : near ≤ far) (hi : i < first) :
    split first near far h i = i + near :=
  if_pos hi

theorem split_of_le {first near far i : Nat} (h : near ≤ far) (hi : first ≤ i) :
    split first near far h i = i + far :=
  if_neg (Nat.not_lt.2 hi)

end Renaming

/-- The items of an array that are found in another one, moved and each changed in the same way. What
comes behind one array comes behind the other. -/
structure Moved {α β : Type} (m : Renaming) (f : α → β) (xs : Array α) (ys : Array β) : Prop where
  size_le : xs.size ≤ ys.size
  behind : ∀ k, m (xs.size + k) = ys.size + k
  item : ∀ i, ys[m i]? = xs[i]?.map f

namespace Moved

variable {α β : Type} {m : Renaming} {f : α → β} {xs : Array α} {ys : Array β}

theorem end_eq (h : Moved m f xs ys) : m xs.size = ys.size :=
  h.behind 0

theorem lt_iff (h : Moved m f xs ys) (i : Nat) : m i < ys.size ↔ i < xs.size := by
  rw [← Nat.not_le, ← Nat.not_le, ← Array.getElem?_eq_none_iff, ← Array.getElem?_eq_none_iff,
    h.item, Option.map_eq_none_iff]

theorem getD (h : Moved m f xs ys) (i : Nat) (a : α) : ys.getD (m i) (f a) = f (xs.getD i a) := by
  rw [Array.getD_eq_getD_getElem?, Array.getD_eq_getD_getElem?, h.item]
  cases xs[i]? <;> rfl

theorem push (h : Moved m f xs ys) (a : α) : Moved m f (xs.push a) (ys.push (f a)) where
  size_le := by
    rw [Array.size_push, Array.size_push]
    exact Nat.succ_le_succ h.size_le
  behind k := by
    rw [Array.size_push, Array.size_push, Nat.add_assoc, Nat.add_assoc]
    exact h.behind (1 + k)
  item i := by
    rw [Array.getElem?_push, Array.getElem?_push, h.item, ← h.end_eq]
    by_cases hi : i = xs.size
    · rw [if_pos (congrArg _ hi), if_pos hi]
      rfl
    · rw [if_neg (fun heq => hi (m.inj _ _ heq)), if_neg hi]

theorem modify (h : Moved m f xs ys) (i : Nat) (g : α → α) (g' : β → β)
    (hg : ∀ a, g' (f a) = f (g a)) : Moved m f (xs.modify i g) (ys.modify (m i) g') where
  size_le := by
    rw [Array.size_modify, Array.size_modify]
    exact h.size_le
  behind k := by
    rw [Array.size_modify, Array.size_modify, h.behind]
  item j := by
    rw [Array.getElem?_modify, Array.getElem?_modify, h.item]
    by_cases hij : i = j
    · rw [if_pos (congrArg _ hij), if_pos hij]
      cases xs[j]? with
      | none => rfl
      | some a => exact congrArg some (hg a)
    · rw [if_neg (fun heq => hij (m.inj _ _ heq)), if_neg hij]

theorem setIfInBounds (h : Moved m f xs ys) (i : Nat) (a : α) :
    Moved m f (xs.setIfInBounds i a) (ys.setIfInBounds (m i) (f a)) where
  size_le := by
    rw [Array.size_setIfInBounds, Array.size_setIfInBounds]
    exact h.size_le
  behind k := by
    rw [Array.size_setIfInBounds, Array.size_setIfInBounds, h.behind]
  item j := by
    rw [Array.getElem?_setIfInBounds, Array.getElem?_setIfInBounds, h.item]
    by_cases hij : i = j
    · rw [if_pos (congrArg _ hij), if_pos hij]
      by_cases hi : i < xs.size
      · rw [if_pos ((h.lt_iff i).2 hi), if_pos hi]
        rfl
      · rw [if_neg (fun hlt => hi ((h.lt_iff i).1 hlt)), if_neg hi]
        rfl
    · rw [if_neg (fun heq => hij (m.inj _ _ heq)), if_neg hij]

/-- Where nothing moves and nothing changes, an array is found in itself. -/
theorem still {f : α → α} (hf : ∀ a, f a = a) (xs : Array α) : Moved .still f xs xs where
  size_le := Nat.le_refl _
  behind _ := rfl
  item i := by
    change xs[i]? = xs[i]?.map f
    rw [funext hf, Option.map_id']

/-- An array that is found in another one from some place on. -/
theorem split {first near far : Nat} (hle : near ≤ far) (hfirst : first = xs.size)
    (hsize : ys.size = xs.size + far) (hitem : ∀ i < xs.size, ys[i + near]? = xs[i]?.map f) :
    Moved (.split first near far hle) f xs ys where
  size_le := by omega
  behind k := by
    rw [Renaming.split_of_le hle (by omega), hsize]
    omega
  item i := by
    by_cases hi : i < xs.size
    · rw [Renaming.split_of_lt hle (by omega)]
      exact hitem i hi
    · rw [Renaming.split_of_le hle (by omega), Array.getElem?_eq_none (by omega),
        Array.getElem?_eq_none (by omega)]
      rfl

end Moved

/-! ## Entries -/

namespace Entries

variable {κ α β : Type} [DecidableEq κ]

/-- Changes all values, each in the same way. -/
def mapValues (f : α → β) (entries : Entries κ α) : Entries κ β :=
  entries.map fun entry => (entry.1, f entry.2)

theorem find?_mapValues (f : α → β) (entries : Entries κ α) (key : κ) :
    (entries.mapValues f).find? key = (entries.find? key).map f := by
  induction entries with
  | nil => rfl
  | cons entry rest ih =>
    obtain ⟨k, a⟩ := entry
    change (if k = key then some (f a) else find? (mapValues f rest) key) =
      Option.map f (if k = key then some a else find? rest key)
    by_cases h : k = key
    · rw [if_pos h, if_pos h]
      rfl
    · rw [if_neg h, if_neg h]
      exact ih

theorem put_mapValues (f : α → β) (entries : Entries κ α) (key : κ) (value : α) :
    (entries.mapValues f).put key (f value) = (entries.put key value).mapValues f := by
  induction entries with
  | nil => rfl
  | cons entry rest ih =>
    obtain ⟨k, a⟩ := entry
    change (if k = key then (k, f value) :: mapValues f rest
      else (k, f a) :: put (mapValues f rest) key (f value)) =
        mapValues f (if k = key then (k, value) :: rest else (k, a) :: put rest key value)
    by_cases h : k = key
    · rw [if_pos h, if_pos h]
      rfl
    · rw [if_neg h, if_neg h, ih]
      rfl

omit [DecidableEq κ] in
theorem mapValues_eq_self {f : α → α} (hf : ∀ a, f a = a) (entries : Entries κ α) :
    entries.mapValues f = entries := by
  have : (fun entry : κ × α => (entry.1, f entry.2)) = id := by
    funext entry
    rw [hf]
    rfl
  rw [mapValues, this, List.map_id]

end Entries

/-! ## Values -/

/-- How the parts of a store move. -/
structure Shift where
  arrays : Renaming
  objects : Renaming
  callables : Renaming
  frames : Renaming

namespace Shift

variable (σ : Shift)

/-- A moved value. -/
def value : Value → Value
  | .arr id => .arr (σ.arrays id)
  | .obj id => .obj (σ.objects id)
  | .fn id => .fn (σ.callables id)
  | v => v

/-- The moved entries of an object. -/
def entries (entries : Entries String Value) : Entries String Value :=
  entries.mapValues σ.value

/-- Moved scopes. -/
def env (env : Env) : Env :=
  ⟨σ.frames env.frame, env.outer.map σ.frames⟩

/-- A moved function. -/
def callable : Callable → Callable
  | .closure params body env => .closure params body (σ.env env)
  | .builtin function => .builtin function

/-- A moved binding. -/
def binding (b : Binding) : Binding :=
  { b with value := σ.value b.value }

/-- The moved bindings of a scope. -/
def bindings (frame : Frame) : Frame :=
  frame.mapValues σ.binding

/-- A moved change. -/
def edit : Store.Edit → Store.Edit
  | .item id index v => .item (σ.arrays id) index (σ.value v)
  | .entry id key v => .entry (σ.objects id) key (σ.value v)
  | .binding id name b => .binding (σ.frames id) name (σ.binding b)

@[simp] theorem value_arr (id : Nat) : σ.value (.arr id) = .arr (σ.arrays id) := rfl

@[simp] theorem value_obj (id : Nat) : σ.value (.obj id) = .obj (σ.objects id) := rfl

@[simp] theorem value_fn (id : Nat) :
    σ.value (.fn id) = .fn (σ.callables id) := rfl

@[simp] theorem value_str (text : String) : σ.value (.str text) = .str text := rfl

theorem frames_env (env : Env) : (σ.env env).frames = env.frames.map σ.frames := rfl

theorem type_value (v : Value) : (σ.value v).type = v.type := by
  cases v <;> rfl

/-- Moving keeps apart what is not the same. -/
theorem same_value (v w : Value) : (σ.value v).same (σ.value w) = v.same w := by
  have hplace (m : Renaming) (i j : Nat) : (m i == m j) = (i == j) := by
    rw [Bool.eq_iff_iff, beq_iff_eq, beq_iff_eq]
    exact m.eq_iff
  cases v <;> cases w <;> first | rfl | exact hplace ..

/-! ## Nothing moves -/

/-- The shift that moves nothing. -/
def none : Shift := ⟨.still, .still, .still, .still⟩

theorem value_none (v : Value) : none.value v = v := by
  cases v <;> rfl

theorem env_none (env : Env) : none.env env = env := by
  have : env.outer.map none.frames = env.outer := List.map_id env.outer
  rw [Shift.env, this]
  rfl

theorem callable_none (c : Callable) : none.callable c = c := by
  cases c with
  | closure params body env => exact congrArg (Callable.closure params body) (env_none env)
  | builtin function => rfl

theorem binding_none (b : Binding) : none.binding b = b := by
  rw [binding, value_none]

end Shift

/-! ## Stores -/

/-- One store is found in another, moved. The second one may hold more. -/
structure Shifted (σ : Shift) (s t : Store) : Prop where
  arrays : Moved σ.arrays (Array.map σ.value) s.arrays t.arrays
  objects : Moved σ.objects σ.entries s.objects t.objects
  callables : Moved σ.callables σ.callable s.callables t.callables
  frames : Moved σ.frames σ.bindings s.frames t.frames

namespace Shifted

/-- A store is found in itself. -/
theorem refl (s : Store) : Shifted .none s s where
  arrays := .still (fun items => by
    rw [funext Shift.value_none]
    exact Array.map_id' items) _
  objects := .still (Entries.mapValues_eq_self Shift.value_none) _
  callables := .still Shift.callable_none _
  frames := .still (Entries.mapValues_eq_self Shift.binding_none) _

variable {σ : Shift} {s t : Store}

/-! ## Reading -/

theorem items (h : Shifted σ s t) (id : Nat) :
    t.items (σ.arrays id) = (s.items id).map σ.value := by
  have hitems := h.arrays.getD id #[]
  rwa [Array.map_empty] at hitems

theorem entries (h : Shifted σ s t) (id : Nat) :
    t.entries (σ.objects id) = σ.entries (s.entries id) :=
  h.objects.getD id []

theorem bindings (h : Shifted σ s t) (id : Nat) :
    t.bindings (σ.frames id) = σ.bindings (s.bindings id) :=
  h.frames.getD id []

theorem resolve? (h : Shifted σ s t) (name : String) (frames : List Nat) :
    t.resolve? name (frames.map σ.frames) =
      (s.resolve? name frames).map fun found => (σ.frames found.1, σ.binding found.2) := by
  induction frames with
  | nil => rfl
  | cons frame outer ih =>
    rw [List.map_cons, Store.resolve?, Store.resolve?, h.bindings, Shift.bindings,
      Entries.find?_mapValues]
    cases (s.bindings frame).find? name with
    | none => exact ih
    | some binding => rfl

/-! ## Adding and changing -/

theorem newArray (h : Shifted σ s t) (items : Array Value) :
    (t.newArray (items.map σ.value)).1 = σ.value (s.newArray items).1 ∧
      Shifted σ (s.newArray items).2 (t.newArray (items.map σ.value)).2 :=
  ⟨congrArg Value.arr h.arrays.end_eq.symm, { h with arrays := h.arrays.push items }⟩

theorem newObject (h : Shifted σ s t) (made : Entries String Value) :
    (t.newObject (σ.entries made)).1 = σ.value (s.newObject made).1 ∧
      Shifted σ (s.newObject made).2 (t.newObject (σ.entries made)).2 :=
  ⟨congrArg Value.obj h.objects.end_eq.symm, { h with objects := h.objects.push made }⟩

theorem newCallable (h : Shifted σ s t) (c : Callable) :
    (t.newCallable (σ.callable c)).1 = σ.value (s.newCallable c).1 ∧
      Shifted σ (s.newCallable c).2 (t.newCallable (σ.callable c)).2 :=
  ⟨congrArg Value.fn h.callables.end_eq.symm, { h with callables := h.callables.push c }⟩

theorem newFrame (h : Shifted σ s t) (made : Frame) :
    (t.newFrame (σ.bindings made)).1 = σ.frames (s.newFrame made).1 ∧
      Shifted σ (s.newFrame made).2 (t.newFrame (σ.bindings made)).2 :=
  ⟨h.frames.end_eq.symm, { h with frames := h.frames.push made }⟩

theorem pushItem (h : Shifted σ s t) (id : Nat) (v : Value) :
    Shifted σ (s.pushItem id v) (t.pushItem (σ.arrays id) (σ.value v)) :=
  have hitems := h.arrays.modify id (·.push v) (·.push (σ.value v)) fun _ => Array.map_push.symm
  { h with arrays := hitems }

theorem clearFrame (h : Shifted σ s t) (id : Nat) :
    Shifted σ (s.clearFrame id) (t.clearFrame (σ.frames id)) :=
  { h with frames := h.frames.setIfInBounds id [] }

theorem edit (h : Shifted σ s t) (edit : Store.Edit) :
    Shifted σ (s.edit edit) (t.edit (σ.edit edit)) := by
  cases edit with
  | item id index v =>
    have hitem := h.arrays.modify id (·.setIfInBounds index v) (·.setIfInBounds index (σ.value v))
      fun _ => Array.map_setIfInBounds.symm
    exact { h with arrays := hitem }
  | entry id key v =>
    have hentry := h.objects.modify id (·.put key v) (·.put key (σ.value v))
      fun made => made.put_mapValues σ.value key v
    exact { h with objects := hentry }
  | binding id name b =>
    have hbinding := h.frames.modify id (·.put name b) (·.put name (σ.binding b))
      fun made => Entries.put_mapValues σ.binding made name b
    exact { h with frames := hbinding }

end Shifted

namespace Machine

variable {σ : Shift} {s t : Store}

/-! ## Operations -/

theorem asNumber_value (σ : Shift) (v : Value) : asNumber (σ.value v) = asNumber v := by
  cases v <;> rfl

theorem asBool_value (σ : Shift) (v : Value) : asBool (σ.value v) = asBool v := by
  cases v <;> rfl

theorem asKey_value (σ : Shift) (v : Value) : asKey (σ.value v) = asKey v := by
  cases v <;> rfl

theorem slot_value (σ : Shift) (length : Nat) (index : Value) :
    slot length (σ.value index) = slot length index := by
  rw [slot, slot, asNumber_value]

theorem onNumbers_value {α : Type} (σ : Shift) (f : Float → Float → α) (left right : Value) :
    onNumbers f (σ.value left) (σ.value right) = onNumbers f left right := by
  rw [onNumbers, onNumbers, asNumber_value, asNumber_value]

/-- What an operator comes to does not depend on places, and is none itself. -/
theorem combine_value (σ : Shift) (op : Program.BinaryOp) (left right : Value) :
    combine op (σ.value left) (σ.value right) = (combine op left right).map σ.value := by
  have hnum (r : Except Cause Float) :
      (do return Value.num (← r) : Except Cause Value) =
        (do return Value.num (← r) : Except Cause Value).map σ.value := by
    cases r <;> rfl
  have hbool (r : Except Cause Bool) :
      (do return Value.bool (← r) : Except Cause Value) =
        (do return Value.bool (← r) : Except Cause Value).map σ.value := by
    cases r <;> rfl
  cases op with
  | eq | ne =>
    rw [combine, combine, Shift.same_value]
    rfl
  | and | or =>
    rw [combine, combine, asBool_value, asBool_value]
    cases asBool left with
    | error cause => rfl
    | ok b => cases b <;> cases asBool right <;> rfl
  | add =>
    rw [combine, combine]
    cases left <;> cases right <;> rfl
  | sub | mul | div | rem =>
    rw [combine, combine, onNumbers_value]
    exact hnum _
  | lt | le | gt | ge =>
    rw [combine, combine, onNumbers_value]
    exact hbool _

theorem readIndex_shifted (h : Shifted σ s t) (target index : Value) :
    readIndex t (σ.value target) (σ.value index) = (readIndex s target index).map σ.value := by
  cases target with
  | arr id =>
    simp only [Shift.value_arr, readIndex, h.items, Array.size_map, slot_value]
    cases slot (s.items id).size index with
    | error cause => rfl
    | ok i =>
      refine congrArg Except.ok ?_
      rw [Array.getD_eq_getD_getElem?, Array.getD_eq_getD_getElem?, Array.getElem?_map]
      cases (s.items id)[i]? <;> rfl
  | str text =>
    simp only [Shift.value_str, readIndex, slot_value]
    cases slot text.length index <;> rfl
  | obj id =>
    simp only [Shift.value_obj, readIndex, h.entries, asKey_value]
    cases asKey index with
    | error cause => rfl
    | ok key =>
      refine congrArg Except.ok ?_
      rw [Shift.entries, Entries.find?_mapValues]
      cases (s.entries id).find? key <;> rfl
  | _ => rfl

theorem writeIndex_shifted (h : Shifted σ s t) (target index value : Value) :
    writeIndex t (σ.value target) (σ.value index) (σ.value value) =
      (writeIndex s target index value).map σ.edit := by
  cases target with
  | arr id =>
    simp only [Shift.value_arr, writeIndex, h.items, Array.size_map, slot_value]
    cases slot (s.items id).size index <;> rfl
  | obj id =>
    simp only [Shift.value_obj, writeIndex, asKey_value]
    cases asKey index <;> rfl
  | _ => rfl

theorem readProperty_shifted (h : Shifted σ s t) (target : Value) (name : String) :
    readProperty t (σ.value target) name = (readProperty s target name).map σ.value := by
  cases target with
  | arr id =>
    simp only [Shift.value_arr, readProperty, h.items, Array.size_map]
    split <;> rfl
  | str text =>
    simp only [Shift.value_str, readProperty]
    split <;> rfl
  | obj id =>
    simp only [Shift.value_obj, readProperty, h.entries]
    refine congrArg Except.ok ?_
    rw [Shift.entries, Entries.find?_mapValues]
    cases (s.entries id).find? name <;> rfl
  | _ => rfl

theorem writeProperty_value (σ : Shift) (target : Value) (name : String) (value : Value) :
    writeProperty (σ.value target) name (σ.value value) =
      (writeProperty target name value).map σ.edit := by
  cases target <;> rfl

theorem readName_shifted (h : Shifted σ s t) (env : Env) (name : String) :
    readName t (σ.env env) name = (readName s env name).map σ.value := by
  rw [readName, readName, Shift.frames_env, h.resolve?]
  cases s.resolve? name env.frames <;> rfl

theorem writeName_shifted (h : Shifted σ s t) (env : Env) (name : String) (value : Value) :
    writeName t (σ.env env) name (σ.value value) = (writeName s env name value).map σ.edit := by
  rw [writeName, writeName, Shift.frames_env, h.resolve?]
  cases s.resolve? name env.frames with
  | none => rfl
  | some found =>
    obtain ⟨frame, value, mutable⟩ := found
    cases mutable <;> rfl

theorem defineName_shifted (h : Shifted σ s t) (env : Env) (name : String) (b : Binding) :
    defineName t (σ.env env) name (σ.binding b) = (defineName s env name b).map σ.edit := by
  have hframe : (σ.env env).frame = σ.frames env.frame := rfl
  rw [defineName, hframe, h.bindings, Shift.bindings, Entries.find?_mapValues, defineName]
  cases (s.bindings env.frame).find? name <;> rfl

theorem bindParams_shifted (σ : Shift) (frame : Frame) (params : List String)
    (args : List Value) :
    bindParams (σ.bindings frame) params (args.map σ.value) =
      (bindParams frame params args).map σ.bindings := by
  induction params generalizing frame args with
  | nil => rfl
  | cons param params ih =>
    rw [bindParams, bindParams, Shift.bindings, Entries.find?_mapValues]
    cases frame.find? param with
    | some b => rfl
    | none =>
      have harg : (⟨(args.map σ.value).headD .null, false⟩ : Binding) =
          σ.binding ⟨args.headD .null, false⟩ := by
        cases args <;> rfl
      simp only [Option.map_none]
      rw [harg, Entries.put_mapValues, ← List.map_tail]
      exact ih _ _

end Machine

end ScriptLab
