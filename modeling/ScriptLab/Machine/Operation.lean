import ScriptLab.Value.Store

/-!
# Operations on values

Operators, indexing and properties. An operation gives a value or a changed store, or the cause of
a fault.
-/

namespace ScriptLab.Machine

open Program (BinaryOp AssignOp Cause)

/-! ## Operators -/

/-- The number that an operand must be. -/
def asNumber : Value → Except Cause Float
  | .num x => .ok x
  | v => .error (.mismatch .num v.type)

/-- The truth value that a condition must be. -/
def asBool : Value → Except Cause Bool
  | .bool b => .ok b
  | v => .error (.mismatch .bool v.type)

/-- Applies an operator to two numbers. The left one is looked at first. -/
def onNumbers {α : Type} (f : Float → Float → α) (left right : Value) : Except Cause α := do
  let x ← asNumber left
  let y ← asNumber right
  return f x y

/-- Adds numbers, or joins strings. -/
def plus : Value → Value → Except Cause Value
  | .str s, .str t => .ok (.str (s ++ t))
  | left, right => return .num (← onNumbers (· + ·) left right)

/-- Applies an operator to two values. -/
def combine (op : BinaryOp) (left right : Value) : Except Cause Value :=
  match op with
  | .eq => .ok (.bool (left.same right))
  | .ne => .ok (.bool (!left.same right))
  | .and => do
    if ← asBool left then return .bool (← asBool right) else return .bool false
  | .or => do
    if ← asBool left then return .bool true else return .bool (← asBool right)
  | .add => plus left right
  | .sub => return .num (← onNumbers (· - ·) left right)
  | .mul => return .num (← onNumbers (· * ·) left right)
  | .div => return .num (← onNumbers (· / ·) left right)
  | .rem => return .num (← onNumbers Number.remainder left right)
  | .lt => return .bool (← onNumbers (fun x y => decide (x < y)) left right)
  | .le => return .bool (← onNumbers (fun x y => decide (x ≤ y)) left right)
  | .gt => return .bool (← onNumbers (fun x y => decide (y < x)) left right)
  | .ge => return .bool (← onNumbers (fun x y => decide (y ≤ x)) left right)

/-- The operator that a compound assignment applies. -/
def assignOperator : AssignOp → Option BinaryOp
  | .set => none
  | .add => some .add
  | .sub => some .sub

/-! ## Places inside values -/

/-- The place among `length` ones that an index denotes. -/
def slot (length : Nat) (index : Value) : Except Cause Nat := do
  let x ← asNumber index
  match Number.index? x length with
  | some i => return i
  | none => throw (.outOfRange x length)

/-- The key that an index of an object must be. -/
def asKey : Value → Except Cause String
  | .str key => .ok key
  | v => .error (.mismatch .str v.type)

/-- Reads `target[index]`. A missing key of an object reads as `null`. -/
def readIndex (store : Store) (target index : Value) : Except Cause Value :=
  match target with
  | .arr id => do
    let i ← slot (store.items id).size index
    return (store.items id).getD i .null
  | .str s => do
    let i ← slot s.length index
    return .str (String.ofList (s.toList[i]?.toList))
  | .obj id => do
    let key ← asKey index
    return ((store.entries id).find? key).getD .null
  | v => throw (.mismatch .arr v.type)

/-- The change that writes `target[index]`. -/
def writeIndex (store : Store) (target index value : Value) : Except Cause Store.Edit :=
  match target with
  | .arr id => do
    let i ← slot (store.items id).size index
    return .item id i value
  | .obj id => do
    let key ← asKey index
    return .entry id key value
  | v => throw (.mismatch .arr v.type)

/-- Reads `target.name`: the length of an array or a string, or an entry of an object. -/
def readProperty (store : Store) (target : Value) (name : String) : Except Cause Value :=
  match target with
  | .obj id => return ((store.entries id).find? name).getD .null
  | .arr id =>
    if name = "len" then return .num (Number.ofNat (store.items id).size)
    else throw (.noProperty name .arr)
  | .str s =>
    if name = "len" then return .num (Number.ofNat s.length) else throw (.noProperty name .str)
  | v => throw (.noProperty name v.type)

/-- The change that writes `target.name`. -/
def writeProperty (target : Value) (name : String) (value : Value) : Except Cause Store.Edit :=
  match target with
  | .obj id => return .entry id name value
  | v => throw (.mismatch .obj v.type)

/-! ## Names -/

/-- Reads a variable. -/
def readName (store : Store) (env : Env) (name : String) : Except Cause Value :=
  match store.resolve? name env.frames with
  | some (_, binding) => .ok binding.value
  | none => .error (.undefinedName name)

/-- The change that writes a variable, in the innermost scope that binds it. -/
def writeName (store : Store) (env : Env) (name : String) (value : Value) :
    Except Cause Store.Edit :=
  match store.resolve? name env.frames with
  | some (frame, binding) =>
    if binding.mutable then .ok (.binding frame name { binding with value })
    else .error (.immutable name)
  | none => .error (.undefinedName name)

/-- The change that binds a new name in the innermost scope. -/
def defineName (store : Store) (env : Env) (name : String) (binding : Binding) :
    Except Cause Store.Edit :=
  match (store.bindings env.frame).find? name with
  | some _ => .error (.alreadyDefined name)
  | none => .ok (.binding env.frame name binding)

/-- The bindings of the parameters of a function, behind those already made. A missing argument is
`null`, and one too many is dropped. -/
def bindParams (frame : Frame) : List String → List Value → Except Cause Frame
  | [], _ => .ok frame
  | param :: params, args =>
    match Entries.find? frame param with
    | some _ => .error (.alreadyDefined param)
    | none => bindParams (frame.put param ⟨args.headD .null, false⟩) params args.tail

end ScriptLab.Machine
