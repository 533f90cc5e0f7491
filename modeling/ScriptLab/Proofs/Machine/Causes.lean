import ScriptLab.Machine.Evaluator

/-!
# What operations fail with

An operation on values and names fails with a cause of its own kind: never as a malformed program
does, and never for loop control that is out of place.
-/

namespace ScriptLab

open Program (BinaryOp Cause)

/-- Whether a run brings the cause about in any program. The other ones are for programs that are
malformed, or whose loop control is outside of loops. -/
def Program.Cause.isOrdinary : Cause → Bool
  | .mismatch .. | .noProperty .. | .alreadyDefined _ | .undefinedName _ | .immutable _
  | .stepsExceeded | .callsExceeded | .rangeTooLong | .outOfRange .. | .raised _ => true
  | _ => false

namespace Machine

/-- An operation that fails for ordinary causes only. -/
def Ordinary {α : Type} (result : Except Cause α) : Prop :=
  ∀ cause, result = .error cause → cause.isOrdinary = true

namespace Ordinary

variable {α β : Type}

theorem ok (a : α) : Ordinary (.ok a) := by
  intro cause h
  cases h

theorem error {cause : Cause} (h : cause.isOrdinary = true) :
    Ordinary (.error cause : Except Cause α) := by
  intro cause' h'
  cases h'
  exact h

theorem bind {result : Except Cause α} {f : α → Except Cause β} (h : Ordinary result)
    (hf : ∀ a, Ordinary (f a)) : Ordinary (result >>= f) := by
  cases result with
  | ok a => exact hf a
  | error cause => exact error (h cause rfl)

/-! ## Values -/

theorem asNumber (v : Value) : Ordinary (Machine.asNumber v) := by
  cases v with
  | num x => exact ok x
  | _ => exact error rfl

theorem asBool (v : Value) : Ordinary (Machine.asBool v) := by
  cases v with
  | bool b => exact ok b
  | _ => exact error rfl

theorem asKey (v : Value) : Ordinary (Machine.asKey v) := by
  cases v with
  | str key => exact ok key
  | _ => exact error rfl

theorem onNumbers (f : Float → Float → α) (left right : Value) :
    Ordinary (Machine.onNumbers f left right) :=
  bind (asNumber left) fun _ => bind (asNumber right) fun _ => ok _

theorem plus (left right : Value) : Ordinary (Machine.plus left right) := by
  unfold Machine.plus
  split
  · exact ok _
  · exact bind (onNumbers _ _ _) fun _ => ok _

theorem combine (op : BinaryOp) (left right : Value) :
    Ordinary (Machine.combine op left right) := by
  cases op with
  | eq | ne => exact ok _
  | and =>
    refine bind (asBool left) fun b => ?_
    cases b with
    | true => exact bind (asBool right) fun _ => ok _
    | false => exact ok _
  | or =>
    refine bind (asBool left) fun b => ?_
    cases b with
    | true => exact ok _
    | false => exact bind (asBool right) fun _ => ok _
  | add => exact plus left right
  | _ => exact bind (onNumbers _ left right) fun _ => ok _

theorem rangeItems (first last : Int) : Ordinary (Machine.rangeItems first last) := by
  unfold Machine.rangeItems
  dsimp only
  split
  · exact error rfl
  · exact ok _

/-! ## Places inside values -/

theorem slot (length : Nat) (index : Value) : Ordinary (Machine.slot length index) := by
  refine bind (asNumber index) fun x => ?_
  cases Number.index? x length with
  | some i => exact ok i
  | none => exact error rfl

variable (store : Store)

theorem readIndex (target index : Value) : Ordinary (Machine.readIndex store target index) := by
  cases target with
  | arr id => exact bind (slot _ index) fun _ => ok _
  | str s => exact bind (slot _ index) fun _ => ok _
  | obj id => exact bind (asKey index) fun _ => ok _
  | _ => exact error rfl

theorem writeIndex (target index value : Value) :
    Ordinary (Machine.writeIndex store target index value) := by
  cases target with
  | arr id => exact bind (slot _ index) fun _ => ok _
  | obj id => exact bind (asKey index) fun _ => ok _
  | _ => exact error rfl

theorem readProperty (target : Value) (name : String) :
    Ordinary (Machine.readProperty store target name) := by
  cases target with
  | obj id => exact ok _
  | arr id | str s =>
    unfold Machine.readProperty
    dsimp only
    split
    · exact ok _
    · exact error rfl
  | _ => exact error rfl

theorem writeProperty (target : Value) (name : String) (value : Value) :
    Ordinary (Machine.writeProperty target name value) := by
  cases target with
  | obj id => exact ok _
  | _ => exact error rfl

/-! ## Names -/

theorem readName (env : Env) (name : String) : Ordinary (Machine.readName store env name) := by
  unfold Machine.readName
  split
  · exact ok _
  · exact error rfl

theorem writeName (env : Env) (name : String) (value : Value) :
    Ordinary (Machine.writeName store env name value) := by
  unfold Machine.writeName
  split
  · split
    · exact ok _
    · exact error rfl
  · exact error rfl

theorem defineName (env : Env) (name : String) (binding : Binding) :
    Ordinary (Machine.defineName store env name binding) := by
  unfold Machine.defineName
  split
  · exact error rfl
  · exact ok _

theorem bindParams (frame : Frame) (params : List String) (args : List Value) :
    Ordinary (Machine.bindParams frame params args) := by
  induction params generalizing frame args with
  | nil => exact ok frame
  | cons param rest ih =>
    unfold Machine.bindParams
    split
    · exact error rfl
    · exact ih _ _

end Ordinary

end Machine

end ScriptLab
