import ScriptLab.Proofs.Machine.Discipline
import ScriptLab.Proofs.Number.Whole

/-!
# Indexing

Arrays and strings have elements: items, and characters. The length counts them, a double denotes one of
them if it is its number, counted from zero, and writing puts another item there and changes nothing else.
-/

namespace ScriptLab

/-- The elements of an array or a string, in order. Those of a string are its characters, each as a
string of its own. -/
def Store.elements? (store : Store) : Value → Option (List Value)
  | .arr id => some (store.items id).toList
  | .str s => some (s.toList.map fun c => .str (String.singleton c))
  | _ => none

namespace Machine

open Number (value?)
open Program
open Text (Pos)

variable {ω : Type}

section Elements

variable {store : Store} {v w : Value} {elements : List Value} {x : Float} {n id length : Nat}

/-! ## Places -/

theorem slot_eq (length : Nat) (x : Float) :
    slot length (.num x) =
      match Number.index? x length with
      | some i => .ok i
      | none => .error (.outOfRange x length) := by
  change (match Number.index? x length with
    | some i => (pure i : Except Cause Nat)
    | none => throw (Cause.outOfRange x length)) = _
  cases Number.index? x length <;> rfl

theorem slot_of_value? (hx : value? x = some (n : ℚ)) (hn : n < length) :
    slot length (.num x) = .ok n := by
  rw [slot_eq, Number.index?_eq_some_iff.2 ⟨hx, hn⟩]

theorem slot_outOfRange (hx : ∀ n < length, value? x ≠ some (n : ℚ)) :
    slot length (.num x) = .error (.outOfRange x length) := by
  have hnone : Number.index? x length = none := by
    cases hindex : Number.index? x length with
    | none => rfl
    | some n =>
      obtain ⟨hvalue, hn⟩ := Number.index?_eq_some_iff.1 hindex
      exact absurd hvalue (hx n hn)
  rw [slot_eq, hnone]

/-! ## Reading -/

theorem readProperty_len (h : store.elements? v = some elements) :
    readProperty store v "len" = .ok (.num (Number.ofNat elements.length)) := by
  cases v <;> cases h
  case arr id => rfl
  case str s =>
    rw [List.length_map, String.length_toList]
    rfl

theorem readIndex_of_value? (h : store.elements? v = some elements) (hx : value? x = some (n : ℚ))
    (hn : n < elements.length) : readIndex store v (.num x) = .ok elements[n] := by
  have hslot := slot_of_value? hx hn
  cases v <;> cases h
  case arr id =>
    rw [Array.length_toList] at hslot
    rw [readIndex, hslot, Array.getElem_toList]
    exact congrArg Except.ok (Array.getElem_eq_getD Value.null).symm
  case str s =>
    rw [List.length_map] at hn
    rw [List.length_map, String.length_toList] at hslot
    rw [readIndex, hslot, List.getElem_map, String.singleton_eq_ofList]
    change Except.ok (Value.str (String.ofList s.toList[n]?.toList)) = _
    rw [List.getElem?_eq_getElem hn, Option.toList_some]

theorem readIndex_outOfRange (h : store.elements? v = some elements)
    (hx : ∀ n < elements.length, value? x ≠ some (n : ℚ)) :
    readIndex store v (.num x) = .error (.outOfRange x elements.length) := by
  have hslot := slot_outOfRange hx
  cases v <;> cases h
  case arr id =>
    rw [Array.length_toList] at hslot ⊢
    rw [readIndex, hslot]
    rfl
  case str s =>
    rw [List.length_map, String.length_toList] at hslot ⊢
    rw [readIndex, hslot]
    rfl

/-- Counting from zero reads the elements one after the other. -/
theorem readIndex_ofNat (h : store.elements? v = some elements) (hmax : elements.length ≤ 2 ^ 53)
    (hn : n < elements.length) :
    readIndex store v (.num (Number.ofNat n)) = .ok elements[n] :=
  readIndex_of_value? h (Number.value?_ofNat (by omega)) hn

/-! ## Writing -/

theorem writeIndex_of_value? (h : store.elements? (.arr id) = some elements)
    (hx : value? x = some (n : ℚ)) (hn : n < elements.length) (w : Value) :
    writeIndex store (.arr id) (.num x) w = .ok (.item id n w) := by
  cases h
  have hslot := slot_of_value? hx hn
  rw [Array.length_toList] at hslot
  rw [writeIndex, hslot]
  rfl

theorem writeIndex_outOfRange (h : store.elements? (.arr id) = some elements)
    (hx : ∀ n < elements.length, value? x ≠ some (n : ℚ)) (w : Value) :
    writeIndex store (.arr id) (.num x) w = .error (.outOfRange x elements.length) := by
  cases h
  have hslot := slot_outOfRange hx
  rw [Array.length_toList] at hslot ⊢
  rw [writeIndex, hslot]
  rfl

theorem items_setItem (store : Store) (id n : Nat) (w : Value) (other : Nat) :
    (store.setItem id n w).items other =
      if other = id then (store.items id).setIfInBounds n w else store.items other := by
  simp only [Store.setItem, Store.items, Array.getD_eq_getD_getElem?, Array.getElem?_modify]
  split
  next heq =>
    subst heq
    rw [if_pos rfl]
    cases store.arrays[id]? <;> simp
  next hne => rw [if_neg (Ne.symm hne)]

/-- A store in which the item of an array at an index is another one, and nothing else is. The array is
the same one wherever it is used. -/
structure Rewritten (id : Nat) (x : Float) (w : Value) (before after : Store) : Prop where
  items : ∃ n : Nat, value? x = some (n : ℚ) ∧
    after.items id = (before.items id).setIfInBounds n w
  written : readIndex after (.arr id) (.num x) = .ok w
  others : ∀ y, value? y ≠ value? x →
    readIndex after (.arr id) (.num y) = readIndex before (.arr id) (.num y)
  length : readProperty after (.arr id) "len" = readProperty before (.arr id) "len"
  arrays : ∀ other ≠ id, after.items other = before.items other
  arrays_size : after.arrays.size = before.arrays.size
  objects : after.objects = before.objects
  callables : after.callables = before.callables
  frames : after.frames = before.frames

theorem elements?_setItem (h : store.elements? (.arr id) = some elements) (n : Nat) (w : Value) :
    (store.setItem id n w).elements? (.arr id) = some (elements.set n w) := by
  cases h
  rw [Store.elements?, items_setItem, if_pos rfl, Array.toList_setIfInBounds]

/-- Every other double reads the same as before, or is refused as before. -/
theorem readIndex_setItem_of_ne (h : store.elements? (.arr id) = some elements)
    (hx : value? x = some (n : ℚ)) (w : Value) {y : Float} (hy : value? y ≠ value? x) :
    readIndex (store.setItem id n w) (.arr id) (.num y) = readIndex store (.arr id) (.num y) := by
  have hafter := elements?_setItem h n w
  have hlength : (elements.set n w).length = elements.length := List.length_set
  by_cases hplace : ∃ k < elements.length, value? y = some (k : ℚ)
  · obtain ⟨k, hk, hvalue⟩ := hplace
    have hne : n ≠ k := by
      rintro rfl
      exact hy (hvalue.trans hx.symm)
    rw [readIndex_of_value? hafter hvalue (by omega), readIndex_of_value? h hvalue hk,
      List.getElem_set_of_ne hne]
  · have hnone : ∀ k < elements.length, value? y ≠ some (k : ℚ) := by
      simpa using hplace
    rw [readIndex_outOfRange h hnone, readIndex_outOfRange hafter (by rwa [hlength]), hlength]

theorem rewritten_setItem (h : store.elements? (.arr id) = some elements)
    (hx : value? x = some (n : ℚ)) (hn : n < elements.length) (w : Value) :
    Rewritten id x w store (store.setItem id n w) := by
  have hafter := elements?_setItem h n w
  have hlength : (elements.set n w).length = elements.length := List.length_set
  exact {
    items := ⟨n, hx, by rw [items_setItem, if_pos rfl]⟩
    written := by rw [readIndex_of_value? hafter hx (by omega), List.getElem_set_self]
    others := fun y hy => readIndex_setItem_of_ne h hx w hy
    length := by rw [readProperty_len h, readProperty_len hafter, hlength]
    arrays := fun other hother => by rw [items_setItem, if_neg hother]
    arrays_size := Array.size_modify
    objects := rfl
    callables := rfl
    frames := rfl }

end Elements

/-! ## Expressions and assignments -/

namespace Evaluators

variable (s : Setting ω) (e : Evaluators ω) {target index value : Expr} {env : Env} {calls : Nat}
  {o p q r : Progress ω} {v i w : Value}

theorem onExpr_index (pos : Pos) (htarget : e.expr target env calls p = .ok v q)
    (hindex : e.expr index env calls q = .ok i r) :
    e.onExpr s (.index pos target index) env calls p = lookup pos (readIndex · v i) r :=
  (bind_of_ok htarget _).trans (bind_of_ok hindex _)

theorem onExpr_prop (pos : Pos) (name : String) (htarget : e.expr target env calls p = .ok v q) :
    e.onExpr s (.prop pos target name) env calls p = lookup pos (readProperty · v name) q :=
  bind_of_ok htarget _

theorem perform_assign_index (place pos : Pos) (hvalue : e.expr value env calls o = .ok w p)
    (htarget : e.expr target env calls p = .ok v q)
    (hindex : e.expr index env calls q = .ok i r) :
    e.perform s (.assign place (.index pos target index) .set value) env calls o =
      match writeIndex r.store v i w with
      | .ok edit => .ok (.next none) { r with store := r.store.edit edit }
      | .error cause => .error (.fault ⟨cause, pos⟩) r := by
  have hwrite : e.write (.index pos target index) w env calls p =
      update pos (writeIndex · v i w) r :=
    (bind_of_ok htarget _).trans (bind_of_ok hindex _)
  refine (bind_of_ok hvalue _).trans ?_
  change (e.write (.index pos target index) w env calls >>= fun _ => pure (Flow.next none)) p = _
  rw [bind_apply, hwrite, update_apply]
  cases writeIndex r.store v i w <;> rfl

end Evaluators

/-- Indexing, the length and writing agree. Take the state that evaluating a target and an index leaves,
and the elements that the target has there. Its length is their number, there as in any state, and counting
to the length reads them in order, as far as doubles count without gaps. A double reads the element whose number it is, and
none if it is no such number: not for a fraction, an infinity, or what is not a number. An assignment to an
array accepts the same doubles. It replaces this one item, and nothing else. What is refused is out of
range and changes nothing. -/
theorem indexing_agrees (s : Setting ω) (e : Evaluators ω) {target index : Expr} {env : Env}
    {calls : Nat} {p q r : Progress ω} {v : Value} {x : Float} {elements : List Value} (pos : Pos)
    (htarget : e.expr target env calls p = .ok v q)
    (hindex : e.expr index env calls q = .ok (.num x) r)
    (helements : r.store.elements? v = some elements) :
    (∀ found, q.store.elements? v = some found →
      e.onExpr s (.prop pos target "len") env calls p =
        .ok (.num (Number.ofNat found.length)) q) ∧
    (lookup pos (readProperty · v "len") r = .ok (.num (Number.ofNat elements.length)) r ∧
      (elements.length ≤ 2 ^ 53 →
        value? (Number.ofNat elements.length) = some (elements.length : ℚ) ∧
        ∀ n (hn : n < elements.length),
          lookup pos (readIndex · v (.num (Number.ofNat n))) r = .ok elements[n] r)) ∧
    (∀ n (hn : n < elements.length), value? x = some (n : ℚ) →
      e.onExpr s (.index pos target index) env calls p = .ok elements[n] r) ∧
    ((∀ n < elements.length, value? x ≠ some (n : ℚ)) →
      e.onExpr s (.index pos target index) env calls p =
        .error (.fault ⟨.outOfRange x elements.length, pos⟩) r) ∧
    ∀ id, v = .arr id → ∀ (place : Pos) (value : Expr) (w : Value) (o : Progress ω),
      e.expr value env calls o = .ok w p →
      ((∃ n < elements.length, value? x = some (n : ℚ)) → ∃ after,
        e.perform s (.assign place (.index pos target index) .set value) env calls o =
          .ok (.next none) { r with store := after } ∧ Rewritten id x w r.store after) ∧
      ((∀ n < elements.length, value? x ≠ some (n : ℚ)) →
        e.perform s (.assign place (.index pos target index) .set value) env calls o =
          .error (.fault ⟨.outOfRange x elements.length, pos⟩) r) := by
  refine ⟨fun found hfound => ?_, ⟨?_, fun hmax => ⟨Number.value?_ofNat hmax, fun n hn => ?_⟩⟩,
    fun n hn hx => ?_, fun hx => ?_, ?_⟩
  · rw [e.onExpr_prop s pos "len" htarget, lookup_apply, readProperty_len hfound]
  · rw [lookup_apply, readProperty_len helements]
  · rw [lookup_apply, readIndex_ofNat helements hmax hn]
  · rw [e.onExpr_index s pos htarget hindex, lookup_apply, readIndex_of_value? helements hx hn]
  · rw [e.onExpr_index s pos htarget hindex, lookup_apply, readIndex_outOfRange helements hx]
  · rintro id rfl place value w o hvalue
    rw [e.perform_assign_index s place pos hvalue htarget hindex]
    constructor
    · rintro ⟨n, hn, hx⟩
      refine ⟨r.store.setItem id n w, ?_, rewritten_setItem helements hx hn w⟩
      rw [writeIndex_of_value? helements hx hn]
      rfl
    · intro hx
      rw [writeIndex_outOfRange helements hx]

/-- In `a[i] = a` the array is put into itself, at the index minus zero. -/
theorem indexing_agrees_minus_zero :
    let s : Setting Unit := ⟨{}, none, fun _ _ => (), 0⟩
    let e : Evaluators Unit := ⟨runWithin s 1, evalWithin s 1⟩
    let a : Expr := .ident .start "a"
    let env : Env := ⟨0, []⟩
    let p : Progress Unit :=
      ⟨{ arrays := #[#[.null, .null]], frames := #[[("a", ⟨.arr 0, false⟩)]] }, 0, [], 0, 0, false, false⟩
    e.expr a env 0 p = .ok (.arr 0) p ∧ e.expr (.num .start (-0.0)) env 0 p = .ok (.num (-0.0)) p ∧
      p.store.elements? (.arr 0) = some [.null, .null] ∧ value? (-0.0) = some (0 : ℚ) ∧
      e.onExpr s (.index .start a (.num .start (-0.0))) env 0 p = .ok .null p ∧
      ∃ after, e.perform s (.assign .start (.index .start a (.num .start (-0.0))) .set a) env 0 p =
        .ok (.next none) { p with store := after } ∧ Rewritten 0 (-0.0) (.arr 0) p.store after := by
  intro s e a env p
  have ha : e.expr a env 0 p = .ok (.arr 0) p := by rfl
  have hzero : e.expr (.num .start (-0.0)) env 0 p = .ok (.num (-0.0)) p := by rfl
  have helements : p.store.elements? (.arr 0) = some [.null, .null] := by rfl
  have hform : Number.form (-0.0) = .finite true 0 (-1074) := by decide +kernel
  have hvalue : value? (-0.0) = some ((0 : Nat) : ℚ) := by
    rw [value?, hform]
    simp [Number.Form.value?]
  obtain ⟨-, -, hread, -, hwrite⟩ := indexing_agrees s e .start ha hzero helements
  exact ⟨ha, hzero, helements, hvalue, hread 0 (by decide) hvalue,
    (hwrite 0 rfl .start a (.arr 0) p ha).1 ⟨0, by decide, hvalue⟩⟩

end Machine

end ScriptLab
