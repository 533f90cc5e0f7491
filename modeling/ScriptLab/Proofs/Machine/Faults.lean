import ScriptLab.Proofs.Machine.Termination
import ScriptLab.Proofs.Program.Joining
import ScriptLab.Proofs.Program.Parts

/-!
# Where runs fail

All that a run evaluates is part of its program: the bodies of the functions that it calls were
written there too. So a run fails at one of the parts of its program, and since the parser assigns to
nothing but places, never as malformed programs do.
-/

namespace ScriptLab.Machine

open Program
open Text (Pos)

variable {ω : Type}

/-! ## Parts of a program -/

namespace Occurs

variable {c d p : Part}

theorem child (h : c ∈ p.children) : Occurs c p :=
  .inside h .here

theorem trans (hc : Occurs c d) (hd : Occurs d p) : Occurs c p := by
  induction hd with
  | here => exact hc
  | inside hchild _ ih => exact .inside hchild ih

/-- What holds throughout a part holds throughout all that occurs in it. -/
theorem throughout {P : Part → Prop} (hc : Occurs c p) (hp : p.Throughout P) :
    c.Throughout P := by
  induction hc with
  | here => exact hp
  | inside hchild _ ih =>
      cases hp with
      | intro _ inside => exact ih (inside _ hchild)

theorem of_evaluated {x : Stmt} (h : c ∈ Discipline.evaluated x) : Occurs c (.stmt x) := by
  cases x with
  | assign pos target op value =>
      rcases List.mem_append.1 h with h | h
      · exact .child h
      · exact (child h).trans (child List.mem_cons_self)
  | _ => exact .child h

theorem of_partsInside {looped : Bool} {d : Bool × Part} (h : d ∈ partsInside looped p) :
    Occurs d.2 p := by
  cases p with
  | stmt x => exact of_evaluated (mem_evaluated_of_partsInside h)
  | expr x => exact .child (mem_children_of_partsInside h)

end Occurs

/-- A statement or an expression of a program. -/
def PartOf (program : List Stmt) (c : Part) : Prop :=
  ∃ x ∈ program, Occurs c (.stmt x)

theorem PartOf.inside {program : List Stmt} {c d : Part} (h : PartOf program d)
    (hc : Occurs c d) : PartOf program c := by
  obtain ⟨x, hx, hd⟩ := h
  exact ⟨x, hx, hc.trans hd⟩

/-- The parser assigns to nothing but places. -/
theorem isPlace_of_parse {dialect : Dialect} {code : String} {program : List Stmt}
    (h : parse dialect code = .ok program) {pos : Pos} {target value : Expr} {op : AssignOp}
    (hpart : PartOf program (.stmt (.assign pos target op value))) : target.isPlace = true := by
  obtain ⟨body, _, -, -, hderives, -⟩ := derivesStmts_of_parse h
  have hwritten : AllWritten (fun _ => True) (Part.ofStmts program) :=
    hderives.parts fun _ _ => trivial
  obtain ⟨x, hx, hoccurs⟩ := hpart
  have hall := hoccurs.throughout (hwritten _ (List.mem_map_of_mem hx))
  exact hall.here.place pos target op value rfl

/-! ## Faults of a run -/

theorem kind_of_isOrdinary {cause : Cause} (h : cause.isOrdinary = true) :
    cause.kind ≠ .malformed := by
  cases cause with
  | mismatch | noProperty | alreadyDefined | undefinedName | immutable | stepsExceeded
  | callsExceeded | rangeTooLong | outOfRange | raised => nofun
  | _ => cases h

/-- A fault of a run of a program: it stands at a part of the program, and is not that of a malformed
one. -/
structure Arises (program : List Stmt) (fault : Fault) : Prop where
  kind : fault.kind ≠ .malformed
  part : ∃ c, PartOf program c ∧ fault.pos = c.pos

/-- All that is evaluated is part of the program, and so is every body of a function. This is about a
single run, so that nothing moves. -/
def confined (s : Setting ω) {program : List Stmt}
    (hplaces : ∀ {pos target op value}, PartOf program (.stmt (.assign pos target op value)) →
      target.isPlace = true) : Accord s where
  shift := .none
  Same _ _ := True
  Valid := EachBody fun x => PartOf program (.stmt x)
  Scope _ := True
  Allowed _ _ _ c := PartOf program c
  Control _ := True
  Stops halt := ∀ fault, halt = .fault fault → Arises program fault
  record _ _ := trivial
  heap h hcallables _ := h.of_callables hcallables
  newFrame _ h := h.of_callables rfl
  scope _ _ := trivial
  define h _ _ := h.of_callables (callables_edit _ _)
  assign h _ _ := h.of_callables (callables_edit _ _)
  closure h hfn := by
    refine h.newCallable ?_
    rintro _ _ _ ⟨⟩ x hx
    exact hfn.inside (.child (List.mem_map_of_mem hx))
  known h hid _ _ _ _ _ _ := h _ _ _ (Array.mem_of_getElem? hid)
  inside hc _ hd := hc.inside (.of_partsInside hd)
  leave _ := trivial
  again _ := trivial
  exhausted _ _ h := nomatch h
  endless _ _ h := nomatch h
  aborted _ h := nomatch h
  crashed _ _ h := nomatch h
  fault hc cause hcause := by
    rintro _ ⟨⟩
    exact ⟨kind_of_isOrdinary hcause, _, hc, rfl⟩
  misplaced hc hplace := absurd (hplaces hc) (by simp [hplace])
  stray hc _ := by
    rintro _ ⟨⟩
    exact ⟨nofun, _, hc, rfl⟩

theorem Accord.Agree.stops_of_failed {s : Setting ω} {A : Accord s} {J : Flow → Flow → Prop}
    {R : Option Value → Option Value → Prop} {r r' : EStateM.Result Halt (Progress ω) (Option Value)}
    (h : A.Agree J R r r') {fault : Fault} (hfailed : endingOf r = .failed fault) :
    A.Stops (.fault fault) := by
  cases h with
  | ok => cases hfailed
  | error hhalt =>
      cases hhalt with
      | fault hstops =>
          cases hfailed
          exact hstops
      | aborted | crashed | exhausted | jump => cases hfailed

theorem Ending.failed_of_moved {σ : Shift} {ending : Ending} {fault : Fault}
    (h : ending.moved σ = .failed fault) : ending = .failed fault := by
  cases ending with
  | finished => cases h
  | _ => exact h

namespace Interpreter

/-- A run whose program an accord allows fails no other way than the accord says. -/
theorem stops_of_run (i : Interpreter) {interruption : Option Interruption}
    {record : Store → Value → ω} (A : Accord (i.setting interruption record))
    (hshift : A.shift = .none) {store : Store} (hvalid : A.Valid (store.newFrame []).2)
    (hscope : A.Scope ⟨(store.newFrame []).1, [i.globals]⟩) {program : List Stmt}
    (hallowed : ∀ x ∈ program, A.Allowed (budget i.limits) 0 false (.stmt x)) {fault : Fault}
    (h : (i.run interruption record store program).ending = .failed fault) :
    A.Stops (.fault fault) := by
  rcases Bool.eq_false_or_eq_true i.aborted with ha | ha
  · rw [run_of_aborted ha] at h
    cases h
  · have hagree := A.program (J := fun _ _ => False) (budget i.limits) hallowed none hscope
      { store := (store.newFrame []).2 } { store := (store.newFrame []).2 } hvalid
      ⟨_, [], by rw [hshift]; exact .refl _, .nil, rfl⟩
    rw [run_eq_conclude ha] at h
    exact hagree.stops_of_failed h

/-- A run that fails fails in the same way as in a new store, where there are no functions but the
provided ones. -/
theorem Holds.failed_in_stock {i : Interpreter} {store : Store} (hstore : i.Holds store)
    {program : List Stmt} {interruption : Option Interruption} {record : Store → Value → ω}
    {fault : Fault} (h : (i.run interruption record store program).ending = .failed fault) :
    (({ i with globals := 0 } : Interpreter).run interruption record stock program).ending =
      .failed fault := by
  obtain ⟨first, hstocked⟩ := hstore.stocked
  have halike := (i.run_alike hstocked (fun _ _ => True) interruption record
    (fun _ _ => trivial) program).1.ending
  rw [halike] at h
  exact Ending.failed_of_moved h

/-- A run fails at a part of its program, where all functions were written in the program. -/
theorem arises_of_confined (i : Interpreter) {store : Store} {program : List Stmt}
    (hstore : EachBody (fun x => PartOf program (.stmt x)) store)
    (hplaces : ∀ {pos target op value}, PartOf program (.stmt (.assign pos target op value)) →
      target.isPlace = true)
    (interruption : Option Interruption) (record : Store → Value → ω) {fault : Fault}
    (h : (i.run interruption record store program).ending = .failed fault) :
    Arises program fault :=
  i.stops_of_run (confined (i.setting interruption record) hplaces) rfl (hstore.of_callables rfl)
    trivial (fun x hx => ⟨x, hx, .here⟩) h fault rfl

/-- A run fails at a part of its program, whatever was run before it. -/
theorem Holds.arises {i : Interpreter} {store : Store} (hstore : i.Holds store)
    {dialect : Dialect} {code : String} {program : List Stmt}
    (hparse : parse dialect code = .ok program) (interruption : Option Interruption)
    (record : Store → Value → ω) {fault : Fault}
    (h : (i.run interruption record store program).ending = .failed fault) :
    Arises program fault :=
  arises_of_confined { i with globals := 0 } (eachBody_stock _) (isPlace_of_parse hparse)
    interruption record (hstore.failed_in_stock h)

end Interpreter

end ScriptLab.Machine
