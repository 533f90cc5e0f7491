import Mathlib.Data.List.Forall2
import ScriptLab.Proofs.Machine.Bounds
import ScriptLab.Proofs.Machine.Causes
import ScriptLab.Proofs.Value.Rendering

/-!
# Runs in accord

A program is run twice, the second time in a store that holds the first one, moved. Up to the places
the two runs do the same. An accord says what holds of stores and scopes on the way, what may be
evaluated, and how the runs may stop; what is proved here once is that every evaluation keeps it.
Where nothing moves the two runs are one, and an accord is about a single run.
-/

namespace ScriptLab.Machine

open Program
open Text (Pos)

variable {ω : Type} {α β : Type}

/-- States of two runs that differ in nothing but the places in their stores, and in how the outputs
are recorded. -/
def Twin (σ : Shift) (Same : ω → ω → Prop) (p p' : Progress ω) : Prop :=
  ∃ store outputs, Shifted σ p.store store ∧ List.Forall₂ Same p.outputs outputs ∧
    p' = { p with store, outputs }

/-- What is inside a part, and whether it is inside a loop of the same function. The parts of a place
that is assigned to are evaluated apart from it. -/
def partsInside (looped : Bool) : Part → List (Bool × Part)
  | .stmt (.loop _ body) => body.map fun x => (true, .stmt x)
  | .stmt (.each _ _ items body) => (looped, .expr items) :: body.map fun x => (true, .stmt x)
  | .stmt (.count _ _ times body) => (looped, .expr times) :: body.map fun x => (true, .stmt x)
  | .stmt x => (Discipline.evaluated x).map (looped, ·)
  | .expr (.fn _ _ body) => body.map fun x => (false, .stmt x)
  | .expr x => (Part.expr x).children.map (looped, ·)

/-- What two runs of a program have in common, and how far the second one is moved. -/
structure Accord (s : Setting ω) where
  shift : Shift
  /-- How the records of one output compare. -/
  Same : ω → ω → Prop
  /-- What holds of the store of the first run. -/
  Valid : Store → Prop
  /-- What holds of the scopes in which something is evaluated. -/
  Scope : Env → Prop
  /-- What may be evaluated, by the evaluations that may still be opened, the calls that are open, and
  whether it is inside a loop. -/
  Allowed : Nat → Nat → Bool → Part → Prop
  /-- Whether loop control may come out of what is inside a loop, or outside of all. -/
  Control : Bool → Prop
  /-- How the runs may stop. -/
  Stops : Halt → Prop
  record : ∀ {store store' : Store}, Shifted shift store store' → ∀ v,
    Same (s.record store v) (s.record store' (shift.value v))
  heap : ∀ {store after : Store}, Valid store → after.callables = store.callables →
    after.frames = store.frames → Valid after
  newFrame : ∀ {store : Store} (bindings : Frame), Valid store → Valid (store.newFrame bindings).2
  scope : ∀ {store : Store} (outer : List Nat), Valid store → Scope ⟨store.frames.size, outer⟩
  define : ∀ {store : Store} {env : Env} {name : String} {binding : Binding} {edit : Store.Edit},
    Valid store → Scope env → defineName store env name binding = .ok edit →
      Valid (store.edit edit)
  assign : ∀ {store : Store} {env : Env} {name : String} {value : Value} {edit : Store.Edit},
    Valid store → Scope env → writeName store env name value = .ok edit → Valid (store.edit edit)
  closure : ∀ {store : Store} {env : Env} {n calls : Nat} {looped : Bool} {pos : Pos}
    {params : List String} {body : List Stmt}, Valid store →
    Allowed n calls looped (.expr (.fn pos params body)) →
      Valid (store.newCallable (.closure params body env)).2
  /-- The body of a function in the store may be evaluated in a call. -/
  known : ∀ {store : Store} {id : Nat} {params : List String} {body : List Stmt} {env : Env},
    Valid store → store.callables[id]? = some (.closure params body env) →
      ∀ {n calls : Nat} {looped : Bool} {c : Part}, Allowed (n + 1) calls looped c →
        calls < s.limits.maxCalls → ∀ x ∈ body, Allowed n (calls + 1) false (.stmt x)
  inside : ∀ {n calls : Nat} {looped : Bool} {c : Part}, Allowed (n + 1) calls looped c →
    ∀ d ∈ partsInside looped c, Allowed n calls d.1 d.2
  leave : ∀ {n calls : Nat} {looped : Bool} {pos : Pos},
    Allowed n calls looped (.stmt (.leave pos)) → Control looped
  again : ∀ {n calls : Nat} {looped : Bool} {pos : Pos},
    Allowed n calls looped (.stmt (.again pos)) → Control looped
  exhausted : ∀ {calls : Nat} {looped : Bool} {c : Part}, Allowed 0 calls looped c →
    Stops .exhausted
  endless : ∀ {n calls : Nat} {looped : Bool} {pos : Pos} {body : List Stmt},
    Allowed n calls looped (.stmt (.loop pos body)) → Stops .exhausted
  aborted : Stops .aborted
  crashed : ∀ message, Stops (.crashed message)
  fault : ∀ {n calls : Nat} {looped : Bool} {c : Part}, Allowed n calls looped c →
    ∀ cause : Cause, cause.isOrdinary = true → Stops (.fault ⟨cause, c.pos⟩)
  misplaced : ∀ {n calls : Nat} {looped : Bool} {pos : Pos} {target value : Expr} {op : AssignOp},
    Allowed n calls looped (.stmt (.assign pos target op value)) → target.isPlace = false →
      Stops (.fault ⟨.notAPlace, target.pos⟩)
  stray : ∀ {n calls : Nat} {looped : Bool} {c : Part}, Allowed n calls looped c →
    Control false → Stops (.fault ⟨.strayLoopControl, c.pos⟩)

/-- What a function does, as a relation. -/
abbrev Maps (f : α → α) (a a' : α) : Prop :=
  a' = f a

/-! ## States without their stores -/

/-- A result with another store and other outputs. -/
def beside (store : Store) (outputs : List ω) :
    EStateM.Result Halt (Progress ω) α → EStateM.Result Halt (Progress ω) α
  | .ok a p => .ok a { p with store, outputs }
  | .error halt p => .error halt { p with store, outputs }

/-- An action that changes neither the store nor the outputs, and looks at nothing of them but how
many outputs there are. -/
def Blind (m : Eval ω α) : Prop :=
  ∀ (p : Progress ω) (store : Store) (outputs : List ω), outputs.length = p.outputs.length →
    m { p with store, outputs } = beside store outputs (m p)

theorem Blind.still {m : Eval ω α} (h : Blind m) (p : Progress ω) :
    (lastState (m p)).store = p.store ∧ (lastState (m p)).outputs = p.outputs := by
  have hm : m p = beside p.store p.outputs (m p) := h p p.store p.outputs rfl
  rw [hm]
  cases m p <;> exact ⟨rfl, rfl⟩

namespace Setting

variable (s : Setting ω)

theorem blind_interrupt (due : Cue → Progress ω → Bool)
    (hdue : ∀ (cue : Cue) (p : Progress ω) (store : Store) (outputs : List ω),
      outputs.length = p.outputs.length → due cue { p with store, outputs } = due cue p) :
    Blind (s.interrupt due) := by
  intro p store outputs hlen
  unfold interrupt
  cases s.interruption with
  | none => rfl
  | some i =>
      dsimp only
      rw [hdue i.cue p store outputs hlen]
      split
      · cases i.effect <;> rfl
      · rfl

theorem blind_outputDue : Blind (s.interrupt outputDue) := by
  refine s.blind_interrupt _ fun cue p store outputs hlen => ?_
  cases cue with
  | output n =>
      change (outputs.length == n) = (p.outputs.length == n)
      rw [hlen]
  | pause | deadline => rfl

theorem blind_pause : Blind s.pause := by
  have hdue : Blind (s.interrupt pauseDue) := by
    refine s.blind_interrupt _ fun cue p store outputs _ => ?_
    cases cue <;> rfl
  intro p store outputs hlen
  have h := hdue { p with pauses := p.pauses + 1 } store outputs hlen
  rw [pause_apply, pause_apply]
  dsimp only at h ⊢
  rw [h]
  cases s.interrupt pauseDue { p with pauses := p.pauses + 1 } with
  | ok a q =>
      dsimp only [beside]
      split <;> rfl
  | error halt q => rfl

theorem blind_sleep (millis : Nat) : Blind (s.sleep millis) := by
  intro p store outputs hlen
  rw [sleep_apply, sleep_apply]
  dsimp only
  split
  · rfl
  · exact s.blind_pause { p with asleep := p.asleep + 1000 * millis } store outputs hlen

theorem blind_step (pos : Pos) : Blind (s.step pos) := by
  intro p store outputs hlen
  rw [step_apply, step_apply]
  dsimp only
  split
  · rfl
  split
  · rfl
  split
  · exact s.blind_pause { p with steps := p.steps + 1 } store outputs hlen
  · rfl

theorem interrupt_error {due : Cue → Progress ω → Bool} {p q : Progress ω} {halt : Halt}
    (h : s.interrupt due p = .error halt q) : ∃ message, halt = .crashed message := by
  unfold interrupt at h
  split at h
  · cases h
  · split at h
    · split at h
      · cases h
      · next message _ =>
          cases h
          exact ⟨message, rfl⟩
      · cases h
    · cases h

theorem pause_error {p q : Progress ω} {halt : Halt} (h : s.pause p = .error halt q) :
    halt = .aborted ∨ ∃ message, halt = .crashed message := by
  rw [pause_apply] at h
  split at h
  · split at h
    · cases h
      exact .inl rfl
    · cases h
  · next hint =>
      cases h
      exact .inr (s.interrupt_error hint)

end Setting

theorem blind_checkAborted : Blind (checkAborted : Eval ω Unit) := by
  intro p store outputs _
  rw [checkAborted_apply, checkAborted_apply]
  dsimp only
  split <;> rfl

namespace Accord

variable {s : Setting ω} (A : Accord s)

/-! ## Results -/

/-- How a statement may end in the two runs. -/
inductive Flows (looped : Bool) : Flow → Flow → Prop
  | next (value : Option Value) : Flows looped (.next value) (.next (value.map A.shift.value))
  | back (value : Value) : Flows looped (.back value) (.back (A.shift.value value))
  | leave (h : A.Control looped) : Flows looped .leave .leave
  | again (h : A.Control looped) : Flows looped .again .again

/-- How an evaluation may stop in the two runs, with the jumps in a relation. -/
inductive Halts (J : Flow → Flow → Prop) : Halt → Halt → Prop
  | fault {f : Fault} (h : A.Stops (.fault f)) : Halts J (.fault f) (.fault f)
  | aborted : Halts J .aborted .aborted
  | crashed (message : Option String) : Halts J (.crashed message) (.crashed message)
  | exhausted (h : A.Stops .exhausted) : Halts J .exhausted .exhausted
  | jump {flow flow' : Flow} (h : J flow flow') : Halts J (.jump flow) (.jump flow')

/-- Results of the two runs, with the values and the jumps in relations. -/
inductive Agree (J : Flow → Flow → Prop) (R : α → α → Prop) :
    EStateM.Result Halt (Progress ω) α → EStateM.Result Halt (Progress ω) α → Prop
  | ok {a a' : α} {p p' : Progress ω} (ha : R a a') (hp : A.Valid p.store)
      (h : Twin A.shift A.Same p p') : Agree J R (.ok a p) (.ok a' p')
  | error {halt halt' : Halt} {p p' : Progress ω} (hhalt : A.Halts J halt halt')
      (hp : A.Valid p.store) (h : Twin A.shift A.Same p p') : Agree J R (.error halt p) (.error halt' p')

/-- Actions of the two runs that lead from twin states to results that agree. -/
def Keeps (J : Flow → Flow → Prop) (R : α → α → Prop) (m m' : Eval ω α) : Prop :=
  ∀ p p', A.Valid p.store → Twin A.shift A.Same p p' → A.Agree J R (m p) (m' p')

/-- A place at which every ordinary fault may occur. -/
def Faulty (pos : Pos) : Prop :=
  ∀ cause : Cause, cause.isOrdinary = true → A.Stops (.fault ⟨cause, pos⟩)

variable {A} {J : Flow → Flow → Prop} {R : α → α → Prop} {S : β → β → Prop} {pos : Pos}

/-! ## Sequencing -/

theorem pure {a a' : α} (h : R a a') : A.Keeps J R (pure a) (pure a') :=
  fun _ _ hp htwin => .ok h hp htwin

theorem throw {halt halt' : Halt} (h : A.Halts J halt halt') :
    A.Keeps J R (throw halt) (throw halt') :=
  fun _ _ hp htwin => .error h hp htwin

theorem raise {cause : Cause} (h : A.Stops (.fault ⟨cause, pos⟩)) :
    A.Keeps J R (raise cause pos) (raise cause pos) :=
  throw (.fault h)

theorem bind {m m' : Eval ω α} {f f' : α → Eval ω β} (hm : A.Keeps J R m m')
    (hf : ∀ a a', R a a' → A.Keeps J S (f a) (f' a')) :
    A.Keeps J S (m >>= f) (m' >>= f') := by
  intro p p' hp htwin
  have h := hm p p' hp htwin
  rw [bind_apply, bind_apply]
  generalize m p = r at h
  generalize m' p' = r' at h
  cases h with
  | ok ha hq hqq => exact hf _ _ ha _ _ hq hqq
  | error hhalt hq hqq => exact .error hhalt hq hqq

/-- Nothing jumps out of a statement. -/
theorem land {T : Flow → Flow → Prop} {m m' : Eval ω Flow} (hm : A.Keeps T T m m') :
    A.Keeps J T (land m) (land m') := by
  intro p p' hp htwin
  have h := hm p p' hp htwin
  rw [land_apply, land_apply]
  generalize m p = r at h
  generalize m' p' = r' at h
  cases h with
  | ok ha hq hqq => exact .ok ha hq hqq
  | error hhalt hq hqq =>
      cases hhalt with
      | jump h => exact .ok h hq hqq
      | fault h => exact .error (.fault h) hq hqq
      | aborted => exact .error .aborted hq hqq
      | crashed message => exact .error (.crashed message) hq hqq
      | exhausted h => exact .error (.exhausted h) hq hqq

/-! ## Reading and changing the store -/

theorem settle {result result' : Except Cause α} {f : α → α} (hpos : A.Faulty pos)
    (hcauses : Ordinary result) (h : result' = result.map f) :
    A.Keeps J (Maps f) (settle pos result) (settle pos result') := by
  subst h
  cases result with
  | ok a => exact pure rfl
  | error cause => exact raise (hpos cause (hcauses cause rfl))

/-- A result without places is the same in both runs. -/
theorem settle_same {result result' : Except Cause α} (hpos : A.Faulty pos)
    (hcauses : Ordinary result) (h : result' = result) :
    A.Keeps J Eq (Machine.settle pos result) (Machine.settle pos result') := by
  subst h
  cases result' with
  | ok a => exact pure rfl
  | error cause => exact raise (hpos cause (hcauses cause rfl))

theorem look {f f' : Store → α} (h : ∀ store store', A.Valid store →
    Shifted A.shift store store' → R (f store) (f' store')) :
    A.Keeps J R (look f) (look f') := by
  rintro p _ hp ⟨store, outputs, hs, ho, rfl⟩
  exact .ok (h p.store store hp hs) hp ⟨store, outputs, hs, ho, rfl⟩

theorem lookup {f f' : Store → Except Cause α} {g : α → α} (hpos : A.Faulty pos)
    (hcauses : ∀ store, Ordinary (f store))
    (h : ∀ store store', Shifted A.shift store store' → f' store' = (f store).map g) :
    A.Keeps J (Maps g) (lookup pos f) (lookup pos f') :=
  bind (R := fun r r' => Ordinary r ∧ r' = r.map g)
    (look fun store store' _ hs => ⟨hcauses store, h store store' hs⟩)
    fun _ _ hr => settle hpos hr.1 hr.2

theorem change {f f' : Store → Store}
    (h : ∀ store store', Shifted A.shift store store' → Shifted A.shift (f store) (f' store'))
    (hvalid : ∀ store, A.Valid store → A.Valid (f store)) :
    A.Keeps J (fun _ _ => True) (change f) (change f') := by
  rintro p _ hp ⟨store, outputs, hs, ho, rfl⟩
  exact .ok trivial (hvalid _ hp) ⟨f' store, outputs, h p.store store hs, ho, rfl⟩

theorem create {f f' : Store → α × Store}
    (h : ∀ store store', A.Valid store → Shifted A.shift store store' →
      R (f store).1 (f' store').1 ∧ Shifted A.shift (f store).2 (f' store').2)
    (hvalid : ∀ store, A.Valid store → A.Valid (f store).2) :
    A.Keeps J R (create f) (create f') := by
  rintro p _ hp ⟨store, outputs, hs, ho, rfl⟩
  obtain ⟨hr, hs'⟩ := h p.store store hp hs
  exact .ok hr (hvalid _ hp) ⟨(f' store).2, outputs, hs', ho, rfl⟩

theorem update {f f' : Store → Except Cause Store.Edit} (hpos : A.Faulty pos)
    (hcauses : ∀ store, Ordinary (f store))
    (h : ∀ store store', Shifted A.shift store store' →
      f' store' = (f store).map A.shift.edit)
    (hvalid : ∀ store edit, A.Valid store → f store = .ok edit → A.Valid (store.edit edit)) :
    A.Keeps J (fun _ _ => True) (update pos f) (update pos f') := by
  rintro p _ hp ⟨store, outputs, hs, ho, rfl⟩
  rw [update_apply, update_apply]
  dsimp only
  rw [h p.store store hs]
  cases hf : f p.store with
  | ok edit => exact .ok trivial (hvalid _ edit hp hf) ⟨_, outputs, hs.edit edit, ho, rfl⟩
  | error cause =>
      exact .error (.fault (hpos cause (hcauses _ cause hf))) hp ⟨store, outputs, hs, ho, rfl⟩

/-- A change of an array or an object. -/
theorem update_heap {f f' : Store → Except Cause Store.Edit} (hpos : A.Faulty pos)
    (hcauses : ∀ store, Ordinary (f store))
    (h : ∀ store store', Shifted A.shift store store' →
      f' store' = (f store).map A.shift.edit)
    (hheap : ∀ store edit, f store = .ok edit → (store.edit edit).frames = store.frames) :
    A.Keeps J (fun _ _ => True) (Machine.update pos f) (Machine.update pos f') :=
  update hpos hcauses h fun store edit hp hedit =>
    A.heap hp (callables_edit store edit) (hheap store edit hedit)

/-! ## Outputs, pauses and steps -/

theorem blind {m : Eval ω Unit} (hm : Blind m)
    (hhalt : ∀ p halt q, m p = .error halt q → A.Halts J halt halt) :
    A.Keeps J (fun _ _ => True) m m := by
  rintro p _ hp ⟨store, outputs, hs, ho, rfl⟩
  have hstill := hm.still p
  rw [hm p store outputs ho.length_eq.symm]
  cases hr : m p with
  | ok a q =>
      rw [hr] at hstill
      obtain ⟨hstore, houtputs⟩ : q.store = p.store ∧ q.outputs = p.outputs := hstill
      rw [← hstore] at hp hs
      rw [← houtputs] at ho
      exact .ok trivial hp ⟨store, outputs, hs, ho, rfl⟩
  | error halt q =>
      rw [hr] at hstill
      obtain ⟨hstore, houtputs⟩ : q.store = p.store ∧ q.outputs = p.outputs := hstill
      rw [← hstore] at hp hs
      rw [← houtputs] at ho
      exact .error (hhalt p halt q hr) hp ⟨store, outputs, hs, ho, rfl⟩

theorem check : A.Keeps J (fun _ _ => True) checkAborted checkAborted := by
  refine blind blind_checkAborted fun p halt q h => ?_
  rw [checkAborted_apply] at h
  split at h
  · cases h
    exact .aborted
  · cases h

theorem halts_of_pause {p q : Progress ω} {halt : Halt} (h : s.pause p = .error halt q) :
    A.Halts J halt halt := by
  rcases s.pause_error h with rfl | ⟨message, rfl⟩
  · exact .aborted
  · exact .crashed message

theorem sleep (millis : Nat) :
    A.Keeps J (fun _ _ => True) (s.sleep millis) (s.sleep millis) := by
  refine blind (s.blind_sleep millis) fun p halt q h => ?_
  rw [Setting.sleep_apply] at h
  split at h
  · cases h
    exact .aborted
  · exact halts_of_pause h

theorem step (hpos : A.Faulty pos) :
    A.Keeps J (fun _ _ => True) (s.step pos) (s.step pos) := by
  refine blind (s.blind_step pos) fun p halt q hq => ?_
  rcases Bounded.step_cases s pos p with h | h | h | ⟨_, h⟩
  · rw [h] at hq
    cases hq
    exact .aborted
  · rw [h] at hq
    cases hq
    exact .fault (hpos _ rfl)
  · rw [h] at hq
    exact halts_of_pause hq
  · rw [h] at hq
    cases hq

theorem emit (v : Value) :
    A.Keeps J (fun _ _ => True) (s.emit v) (s.emit (A.shift.value v)) := by
  rintro p _ hp ⟨store, outputs, hs, ho, rfl⟩
  rw [Setting.emit_apply, Setting.emit_apply]
  dsimp only
  split
  · exact .ok trivial hp ⟨store, outputs, hs, ho, rfl⟩
  · refine blind s.blind_outputDue (fun p halt q h => ?_) _ _ hp
      ⟨store, _, hs, .cons (A.record hs v) ho, rfl⟩
    obtain ⟨message, rfl⟩ := s.interrupt_error h
    exact .crashed message

end Accord

end ScriptLab.Machine
