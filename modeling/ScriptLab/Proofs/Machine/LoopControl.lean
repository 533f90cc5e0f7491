import ScriptLab.Proofs.Machine.Departures
import ScriptLab.Proofs.Machine.Faults

/-!
# Loop control in its place

Where every `break` and `continue` of a program lies inside a loop of its own function, no run of the
program comes upon one outside. For any program at all, jumps act on the loop whose body they come out
of or on the call that is open, and on nothing behind these.
-/

namespace ScriptLab.Program

mutual

/-- Whether every `break` and `continue` in a statement lies inside a loop of its own function, where
the statement itself is inside of one or not. -/
def Stmt.placed (looped : Bool) : Stmt → Bool
  | .leave _ | .again _ => looped
  | .metadata _ _ value | .define _ _ _ value | .out _ value | .back _ (some value)
  | .eval _ value => value.placed looped
  | .back _ none => true
  | .assign _ target _ value => target.placed looped && value.placed looped
  | .loop _ body => placedStmts true body
  | .each _ _ items body | .count _ _ items body => items.placed looped && placedStmts true body

/-- Whether every `break` and `continue` in an expression lies inside a loop of its own function. -/
def Expr.placed (looped : Bool) : Expr → Bool
  | .null _ | .bool .. | .num .. | .str .. | .ident .. => true
  | .arr _ items => placedExprs looped items
  | .obj _ entries => placedEntries looped entries
  | .fn _ _ body => placedStmts false body
  | .call _ callee args => callee.placed looped && placedExprs looped args
  | .index _ target index => target.placed looped && index.placed looped
  | .prop _ target _ => target.placed looped
  | .binary _ _ left right => left.placed looped && right.placed looped
  | .unary _ _ operand => operand.placed looped
  | .cond _ arms none => placedArms looped arms
  | .cond _ arms (some body) => placedArms looped arms && placedStmts looped body

def placedStmts (looped : Bool) : List Stmt → Bool
  | [] => true
  | x :: rest => x.placed looped && placedStmts looped rest

def placedExprs (looped : Bool) : List Expr → Bool
  | [] => true
  | x :: rest => x.placed looped && placedExprs looped rest

def placedEntries (looped : Bool) : List (String × Expr) → Bool
  | [] => true
  | (_, x) :: rest => x.placed looped && placedEntries looped rest

def placedArms (looped : Bool) : List (Expr × List Stmt) → Bool
  | [] => true
  | (cond, body) :: rest => cond.placed looped && placedStmts looped body && placedArms looped rest

end

/-- A program in which all loop control is inside loops. -/
def WellPlaced (program : List Stmt) : Prop :=
  placedStmts false program = true

instance (program : List Stmt) : Decidable (WellPlaced program) :=
  inferInstanceAs (Decidable (_ = true))

/-- A part in which all loop control is inside loops, where the part itself is inside of one or not. -/
def Part.Placed (looped : Bool) : Part → Prop
  | .stmt x => x.placed looped = true
  | .expr x => x.placed looped = true

theorem placedStmts_iff {looped : Bool} {body : List Stmt} :
    placedStmts looped body = true ↔ ∀ x ∈ body, (Part.stmt x).Placed looped := by
  induction body with
  | nil => simp [placedStmts]
  | cons x rest ih => simp [placedStmts, Part.Placed, ih]

theorem placedExprs_iff {looped : Bool} {items : List Expr} :
    placedExprs looped items = true ↔ ∀ x ∈ items, (Part.expr x).Placed looped := by
  induction items with
  | nil => simp [placedExprs]
  | cons x rest ih => simp [placedExprs, Part.Placed, ih]

theorem placedEntries_iff {looped : Bool} {entries : List (String × Expr)} :
    placedEntries looped entries = true ↔
      ∀ x ∈ entries.map Prod.snd, (Part.expr x).Placed looped := by
  induction entries with
  | nil => simp [placedEntries]
  | cons entry rest ih => simp [placedEntries, Part.Placed, ih]

theorem placedArms_iff {looped : Bool} {arms : List (Expr × List Stmt)} :
    placedArms looped arms = true ↔ ∀ arm ∈ arms, (Part.expr arm.1).Placed looped ∧
      ∀ x ∈ arm.2, (Part.stmt x).Placed looped := by
  induction arms with
  | nil => simp [placedArms]
  | cons arm rest ih => simp [placedArms, Part.Placed, placedStmts_iff, ih, and_assoc]

end ScriptLab.Program

namespace ScriptLab.Machine

open Program
open Text (Pos)

variable {ω : Type} {looped : Bool} {c : Program.Part}

theorem placed_ofStmts {body : List Stmt} (h : placedStmts looped body = true) :
    ∀ d ∈ Part.ofStmts body, d.Placed looped :=
  List.forall_mem_map.2 (placedStmts_iff.1 h)

theorem placed_ofExprs {items : List Expr} (h : ∀ x ∈ items, (Part.expr x).Placed looped) :
    ∀ d ∈ Part.ofExprs items, d.Placed looped :=
  List.forall_mem_map.2 h

/-- What is inside an expression other than a function is placed as the expression is. -/
theorem placed_children {x : Expr} (hfn : ∀ pos params body, x ≠ .fn pos params body)
    (hx : (Part.expr x).Placed looped) : ∀ d ∈ (Part.expr x).children, d.Placed looped := by
  cases x with
  | null | bool | num | str | ident => nofun
  | arr pos items => exact placed_ofExprs (placedExprs_iff.1 hx)
  | obj pos entries => exact placed_ofExprs (placedEntries_iff.1 hx)
  | fn pos params body => exact (hfn pos params body rfl).elim
  | call pos callee args =>
      simp only [Part.Placed, Expr.placed, Bool.and_eq_true] at hx
      exact List.forall_mem_cons.2 ⟨hx.1, placed_ofExprs (placedExprs_iff.1 hx.2)⟩
  | index pos left right | binary pos op left right =>
      simp only [Part.Placed, Expr.placed, Bool.and_eq_true] at hx
      exact List.forall_mem_cons.2 ⟨hx.1, List.forall_mem_singleton.2 hx.2⟩
  | prop pos target name | unary pos op target => exact List.forall_mem_singleton.2 hx
  | cond pos arms otherwise =>
      have hparts : placedArms looped arms = true ∧ placedStmts looped (otherwise.getD []) = true := by
        cases otherwise with
        | none => exact ⟨hx, rfl⟩
        | some body => exact Bool.and_eq_true_iff.1 hx
      refine List.forall_mem_append.2 ⟨fun d hd => ?_, placed_ofStmts hparts.2⟩
      obtain ⟨arm, harm, hd⟩ := List.mem_flatMap.1 hd
      obtain ⟨hcond, hbody⟩ := placedArms_iff.1 hparts.1 arm harm
      rcases List.mem_cons.1 hd with rfl | hd
      · exact hcond
      · exact List.forall_mem_map.2 hbody d hd

/-- What is inside a part that is placed is placed itself: in the body of a loop as what is inside of
one, and in the body of a function as what is not. -/
theorem placed_inside (hc : c.Placed looped)
    (hplace : ∀ pos target op value, c = .stmt (.assign pos target op value) → target.isPlace = true) :
    ∀ d ∈ partsInside looped c, d.2.Placed d.1 := by
  cases c with
  | stmt x =>
      cases x with
      | loop pos body => exact List.forall_mem_map.2 (placedStmts_iff.1 hc)
      | each pos var items body | count pos var items body =>
          simp only [Part.Placed, Stmt.placed, Bool.and_eq_true] at hc
          exact List.forall_mem_cons.2 ⟨hc.1, List.forall_mem_map.2 (placedStmts_iff.1 hc.2)⟩
      | assign pos target op value =>
          simp only [Part.Placed, Stmt.placed, Bool.and_eq_true] at hc
          have hfn : ∀ pos params body, target ≠ .fn pos params body := by
            rintro _ _ _ rfl
            exact nomatch hplace pos _ op value rfl
          refine List.forall_mem_map.2 (List.forall_mem_append.2 ⟨?_, placed_children hfn hc.1⟩)
          exact List.forall_mem_cons.2 ⟨hc.1, List.forall_mem_singleton.2 hc.2⟩
      | leave | again => nofun
      | back pos value =>
          cases value with
          | none => nofun
          | some value => exact List.forall_mem_singleton.2 hc
      | metadata | define | out | eval => exact List.forall_mem_singleton.2 hc
  | expr x =>
      cases x with
      | fn pos params body => exact List.forall_mem_map.2 (placedStmts_iff.1 hc)
      | _ => exact List.forall_mem_map.2 (placed_children nofun hc)

/-- All that is evaluated is part of the program and placed, and so are the bodies of functions, outside
of loops. This is about a single run, so that nothing moves. -/
def controlled (s : Setting ω) {program : List Stmt}
    (hplaces : ∀ {pos target op value}, PartOf program (.stmt (.assign pos target op value)) →
      target.isPlace = true) : Accord s where
  shift := .none
  Same _ _ := True
  Valid := EachBody fun x => PartOf program (.stmt x) ∧ (Part.stmt x).Placed false
  Scope _ := True
  Allowed _ _ looped c := PartOf program c ∧ c.Placed looped
  Control looped := looped = true
  Stops halt := ∀ fault, halt = .fault fault → fault.cause ≠ .strayLoopControl
  record _ _ := trivial
  heap h hcallables _ := h.of_callables hcallables
  newFrame _ h := h.of_callables rfl
  scope _ _ := trivial
  define h _ _ := h.of_callables (callables_edit _ _)
  assign h _ _ := h.of_callables (callables_edit _ _)
  closure h hfn := by
    refine h.newCallable ?_
    rintro _ _ _ ⟨⟩ x hx
    exact ⟨hfn.1.inside (.child (List.mem_map_of_mem hx)), placedStmts_iff.1 hfn.2 x hx⟩
  known h hid _ _ _ _ _ _ := h _ _ _ (Array.mem_of_getElem? hid)
  inside hc d hd := ⟨hc.1.inside (.of_partsInside hd),
    placed_inside hc.2 (by rintro _ _ _ _ rfl; exact hplaces hc.1) d hd⟩
  leave hc := hc.2
  again hc := hc.2
  exhausted _ _ h := nomatch h
  endless _ _ h := nomatch h
  aborted _ h := nomatch h
  crashed _ _ h := nomatch h
  fault hc cause hcause := by
    rintro _ ⟨⟩ rfl
    cases hcause
  misplaced hc hplace := by
    rintro _ ⟨⟩
    nofun
  stray hc h := nomatch h

/-- A well placed program never fails for loop control outside of loops. -/
theorem Interpreter.Holds.cause_ne_stray {i : Interpreter} {store : Store} (hstore : i.Holds store)
    {dialect : Dialect} {code : String} {program : List Stmt}
    (hparse : parse dialect code = .ok program) (hplaced : WellPlaced program)
    {interruption : Option Interruption} {record : Store → Value → ω} {fault : Fault}
    (h : (i.run interruption record store program).ending = .failed fault) :
    fault.cause ≠ .strayLoopControl := by
  let j : Interpreter := { i with globals := 0 }
  have hvalid : EachBody (fun x => PartOf program (.stmt x) ∧ (Part.stmt x).Placed false)
      (stock.newFrame []).2 := (eachBody_stock _).of_callables rfl
  have hallowed : ∀ x ∈ program, PartOf program (.stmt x) ∧ (Part.stmt x).Placed false :=
    fun x hx => ⟨⟨x, hx, .here⟩, placedStmts_iff.1 hplaced x hx⟩
  exact j.stops_of_run (controlled (j.setting interruption record) (isPlace_of_parse hparse)) rfl
    hvalid trivial hallowed (hstore.failed_in_stock h) fault rfl

/-! ## What becomes of jumps -/

namespace Evaluators

variable {s : Setting ω} {e : Evaluators ω} {env : Env} {calls : Nat} {flow : Flow}
  {p q : Progress ω}

theorem partsInside_expr {x : Expr} (hfn : ∀ pos params body, x ≠ .fn pos params body) :
    partsInside looped (.expr x) = (Part.expr x).children.map (looped, ·) := by
  cases x with
  | fn pos params body => exact (hfn pos params body rfl).elim
  | _ => rfl

theorem mem_children_of_operands {x y : Expr} (h : y ∈ operands x) :
    Part.expr y ∈ (Part.expr x).children := by
  cases x with
  | arr | obj => exact List.mem_map_of_mem h
  | call pos callee args => exact List.mem_map_of_mem (l := callee :: args) h
  | index | prop | unary => simpa [operands, Part.children] using h
  | binary pos op left right =>
      cases op with
      | and | or => exact List.mem_cons.2 (.inl (congrArg Part.expr (List.mem_singleton.1 h)))
      | _ => simpa [operands, Part.children] using h
  | _ => cases h

/-- Loop control comes out of parts that are inside the same loops, or inside none. -/
theorem Opens.inside {d : Program.Part} {scopes : Env} (h : e.Opens s calls flow c env p d scopes q)
    (hflow : flow = .leave ∨ flow = .again) : (looped, d) ∈ partsInside looped c := by
  have expr : ∀ {x : Expr} {d : Program.Part}, (∀ pos params body, x ≠ .fn pos params body) →
      d ∈ (Part.expr x).children → (looped, d) ∈ partsInside looped (.expr x) := by
    intro x d hfn hd
    rw [partsInside_expr hfn]
    exact List.mem_map_of_mem hd
  have arms : ∀ {arms : List (Expr × List Stmt)} {otherwise : Option (List Stmt)}
      {arm : Expr × List Stmt} {pos : Pos} {d : Program.Part}, arm ∈ arms →
        d ∈ Part.expr arm.1 :: Part.ofStmts arm.2 →
          d ∈ (Part.expr (.cond pos arms otherwise)).children :=
    fun harm hd => List.mem_append_left _ (List.mem_flatMap.2 ⟨_, harm, hd⟩)
  cases h with
  | @operand x y _ _ _ h =>
      refine expr ?_ (mem_children_of_operands h.mem)
      rintro _ _ _ rfl
      cases h
  | second => exact expr nofun (List.mem_cons_of_mem _ List.mem_cons_self)
  | condition h => exact expr nofun (arms h.mem List.mem_cons_self)
  | arm h _ hbody =>
      obtain ⟨_, -, hx⟩ := hbody
      exact expr nofun (arms h.mem (List.mem_cons_of_mem _ (List.mem_map_of_mem hx.mem)))
  | otherwise h hbody =>
      obtain ⟨_, -, hx⟩ := hbody
      exact expr nofun (List.mem_append_right _ (List.mem_map_of_mem hx.mem))
  | @head x y _ _ _ hstep hx =>
      cases x with
      | back pos value =>
          cases value with
          | none => cases hx
          | some value =>
              cases hx
              exact List.mem_cons_self
      | define | out | eval | each | count =>
          cases hx
          exact List.mem_cons_self
      | _ => cases hx
  | value => exact List.mem_cons_of_mem _ List.mem_cons_self
  | current => exact List.mem_cons_self
  | @place pos target op x value y env p q r t u hplace hstep hvalue hcombines h =>
      refine List.mem_map_of_mem (f := (looped, ·)) (List.mem_append_right _ ?_)
      exact mem_children_of_operands h.mem
  | round hback =>
      obtain ⟨value, rfl⟩ := hback
      rcases hflow with h | h <;> cases h

/-- Loop control does not get out of what is placed outside of loops. -/
theorem Arrives.not_placed {n : Nat} (h : Arrives s calls flow n c env p q)
    (hflow : flow = .leave ∨ flow = .again)
    (hplaces : ∀ {pos target op value}, Occurs (.stmt (.assign pos target op value)) c →
      target.isPlace = true) : ¬c.Placed false := by
  induction h with
  | makes h =>
      cases h with
      | leave | again => exact Bool.false_ne_true
      | back | backWith => rcases hflow with h | h <;> cases h
  | @inside n c env p d scopes q r h hd ih =>
      intro hc
      have hmem : (false, d) ∈ partsInside false c := h.inside hflow
      refine ih (fun hoccurs => hplaces (hoccurs.trans (.of_partsInside hmem))) ?_
      exact placed_inside hc (by rintro _ _ _ _ rfl; exact hplaces .here) _ hmem

/-- What becomes of the jumps that come out of the bodies of loops and of functions, and of the
statements of a program. -/
structure Lands (s : Setting ω) (e : Evaluators ω) : Prop where
  /-- A loop ends with `break` as it does at its end. -/
  leave : ∀ {x env calls p body frame others q r}, e.Begins s env calls x p body frame others q →
    e.block frame body env calls q = .ok .leave r → e.onStmt s x env calls p = .ok (.next none) r
  /-- A loop goes on behind `continue` with the other rounds, as it does behind any round. -/
  again : ∀ {x env calls p body frame others q flow r},
    e.Begins s env calls x p body frame others q → e.block frame body env calls q = .ok flow r →
      (flow = .again ∨ ∃ value, flow = .next value) → e.onStmt s x env calls p = land others r
  /-- A return goes through the loop. -/
  back : ∀ {x env calls p body frame others q value r},
    e.Begins s env calls x p body frame others q →
      e.block frame body env calls q = .ok (.back value) r →
        e.onStmt s x env calls p = .ok (.back value) r
  /-- A return ends the call of the function that it is in, and gives its value. -/
  returned : ∀ {params body env args pos calls frame p value q}, calls < s.limits.maxCalls →
    bindParams [] params args = .ok frame → e.block frame body env (calls + 1) p = .ok (.back value) q →
      e.closure s params body env args pos calls p = .ok value q
  /-- Loop control in no loop fails in the call of the function that it is in. -/
  stray : ∀ {params body env args pos calls frame p flow q}, calls < s.limits.maxCalls →
    bindParams [] params args = .ok frame → e.block frame body env (calls + 1) p = .ok flow q →
      (flow = .leave ∨ flow = .again) →
        e.closure s params body env args pos calls p = .error (.fault ⟨.strayLoopControl, pos⟩) q
  /-- Nothing jumps out of a call. -/
  call : ∀ callee args pos calls p flow q, e.call s callee args pos calls p ≠ .error (.jump flow) q

/-- What a call makes of the way in which the body of its function ends. -/
def given (pos : Pos) : Flow → Eval ω Value
  | .next value => return value.getD .null
  | .back value => return value
  | _ => raise .strayLoopControl pos

theorem lands (hstmt : ∀ x env calls, Straight (e.stmt x env calls)) : Lands s e := by
  have round : ∀ {x env calls p body frame others q flow r},
      e.Begins s env calls x p body frame others q → e.block frame body env calls q = .ok flow r →
        e.onStmt s x env calls p = land (turned others flow) r := by
    intro x env calls p body frame others q flow r hbegins hbody
    rw [onStmt, land_apply, land_apply, stepped_of_begins hbegins, bind_of_ok hbody]
  have called : ∀ {params body env args pos calls frame p flow q}, calls < s.limits.maxCalls →
      bindParams [] params args = .ok frame → e.block frame body env (calls + 1) p = .ok flow q →
        e.closure s params body env args pos calls p = given pos flow q := by
    intro params body env args pos calls frame p flow q hcalls hparams hbody
    unfold closure
    rw [if_neg (Nat.not_le_of_lt hcalls), hparams]
    refine (bind_of_ok hbody _).trans ?_
    cases flow <;> rfl
  constructor
  · exact fun hbegins hbody => round hbegins hbody
  · rintro x env calls p body frame others q flow r hbegins hbody (rfl | ⟨value, rfl⟩)
    · exact round hbegins hbody
    · exact round hbegins hbody
  · exact fun hbegins hbody => round hbegins hbody
  · exact fun hcalls hparams hbody => called hcalls hparams hbody
  · rintro params body env args pos calls frame p flow q hcalls hparams hbody (rfl | rfl)
    · exact called hcalls hparams hbody
    · exact called hcalls hparams hbody
  · exact fun callee args pos calls p flow q => Straight.call hstmt callee args pos calls p flow q

end Evaluators

/-- Loop control outside of loops fails at the statement of the program that it comes out of, and a
return there ends the program with its value. -/
theorem runProgram_jump {s : Setting ω} {n : Nat} {x : Stmt} {env : Env} {p q : Progress ω}
    {flow : Flow} (h : runWithin s n x env 0 p = .ok flow q) (last : Option Value)
    (rest : List Stmt) :
    ((flow = .leave ∨ flow = .again) → runProgram s n env last (x :: rest) p =
      .error (.fault ⟨.strayLoopControl, x.pos⟩) q) ∧
    ∀ value, flow = .back value → runProgram s n env last (x :: rest) p =
      (checkAborted >>= fun _ => pure (some value) : Eval ω (Option Value)) q := by
  refine ⟨?_, ?_⟩
  · rintro (rfl | rfl) <;> exact bind_of_ok h _
  · rintro value rfl
    exact bind_of_ok h _

/-- Loop control stays in its loops, and returns in their calls. A program in which all `break` and
`continue` is inside loops of the same function never fails for one that is not, on any interpreter
without constants. In any program, a part ends with a jump just where evaluating it arrives at the
statement that makes the jump, by steps that enter no body of a function and, unless it is a return, no
loop; and the loop, the call or the program that a jump comes to takes it. -/
theorem loop_control_stays_inside :
    (∀ {i : Interpreter} {store : Store}, i.Holds store →
      ∀ {dialect : Dialect} {code : String} {program : List Stmt},
        parse dialect code = .ok program → WellPlaced program →
          ∀ {ω : Type} (interruption : Option Interruption) (record : Store → Value → ω)
            {fault : Fault}, (i.run interruption record store program).ending = .failed fault →
              fault.cause ≠ .strayLoopControl) ∧
    ∀ {ω : Type} (s : Setting ω) (n : Nat),
      (∀ {flow : Flow}, flow.IsJump → ∀ {calls c env p q},
        Evaluators.Leaves ⟨runWithin s n, evalWithin s n⟩ calls flow c env p q ↔
          Evaluators.Arrives s calls flow n c env p q) ∧
      (∀ {flow : Flow}, (flow = .leave ∨ flow = .again) → ∀ {calls c env p q},
        (∀ {pos target op value}, Occurs (.stmt (.assign pos target op value)) c →
          target.isPlace = true) →
            c.Placed false → ¬Evaluators.Arrives s calls flow n c env p q) ∧
      Evaluators.Lands s ⟨runWithin s n, evalWithin s n⟩ ∧
      ∀ {x : Stmt} {env : Env} {p q : Progress ω} {flow : Flow},
        runWithin s n x env 0 p = .ok flow q → ∀ (last : Option Value) (rest : List Stmt),
          ((flow = .leave ∨ flow = .again) → runProgram s n env last (x :: rest) p =
            .error (.fault ⟨.strayLoopControl, x.pos⟩) q) ∧
          ∀ value, flow = .back value → runProgram s n env last (x :: rest) p =
            (checkAborted >>= fun _ => pure (some value) : Eval ω (Option Value)) q :=
  ⟨fun hstore _ _ _ hparse hplaced _ _ _ _ h => hstore.cause_ne_stray hparse hplaced h,
    fun s n => ⟨fun hflow => Evaluators.leaves_iff_arrives hflow,
      fun hflow _ _ _ _ _ hplaces hplaced h => h.not_placed hflow hplaces hplaced,
      Evaluators.lands fun x env calls p flow q => runWithin_ne_jump s n x env calls p q flow,
      runProgram_jump⟩⟩

/-- The fault that a run ended with. -/
def Ending.fault? : Ending → Option Fault
  | .failed fault => some fault
  | _ => none

theorem Ending.failed_of_fault? {ending : Ending} {fault : Fault} (h : ending.fault? = some fault) :
    ending = .failed fault := by
  cases ending with
  | failed found => exact congrArg Ending.failed (Option.some.inj h)
  | _ => cases h

/-- A loop that ends from within the value of an assignment, and a call of what is no function. -/
def awaiting : List Stmt :=
  [.define ⟨1, 1⟩ "d" true (.bool ⟨1, 9⟩ false),
    .loop ⟨2, 1⟩ [.assign ⟨2, 8⟩ (.ident ⟨2, 8⟩ "d") .set
      (.cond ⟨2, 12⟩ [(.ident ⟨2, 15⟩ "d", [.leave ⟨2, 19⟩])]
        (some [.eval ⟨2, 34⟩ (.bool ⟨2, 34⟩ true)]))],
    .eval ⟨3, 1⟩ (.call ⟨3, 1⟩ (.ident ⟨3, 1⟩ "d") [])]

/-- In a program that is well placed, and at a statement that would end a loop if it were in one. -/
theorem loop_control_stays_inside_awaiting :
    let made := Interpreter.create {} [] {}
    let fault : Fault := ⟨.mismatch .fn .bool, ⟨3, 1⟩⟩
    let s := made.1.setting none Store.output
    let p : Progress String := { store := made.2 }
    let q : Progress String := { store := (made.2.newFrame []).2, steps := 2 }
    let env : Env := ⟨made.1.globals, []⟩
    let x : Stmt := .eval ⟨1, 1⟩ (.cond ⟨1, 1⟩ [(.bool ⟨1, 4⟩ true, [.leave ⟨1, 11⟩])] none)
    parse .modern "var d = false\nloop \x7b d = if d \x7b break \x7d else \x7b true \x7d \x7d\nd()" =
        .ok awaiting ∧
      WellPlaced awaiting ∧
      (made.1.run none Store.output made.2 awaiting).ending = .failed fault ∧
      fault.cause ≠ .strayLoopControl ∧
      runWithin s 4 x env 0 p = .ok .leave q ∧
      Evaluators.Arrives s 0 .leave 4 (.stmt x) env p q ∧
      runProgram s 4 env none [x] p = .error (.fault ⟨.strayLoopControl, ⟨1, 1⟩⟩) q := by
  intro made fault s p q env x
  have hparse : parse .modern
      "var d = false\nloop \x7b d = if d \x7b break \x7d else \x7b true \x7d \x7d\nd()" =
        .ok awaiting := by
    decide +kernel
  have hplaced : WellPlaced awaiting := by decide
  have hending : (made.1.run none Store.output made.2 awaiting).ending = .failed fault :=
    Ending.failed_of_fault? (by decide +kernel)
  have hleave : runWithin s 4 x env 0 p = .ok .leave q := by rfl
  obtain ⟨hsafe, hjumps⟩ := loop_control_stays_inside
  obtain ⟨harrives, -, -, hprogram⟩ := hjumps s 4
  have hjump : Flow.leave.IsJump := trivial
  exact ⟨hparse, hplaced, hending,
    hsafe (.create {} .empty) hparse hplaced none Store.output hending, hleave,
    (harrives hjump).1 hleave, (hprogram hleave none []).1 (.inl rfl)⟩

end ScriptLab.Machine
