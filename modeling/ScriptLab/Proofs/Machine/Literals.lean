import ScriptLab.Proofs.Machine.Action
import ScriptLab.Proofs.Program.Depth
import ScriptLab.Proofs.Value.Literals

/-!
# Evaluation of literals

Literals have two evaluators: one gives their values without a run, the other is that of all
expressions. They agree to the store: evaluating a literal makes the containers that its value is made
of, and does nothing else.
-/

namespace ScriptLab

namespace Program

theorem allStatic_iff {items : List Expr} :
    allStatic items = true ↔ ∀ x ∈ items, x.isStatic = true := by
  induction items with
  | nil => simp [allStatic]
  | cons item rest ih => simp [allStatic, ih]

theorem entriesStatic_iff {entries : List (String × Expr)} :
    entriesStatic entries = true ↔ ∀ entry ∈ entries, entry.2.isStatic = true := by
  induction entries with
  | nil => simp [entriesStatic]
  | cons entry rest ih =>
    obtain ⟨key, item⟩ := entry
    simp [entriesStatic, ih]

/-- Only a number may stand behind a minus sign. -/
theorem isStatic_unary {pos : Text.Pos} {op : UnaryOp} {operand : Expr}
    (h : (Expr.unary pos op operand).isStatic = true) :
    op = .neg ∧ ∃ pos' x, operand = .num pos' x := by
  cases op with
  | not => simp [Expr.isStatic] at h
  | neg => cases operand <;> simp_all [Expr.isStatic]

/-- The parts of a literal are literals. -/
theorem isStatic_of_mem_children {x : Expr} (h : x.isStatic = true) {c : Part}
    (hc : c ∈ (Part.expr x).children) : ∃ y, c = .expr y ∧ y.isStatic = true := by
  cases x with
  | arr pos items =>
    obtain ⟨y, hy, rfl⟩ := List.mem_map.1 hc
    exact ⟨y, rfl, allStatic_iff.1 h y hy⟩
  | obj pos entries =>
    obtain ⟨y, hy, rfl⟩ := List.mem_map.1 hc
    obtain ⟨entry, hentry, rfl⟩ := List.mem_map.1 hy
    exact ⟨entry.2, rfl, entriesStatic_iff.1 h entry hentry⟩
  | unary pos op operand =>
    obtain ⟨-, pos', n, rfl⟩ := isStatic_unary h
    exact ⟨.num pos' n, by simpa [Part.children] using hc, rfl⟩
  | null | bool | num | str => simp [Part.children] at hc
  | _ => simp [Expr.isStatic] at h

end Program

namespace Machine

open Program

variable {ω : Type}

/-- The same state with another store. -/
abbrev Progress.withStore (p : Progress ω) (store : Store) : Progress ω :=
  { p with store }

namespace Evaluators

variable {e : Evaluators ω} {env : Env} {calls : Nat}

/-- Evaluating an expression gives what the evaluator of literals gives, and does nothing else. -/
def MakesLiteral (e : Evaluators ω) (env : Env) (calls : Nat) (x : Expr) : Prop :=
  ∀ p, e.expr x env calls p = .ok (staticValue x p.store).1 (p.withStore (staticValue x p.store).2)

theorem list_of_makesLiteral {items : List Expr} (h : ∀ x ∈ items, e.MakesLiteral env calls x)
    (values : List Value) (p : Progress ω) :
    e.list env calls values items p =
      .ok (values.reverse ++ (staticItems items p.store).1)
        (p.withStore (staticItems items p.store).2) := by
  induction items generalizing values p with
  | nil => simp [list, staticItems]
  | cons item rest ih =>
    have hitem := h item List.mem_cons_self p
    have hrest : ∀ x ∈ rest, e.MakesLiteral env calls x := fun x hx => h x (List.mem_cons_of_mem _ hx)
    unfold list
    rw [bind_of_ok hitem, ih hrest]
    simp [staticItems]

theorem entries_of_makesLiteral {items : List (String × Expr)}
    (h : ∀ entry ∈ items, e.MakesLiteral env calls entry.2) (made : Entries String Value)
    (p : Progress ω) :
    e.entries env calls made items p =
      .ok (staticEntries made items p.store).1
        (p.withStore (staticEntries made items p.store).2) := by
  induction items generalizing made p with
  | nil => simp [entries, staticEntries]
  | cons entry rest ih =>
    obtain ⟨key, item⟩ := entry
    have hitem := h (key, item) List.mem_cons_self p
    have hrest : ∀ entry ∈ rest, e.MakesLiteral env calls entry.2 := fun x hx =>
      h x (List.mem_cons_of_mem _ hx)
    unfold entries
    rw [bind_of_ok hitem, ih hrest]
    simp [staticEntries]

/-- A literal is evaluated like its value is made, as soon as its parts are. -/
theorem onExpr_static {s : Setting ω} {x : Expr} (hx : x.isStatic = true)
    (hparts : ∀ y, Part.expr y ∈ (Part.expr x).children → e.MakesLiteral env calls y) (p : Progress ω) :
    e.onExpr s x env calls p =
      .ok (staticValue x p.store).1 (p.withStore (staticValue x p.store).2) := by
  cases x with
  | null | bool | num | str => simp [onExpr, staticValue]
  | arr pos items =>
    have hitems : ∀ x ∈ items, e.MakesLiteral env calls x := by
      intro x hx
      apply hparts
      simpa [Part.children, Part.ofExprs] using hx
    show (e.list env calls [] items >>= fun values => create (·.newArray values.toArray)) p = _
    rw [bind_of_ok (list_of_makesLiteral hitems [] p)]
    rfl
  | obj pos items =>
    have hitems : ∀ entry ∈ items, e.MakesLiteral env calls entry.2 := by
      intro entry hentry
      apply hparts
      have hmem : ∃ key, (key, entry.2) ∈ items := ⟨entry.1, hentry⟩
      simpa [Part.children, Part.ofExprs] using hmem
    show (e.entries env calls [] items >>= fun values => create (·.newObject values)) p = _
    rw [bind_of_ok (entries_of_makesLiteral hitems [] p)]
    rfl
  | unary pos op operand =>
    obtain ⟨rfl, pos', n, rfl⟩ := isStatic_unary hx
    have hoperand := hparts (.num pos' n) (by simp [Part.children]) p
    show (e.expr (.num pos' n) env calls >>= fun value =>
      settle pos' (asNumber value) >>= fun x => pure (Value.num (-x))) p = _
    rw [bind_of_ok hoperand]
    rfl
  | _ => simp [Expr.isStatic] at hx

end Evaluators

/-- The two evaluators agree on literals: in every scope and every state, the value of a literal is made
behind what the store holds, and nothing else happens. There need not be room for more open evaluations
than the literal is deep. -/
theorem evalWithin_static (s : Setting ω) {n : Nat} {x : Expr} (hx : x.isStatic = true)
    (hdepth : (Part.expr x).Within n) (env : Env) (calls : Nat) (p : Progress ω) :
    evalWithin s n x env calls p =
      .ok (staticValue x p.store).1 (p.withStore (staticValue x p.store).2) := by
  induction n generalizing x p with
  | zero => exact hdepth.elim
  | succ n ih =>
    unfold evalWithin
    apply Evaluators.onExpr_static hx
    intro y hy q
    obtain ⟨_, ⟨⟩, hstatic⟩ := isStatic_of_mem_children hx hy
    exact ih hstatic (hdepth _ hy) q

end Machine

/-! ## What a literal leaves as it is -/

mutual

theorem scopes_staticValue : ∀ (x : Program.Expr) (s : Store),
    (staticValue x s).2.callables = s.callables ∧ (staticValue x s).2.frames = s.frames
  | .null _, s | .ident .., s | .fn .., s | .call .., s | .index .., s | .prop .., s | .binary .., s
  | .cond .., s | .unary _ .not _, s | .bool .., s | .num .., s | .str .., s => ⟨rfl, rfl⟩
  | .arr _ items, s => scopes_staticItems items s
  | .obj _ entries, s => scopes_staticEntries [] entries s
  | .unary _ .neg operand, s => by
    have h := scopes_staticValue operand s
    unfold staticValue
    split <;> simp_all

theorem scopes_staticItems : ∀ (items : List Program.Expr) (s : Store),
    (staticItems items s).2.callables = s.callables ∧ (staticItems items s).2.frames = s.frames
  | [], s => ⟨rfl, rfl⟩
  | item :: rest, s => by
    have hitem := scopes_staticValue item s
    have hrest := scopes_staticItems rest (staticValue item s).2
    exact ⟨hrest.1.trans hitem.1, hrest.2.trans hitem.2⟩

theorem scopes_staticEntries : ∀ (made : Entries String Value)
    (entries : List (String × Program.Expr)) (s : Store),
    (staticEntries made entries s).2.callables = s.callables ∧
      (staticEntries made entries s).2.frames = s.frames
  | made, [], s => ⟨rfl, rfl⟩
  | made, (key, item) :: rest, s => by
    have hitem := scopes_staticValue item s
    have hrest := scopes_staticEntries (made.put key (staticValue item s).1) rest
      (staticValue item s).2
    exact ⟨hrest.1.trans hitem.1, hrest.2.trans hitem.2⟩

end

/-- A store that differs from an earlier one in new arrays and objects only. -/
structure Store.Grown (s t : Store) : Prop where
  containers : s.Extends t
  callables : t.callables = s.callables
  frames : t.frames = s.frames

theorem grown_staticValue (x : Program.Expr) (s : Store) : s.Grown (staticValue x s).2 :=
  ⟨(staticValue_madeAs x s).grows, (scopes_staticValue x s).1, (scopes_staticValue x s).2⟩

/-- A literal other than `null` has another value. -/
theorem staticValue_eq_null {x : Program.Expr} (hx : x.isStatic = true) {s : Store}
    (h : (staticValue x s).1 = .null) : ∃ pos, x = .null pos := by
  cases x with
  | null pos => exact ⟨pos, rfl⟩
  | unary pos op operand =>
    obtain ⟨rfl, pos', n, rfl⟩ := Program.isStatic_unary hx
    simp [staticValue] at h
  | bool | num | str | arr | obj => simp [staticValue, Store.newArray, Store.newObject] at h
  | _ => simp [Program.Expr.isStatic] at hx

end ScriptLab
