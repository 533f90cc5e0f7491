import ScriptLab.Proofs.Machine.Jumps

/-!
# Where jumps come from

A jump comes out of an expression or a statement just where it arrives there by the rules: each form of
expression and of statement jumps as what it evaluates inside does, and no other way.
-/

namespace ScriptLab.Machine

open Program
open Text (Pos)

variable {ω : Type} {α : Type}

/-! ## Expressions that jump -/

namespace Evaluators

variable {s : Setting ω} {e : Evaluators ω} {env : Env} {calls : Nat} {flow : Flow}
  {p q : Progress ω}

/-- One of some expressions that are evaluated one after the other jumps. -/
def JumpsIn (e : Evaluators ω) (env : Env) (calls : Nat) (flow : Flow) (q : Progress ω)
    (items : List Expr) (p : Progress ω) : Prop :=
  ∃ y r, Upto (e.Passes env calls) items p y r ∧ e.expr y env calls r = .error (.jump flow) q

theorem jumpsIn_cons_iff {x : Expr} {rest : List Expr} {f : Value → Eval ω α}
    (hf : ∀ value r, f value r = .error (.jump flow) q ↔ e.JumpsIn env calls flow q rest r) :
    (e.expr x env calls >>= f) p = .error (.jump flow) q ↔
      e.JumpsIn env calls flow q (x :: rest) p := by
  unfold JumpsIn
  rw [jump_bind_iff, upto_cons_iff]
  refine or_congr_right ⟨?_, ?_⟩
  · rintro ⟨value, r, hx, h⟩
    exact ⟨r, ⟨value, hx⟩, (hf value r).1 h⟩
  · rintro ⟨r, ⟨value, hx⟩, h⟩
    exact ⟨value, r, hx, (hf value r).2 h⟩

theorem jumpsIn_nil_iff {m : Eval ω α} (hm : Straight m) :
    m p = .error (.jump flow) q ↔ e.JumpsIn env calls flow q [] p :=
  iff_of_false (hm p flow q) not_upto_nil

theorem jumpsIn_list_iff {items : List Expr} {values : List Value} {f : List Value → Eval ω α}
    (hf : ∀ values, Straight (f values)) :
    (e.list env calls values items >>= f) p = .error (.jump flow) q ↔
      e.JumpsIn env calls flow q items p := by
  induction items generalizing values p with
  | nil => exact jumpsIn_nil_iff (hf values.reverse)
  | cons item rest ih =>
      change ((e.expr item env calls >>= fun value => e.list env calls (value :: values) rest) >>= f) p
        = _ ↔ _
      rw [bind_assoc]
      exact jumpsIn_cons_iff fun value r => ih

theorem jumpsIn_entries_iff {items : List (String × Expr)} {made : Entries String Value}
    {f : Entries String Value → Eval ω α} (hf : ∀ made, Straight (f made)) :
    (e.entries env calls made items >>= f) p = .error (.jump flow) q ↔
      e.JumpsIn env calls flow q (items.map Prod.snd) p := by
  induction items generalizing made p with
  | nil => exact jumpsIn_nil_iff (hf made)
  | cons item rest ih =>
      obtain ⟨key, x⟩ := item
      change ((e.expr x env calls >>= fun value => e.entries env calls (made.put key value) rest)
        >>= f) p = _ ↔ _
      rw [bind_assoc]
      exact jumpsIn_cons_iff fun value r => ih

theorem condition_jump_iff {x : Expr} :
    e.condition x env calls p = .error (.jump flow) q ↔
      e.expr x env calls p = .error (.jump flow) q := by
  refine jump_bind_iff.trans (or_iff_left ?_)
  rintro ⟨value, r, -, h⟩
  exact Straight.settle _ _ _ _ _ h

theorem statements_jump_iff (hflow : flow.IsJump) {body : List Stmt} {last : Option Value} :
    e.statements env calls last body p = .ok flow q ↔
      ∃ x r, Upto (e.Falls env calls) body p x r ∧ e.stmt x env calls r = .ok flow q := by
  induction body generalizing last p with
  | nil =>
      refine iff_of_false (fun h => ?_) not_upto_nil
      cases h
      exact hflow
  | cons x rest ih =>
      unfold statements
      rw [ok_bind_iff, upto_cons_iff]
      constructor
      · rintro ⟨made, r, hx, h⟩
        cases made with
        | next value => exact .inr ⟨r, ⟨value, hx⟩, ih.1 h⟩
        | leave | again | back value =>
            cases h
            exact .inl hx
      · rintro (hx | ⟨r, ⟨value, hx⟩, h⟩)
        · refine ⟨flow, q, hx, ?_⟩
          cases flow with
          | next value => exact hflow.elim
          | leave | again | back value => rfl
        · exact ⟨.next value, r, hx, ih.2 h⟩

theorem block_jump_iff (hflow : flow.IsJump) {bindings : Frame} {body : List Stmt} :
    e.block bindings body env calls p = .ok flow q ↔
      ∃ x scopes r, e.Comes bindings body env calls p x scopes r ∧
        e.stmt x scopes calls r = .ok flow q := by
  unfold block
  rw [ok_bind_iff]
  constructor
  · rintro ⟨scopes, t, hinner, h⟩
    obtain ⟨x, r, hx, hjump⟩ := (statements_jump_iff hflow).1 h
    exact ⟨x, scopes, r, ⟨t, hinner, hx⟩, hjump⟩
  · rintro ⟨x, scopes, r, ⟨t, hinner, hx⟩, hjump⟩
    exact ⟨scopes, t, hinner, (statements_jump_iff hflow).2 ⟨x, r, hx, hjump⟩⟩

theorem conditional_jump_iff {otherwise : Option (List Stmt)}
    {arms : List (Expr × List Stmt)} :
    e.conditional otherwise env calls arms p = .error (.jump flow) q ↔
      (∃ arm r, Upto (e.Refuses env calls) arms p arm r ∧
        (e.expr arm.1 env calls r = .error (.jump flow) q ∨
          ∃ t, e.condition arm.1 env calls r = .ok true t ∧
            e.branch arm.2 env calls t = .error (.jump flow) q)) ∨
      ∃ body r, otherwise = some body ∧ InTurn (e.Refuses env calls) arms p r ∧
        e.branch body env calls r = .error (.jump flow) q := by
  induction arms generalizing p with
  | nil =>
      rw [or_iff_right not_upto_nil]
      cases otherwise with
      | none => exact iff_of_false (fun h => nomatch h) fun ⟨_, _, h, _⟩ => nomatch h
      | some body =>
          refine ⟨fun h => ⟨body, p, rfl, .nil, h⟩, ?_⟩
          rintro ⟨_, _, ⟨⟩, ⟨⟩, h⟩
          exact h
  | cons arm rest ih =>
      obtain ⟨cond, body⟩ := arm
      have hlast : (∃ last r, otherwise = some last ∧
          InTurn (e.Refuses env calls) ((cond, body) :: rest) p r ∧
            e.branch last env calls r = .error (.jump flow) q) ↔
          ∃ t, e.condition cond env calls p = .ok false t ∧ ∃ last r, otherwise = some last ∧
            InTurn (e.Refuses env calls) rest t r ∧
              e.branch last env calls r = .error (.jump flow) q := by
        constructor
        · rintro ⟨last, r, hlast, ⟨⟩ | ⟨hrefuse, hs⟩, h⟩
          exact ⟨_, hrefuse, last, r, hlast, hs, h⟩
        · rintro ⟨t, hrefuse, last, r, hlast, hs, h⟩
          exact ⟨last, r, hlast, .cons hrefuse hs, h⟩
      unfold conditional
      rw [jump_bind_iff, condition_jump_iff, upto_cons_iff, hlast]
      constructor
      · rintro (h | ⟨b, t, hcond, h⟩)
        · exact .inl (.inl (.inl h))
        · cases b with
          | true => exact .inl (.inl (.inr ⟨t, hcond, h⟩))
          | false =>
              rcases ih.1 h with h | h
              · exact .inl (.inr ⟨t, hcond, h⟩)
              · exact .inr ⟨t, hcond, h⟩
      · rintro (((h | ⟨t, hcond, h⟩) | ⟨t, hcond, h⟩) | ⟨t, hcond, h⟩)
        · exact .inl h
        · exact .inr ⟨true, t, hcond, h⟩
        · exact .inr ⟨false, t, hcond, ih.2 (.inl h)⟩
        · exact .inr ⟨false, t, hcond, ih.2 (.inr h)⟩

/-- An expression that evaluates its operands and nothing else. -/
def Plain : Expr → Prop
  | .cond .. => False
  | .binary _ op _ _ => goesOn op = none
  | _ => True

/-- The forms of expressions. -/
theorem plain_or_goesOn_or_cond (x : Expr) :
    Plain x ∨
      (∃ pos op left right b, x = .binary pos op left right ∧ goesOn op = some b) ∨
        ∃ pos arms otherwise, x = .cond pos arms otherwise := by
  cases x with
  | binary pos op left right =>
      cases hop : goesOn op with
      | none => exact .inl hop
      | some b => exact .inr (.inl ⟨pos, op, left, right, b, rfl, hop⟩)
  | cond pos arms otherwise => exact .inr (.inr ⟨pos, arms, otherwise, rfl⟩)
  | _ => exact .inl trivial

/-- An operator that may go on jumps where an operand of it does. -/
theorem second_jump_iff {pos : Pos} {op : BinaryOp} {left right : Expr} {b : Bool}
    (hop : goesOn op = some b) :
    e.onExpr s (.binary pos op left right) env calls p = .error (.jump flow) q ↔
      e.JumpsIn env calls flow q (operands (.binary pos op left right)) p ∨
        ∃ r, e.condition left env calls p = .ok b r ∧
          e.expr right env calls r = .error (.jump flow) q := by
  have hleft : e.expr left env calls p = .error (.jump flow) q ↔
      e.JumpsIn env calls flow q (operands (.binary pos op left right)) p := by
    have hone : operands (.binary pos op left right) = [left] := by
      cases op with
      | and | or => rfl
      | _ => cases hop
    rw [hone, JumpsIn, upto_cons_iff]
    refine (or_iff_left ?_).symm
    rintro ⟨_, -, h⟩
    exact not_upto_nil h
  have hgo : e.onExpr s (.binary pos op left right) env calls =
      e.condition left env calls >>= fun made =>
        if made = b then e.condition right env calls >>= fun made => pure (.bool made)
        else pure (.bool made) := by
    cases op with
    | and | or =>
        cases hop
        refine congrArg (e.condition left env calls >>= ·) (funext fun made => ?_)
        cases made <;> rfl
    | _ => cases hop
  rw [hgo, jump_bind_iff, condition_jump_iff, hleft]
  refine or_congr_right ⟨?_, ?_⟩
  · rintro ⟨made, r, hleft, h⟩
    split at h
    · next hmade =>
        rw [← hmade]
        rcases jump_bind_iff.1 h with h | ⟨_, _, -, h⟩
        · exact ⟨r, hleft, condition_jump_iff.1 h⟩
        · cases h
    · cases h
  · rintro ⟨r, hleft, h⟩
    refine ⟨b, r, hleft, ?_⟩
    rw [if_pos rfl]
    exact jump_bind_iff.2 (.inl (condition_jump_iff.2 h))

section

variable (hstmt : ∀ x env calls, Straight (e.stmt x env calls))
include hstmt

/-- A body of a conditional jumps as a statement in it does. -/
theorem branch_jump_iff (hflow : flow.IsJump) {body : List Stmt} :
    e.branch body env calls p = .error (.jump flow) q ↔
      ∃ x scopes r, e.Comes [] body env calls p x scopes r ∧
        e.stmt x scopes calls r = .ok flow q := by
  rw [← block_jump_iff hflow]
  unfold branch
  rw [jump_bind_iff, or_iff_right (Straight.block hstmt [] body env calls p flow q)]
  constructor
  · rintro ⟨made, r, hbody, h⟩
    cases made with
    | next value => cases h
    | leave | again | back value =>
        cases h
        exact hbody
  · intro hbody
    refine ⟨flow, q, hbody, ?_⟩
    cases flow with
    | next value => exact hflow.elim
    | leave | again | back value => rfl

theorem plain_jump_iff {x : Expr} (hx : Plain x) :
    e.onExpr s x env calls p = .error (.jump flow) q ↔ e.JumpsIn env calls flow q (operands x) p := by
  cases x with
  | null | bool | num | str => exact jumpsIn_nil_iff (.pure _)
  | ident pos name => exact jumpsIn_nil_iff (.lookup pos _)
  | fn pos params body => exact jumpsIn_nil_iff (.create (·.newCallable (.closure params body env)))
  | arr => exact jumpsIn_list_iff fun _ => .create _
  | obj => exact jumpsIn_entries_iff fun _ => .create _
  | call pos callee args =>
      exact jumpsIn_cons_iff fun callee r => jumpsIn_list_iff fun args =>
        .call hstmt callee args pos calls
  | index pos target index =>
      exact jumpsIn_cons_iff fun target r => jumpsIn_cons_iff fun index r =>
        jumpsIn_nil_iff (.lookup pos _)
  | prop pos target name =>
      exact jumpsIn_cons_iff fun target r => jumpsIn_nil_iff (.lookup pos _)
  | binary pos op left right =>
      cases op with
      | and | or => cases hx
      | _ =>
          exact jumpsIn_cons_iff fun left r => jumpsIn_cons_iff fun right r =>
            jumpsIn_nil_iff (.settle pos _)
  | unary pos op operand =>
      cases op with
      | not =>
          change (e.condition operand env calls >>= _) p = _ ↔ _
          unfold condition
          rw [bind_assoc]
          exact jumpsIn_cons_iff fun value r =>
            jumpsIn_nil_iff (.bind (.settle operand.pos _) fun _ => .pure _)
      | neg =>
          exact jumpsIn_cons_iff fun value r =>
            jumpsIn_nil_iff (.bind (.settle operand.pos _) fun _ => .pure _)
  | cond => exact hx.elim

/-- An expression jumps as something that is evaluated inside does. -/
theorem onExpr_jump_iff (hflow : flow.IsJump) {x : Expr} :
    e.onExpr s x env calls p = .error (.jump flow) q ↔
      ∃ d scopes r, e.Opens s calls flow (.expr x) env p d scopes r ∧
        e.Leaves calls flow d scopes r q := by
  have operand : e.JumpsIn env calls flow q (operands x) p →
      ∃ d scopes r, e.Opens s calls flow (.expr x) env p d scopes r ∧
        e.Leaves calls flow d scopes r q := by
    rintro ⟨y, r, h, hy⟩
    exact ⟨.expr y, env, r, .operand h, hy⟩
  constructor
  · intro h
    rcases plain_or_goesOn_or_cond x with hx | ⟨pos, op, left, right, b, rfl, hop⟩ |
      ⟨pos, arms, otherwise, rfl⟩
    · exact operand ((plain_jump_iff hstmt hx).1 h)
    · rcases (second_jump_iff hop).1 h with h | ⟨r, hleft, h⟩
      · exact operand h
      · exact ⟨.expr right, env, r, .second hop hleft, h⟩
    · rcases conditional_jump_iff.1 h with ⟨arm, r, harm, h | ⟨t, hcond, h⟩⟩ |
        ⟨body, r, rfl, hrefuse, h⟩
      · exact ⟨.expr arm.1, env, r, .condition harm, h⟩
      · obtain ⟨y, scopes, u, hbody, h⟩ := (branch_jump_iff hstmt hflow).1 h
        exact ⟨.stmt y, scopes, u, .arm harm hcond hbody, h⟩
      · obtain ⟨y, scopes, u, hbody, h⟩ := (branch_jump_iff hstmt hflow).1 h
        exact ⟨.stmt y, scopes, u, .otherwise hrefuse hbody, h⟩
  · rintro ⟨d, scopes, r, hopens, hd⟩
    cases hopens with
    | operand h =>
        rcases plain_or_goesOn_or_cond x with hx | ⟨pos, op, left, right, b, rfl, hop⟩ |
          ⟨pos, arms, otherwise, rfl⟩
        · exact (plain_jump_iff hstmt hx).2 ⟨_, r, h, hd⟩
        · exact (second_jump_iff hop).2 (.inl ⟨_, r, h, hd⟩)
        · cases h
    | second hop h => exact (second_jump_iff hop).2 (.inr ⟨r, h, hd⟩)
    | condition h =>
        exact conditional_jump_iff.2 (.inl ⟨_, r, h, .inl hd⟩)
    | arm h hcond hbody =>
        refine conditional_jump_iff.2 (.inl ⟨_, _, h, .inr ⟨_, hcond, ?_⟩⟩)
        exact (branch_jump_iff hstmt hflow).2 ⟨_, _, _, hbody, hd⟩
    | otherwise h hbody =>
        refine conditional_jump_iff.2 (.inr ⟨_, _, rfl, h, ?_⟩)
        exact (branch_jump_iff hstmt hflow).2 ⟨_, _, _, hbody, hd⟩

end

/-! ## Statements that jump -/

theorem land_ok_iff {m : Eval ω Flow} :
    land m p = .ok flow q ↔ m p = .ok flow q ∨ m p = .error (.jump flow) q := by
  rw [land_apply]
  cases m p with
  | ok => simp
  | error halt =>
      cases halt with
      | jump => simp
      | _ => simp

theorem head_jump_iff {x : Expr} {f : Value → Eval ω α} (hf : ∀ value, Straight (f value)) :
    (e.expr x env calls >>= f) p = .error (.jump flow) q ↔
      e.expr x env calls p = .error (.jump flow) q := by
  refine jump_bind_iff.trans (or_iff_left ?_)
  rintro ⟨value, r, -, h⟩
  exact hf value r flow q h

/-- Writing to a place jumps as the parts of the place do. -/
theorem write_jump_iff {target : Expr} {value : Value} :
    e.write target value env calls p = .error (.jump flow) q ↔
      target.isPlace = true ∧ e.JumpsIn env calls flow q (operands target) p := by
  cases target with
  | ident pos name =>
      refine (jumpsIn_nil_iff ?_).trans (and_iff_right rfl).symm
      exact .update pos _
  | index pos container index =>
      refine (jumpsIn_cons_iff fun container r => ?_).trans (and_iff_right rfl).symm
      exact jumpsIn_cons_iff fun index r => jumpsIn_nil_iff (.update pos _)
  | prop pos container name =>
      refine (jumpsIn_cons_iff fun container r => ?_).trans (and_iff_right rfl).symm
      exact jumpsIn_nil_iff (.update pos _)
  | _ => exact iff_of_false (fun h => nomatch h) fun h => nomatch h.1

theorem assign_jump_iff {target : Expr} {op : AssignOp} {value : Value} :
    e.assign target op value env calls p = .error (.jump flow) q ↔
      (op ≠ .set ∧ e.expr target env calls p = .error (.jump flow) q) ∨
      ∃ r, e.Combines target op value env calls p r ∧ target.isPlace = true ∧
        e.JumpsIn env calls flow q (operands target) r := by
  unfold assign Combines
  cases hop : assignOperator op with
  | none =>
      have hset : op = .set := by
        cases op with
        | set => rfl
        | _ => cases hop
      refine write_jump_iff.trans ⟨fun h => .inr ⟨p, rfl, h⟩, ?_⟩
      rintro (⟨hne, -⟩ | ⟨r, rfl, h⟩)
      · exact (hne hset).elim
      · exact h
  | some operator =>
      have hne : op ≠ .set := by
        rintro rfl
        cases hop
      refine jump_bind_iff.trans (or_congr (and_iff_right hne).symm ⟨?_, ?_⟩)
      · rintro ⟨current, r, hcurrent, h⟩
        rcases jump_bind_iff.1 h with h | ⟨combined, t, hcombined, h⟩
        · exact (Straight.settle _ _ _ _ _ h).elim
        · obtain ⟨hcombine, rfl⟩ := settle_ok_iff.1 hcombined
          exact ⟨r, ⟨current, combined, hcurrent, hcombine⟩, write_jump_iff.1 h⟩
      · rintro ⟨r, ⟨current, combined, hcurrent, hcombine⟩, h⟩
        refine ⟨current, r, hcurrent, jump_bind_iff.2 (.inr ⟨combined, r, ?_, write_jump_iff.2 h⟩)⟩
        exact settle_ok_iff.2 ⟨hcombine, rfl⟩

/-! ## Rounds that jump -/

section

variable {body : List Stmt} {pos : Pos} {last : Eval ω Flow}

/-- A loop that comes to a round goes on as this round does. -/
theorem turns_of_round {frames rest : List Frame} {frame : Frame}
    (h : e.Round s body pos env calls frames p frame rest q) :
    e.turns s body pos env calls last frames p =
      (e.block frame body env calls >>= turned (e.turns s body pos env calls last rest)) q := by
  induction h with
  | first hstep => rw [turns_cons, bind_of_ok hstep]
  | later hstep hbody hflow _ ih =>
      rw [turns_cons, bind_of_ok hstep, bind_of_ok hbody, ← ih]
      rcases hflow with rfl | ⟨value, rfl⟩ <;> rfl

/-- A loop ends with no jump but a return, and with it as one of its rounds does. -/
theorem turns_jump_iff (hflow : flow.IsJump) (hlast : ∀ r t, last r ≠ .ok flow t)
    {frames : List Frame} :
    e.turns s body pos env calls last frames p = .ok flow q ↔
      (∃ value, flow = .back value) ∧ ∃ frame rest r,
        e.Round s body pos env calls frames p frame rest r ∧
          e.block frame body env calls r = .ok flow q := by
  constructor
  · intro h
    induction frames generalizing p with
    | nil => exact (hlast p q h).elim
    | cons frame rest ih =>
        rw [turns_cons] at h
        obtain ⟨_, r, hstep, h⟩ := ok_bind_iff.1 h
        obtain ⟨made, t, hbody, h⟩ := ok_bind_iff.1 h
        cases made with
        | next value =>
            obtain ⟨hback, frame', rest', u, hround, hbody'⟩ := ih h
            exact ⟨hback, frame', rest', u, .later hstep hbody (.inr ⟨value, rfl⟩) hround, hbody'⟩
        | again =>
            obtain ⟨hback, frame', rest', u, hround, hbody'⟩ := ih h
            exact ⟨hback, frame', rest', u, .later hstep hbody (.inl rfl) hround, hbody'⟩
        | leave =>
            cases h
            exact hflow.elim
        | back value =>
            cases h
            exact ⟨⟨value, rfl⟩, frame, rest, r, .first hstep, hbody⟩
  · rintro ⟨⟨value, rfl⟩, frame, rest, r, hround, hbody⟩
    rw [turns_of_round hround, bind_of_ok hbody]
    rfl

end

/-- A loop that comes to a round ends as this round says, or goes on behind it. -/
theorem stepped_of_begins {x : Stmt} {body : List Stmt} {frame : Frame} {others : Eval ω Flow}
    (h : e.Begins s env calls x p body frame others q) :
    (s.step x.pos >>= fun _ => e.perform s x env calls) p =
      (e.block frame body env calls >>= turned others) q := by
  cases h with
  | @loop pos body p frame rest q hround =>
      change (s.step pos >>= fun _ => e.loop s body pos env calls s.rounds) p = _
      rw [step_loop_eq_turns]
      exact turns_of_round hround
  | @each pos var items body p q id r frame rest t hstep hitems hround =>
      refine (bind_of_ok hstep _).trans ((bind_of_ok hitems _).trans ?_)
      change e.each s var body pos env calls (r.store.items id).toList r = _
      rw [each_eq_turns]
      exact turns_of_round hround
  | @count pos var times body p q x r frame rest t hstep htimes hround =>
      refine (bind_of_ok hstep _).trans ((bind_of_ok htimes _).trans ?_)
      change e.count s var body pos env calls (Evaluators.rounds x) 0 r = _
      rw [count_eq_turns]
      exact turns_of_round hround

/-- A statement that makes a jump itself ends with it. -/
theorem stepped_of_makes {x : Stmt} (h : e.Makes s calls flow x env p q) :
    (s.step x.pos >>= fun _ => e.perform s x env calls) p = .ok flow q := by
  cases h with
  | leave hstep | again hstep | back hstep =>
      rw [Stmt.pos, bind_of_ok hstep]
      rfl
  | backWith hstep hvalue =>
      rw [Stmt.pos, bind_of_ok hstep]
      exact bind_of_ok hvalue _

/-- A statement that ends with a jump makes it itself, or it is a return in a round of a loop. -/
theorem stepped_ok_cases (hflow : flow.IsJump) {x : Stmt}
    (h : (s.step x.pos >>= fun _ => e.perform s x env calls) p = .ok flow q) :
    e.Makes s calls flow x env p q ∨
      (∃ value, flow = .back value) ∧ ∃ body frame others r,
        e.Begins s env calls x p body frame others r ∧
          e.block frame body env calls r = .ok flow q := by
  have hused : ∀ (pos : Pos) (r t : Progress ω), used s pos r ≠ .ok flow t := by
    intro pos r t h
    obtain ⟨_, _, -, h⟩ := ok_bind_iff.1 h
    cases h
  have hend : ∀ r t : Progress ω, (pure (.next none) : Eval ω Flow) r ≠ .ok flow t := by
    intro r t h
    cases h
    exact hflow
  obtain ⟨_, r, hstep, hx⟩ := ok_bind_iff.1 h
  cases x with
  | metadata =>
      cases hx
      exact hflow.elim
  | define | assign | out =>
      obtain ⟨_, _, -, hx⟩ := ok_bind_iff.1 hx
      obtain ⟨_, _, -, hx⟩ := ok_bind_iff.1 hx
      cases hx
      exact hflow.elim
  | eval =>
      obtain ⟨_, _, -, hx⟩ := ok_bind_iff.1 hx
      cases hx
      exact hflow.elim
  | leave =>
      cases hx
      exact .inl (.leave hstep)
  | again =>
      cases hx
      exact .inl (.again hstep)
  | back pos value =>
      cases value with
      | none =>
          cases hx
          exact .inl (.back hstep)
      | some y =>
          obtain ⟨value, t, hvalue, hx⟩ := ok_bind_iff.1 hx
          cases hx
          exact .inl (.backWith hstep hvalue)
  | loop pos body =>
      change (s.step pos >>= fun _ => e.loop s body pos env calls s.rounds) p = _ at h
      rw [step_loop_eq_turns] at h
      obtain ⟨hback, frame, rest, t, hround, hbody⟩ := (turns_jump_iff hflow (hused pos)).1 h
      exact .inr ⟨hback, body, frame, _, t, .loop hround, hbody⟩
  | each pos var items body =>
      obtain ⟨made, t, hitems, hx⟩ := ok_bind_iff.1 hx
      cases made with
      | arr id =>
          change e.each s var body pos env calls (t.store.items id).toList t = _ at hx
          rw [each_eq_turns] at hx
          obtain ⟨hback, frame, rest, u, hround, hbody⟩ := (turns_jump_iff hflow hend).1 hx
          exact .inr ⟨hback, body, frame, _, u, .each hstep hitems hround, hbody⟩
      | _ => cases hx
  | count pos var times body =>
      obtain ⟨made, t, htimes, hx⟩ := ok_bind_iff.1 hx
      obtain ⟨x, u, hnumber, hx⟩ := ok_bind_iff.1 hx
      obtain ⟨hnumber, rfl⟩ := settle_ok_iff.1 hnumber
      rw [count_eq_turns] at hx
      obtain ⟨hback, frame, rest, u, hround, hbody⟩ := (turns_jump_iff hflow hend).1 hx
      cases made with
      | num y =>
          cases hnumber
          exact .inr ⟨hback, body, frame, _, u, .count hstep htimes hround, hbody⟩
      | _ => cases hnumber

/-- A statement ends with a jump as it makes one itself or as a round of it does. -/
theorem stepped_ok_iff (hflow : flow.IsJump) {x : Stmt} :
    (s.step x.pos >>= fun _ => e.perform s x env calls) p = .ok flow q ↔
      e.Makes s calls flow x env p q ∨
      (∃ value, flow = .back value) ∧ ∃ body frame others r,
        e.Begins s env calls x p body frame others r ∧
          e.block frame body env calls r = .ok flow q := by
  refine ⟨stepped_ok_cases hflow, ?_⟩
  rintro (h | ⟨⟨value, rfl⟩, body, frame, others, r, hbegins, hbody⟩)
  · exact stepped_of_makes h
  · rw [stepped_of_begins hbegins, bind_of_ok hbody]
    rfl

theorem perform_assign_jump_iff {pos : Pos} {target x : Expr} {op : AssignOp} :
    e.perform s (.assign pos target op x) env calls p = .error (.jump flow) q ↔
      e.expr x env calls p = .error (.jump flow) q ∨
        ∃ value r, e.expr x env calls p = .ok value r ∧
          ((op ≠ .set ∧ e.expr target env calls r = .error (.jump flow) q) ∨
            ∃ t, e.Combines target op value env calls r t ∧ target.isPlace = true ∧
              e.JumpsIn env calls flow q (operands target) t) := by
  refine jump_bind_iff.trans (or_congr_right ?_)
  refine exists_congr fun value => exists_congr fun r => and_congr_right fun _ => ?_
  refine (jump_bind_iff.trans (or_iff_left ?_)).trans assign_jump_iff
  rintro ⟨_, _, -, h⟩
  cases h

section

variable (hstmt : ∀ x env calls, Straight (e.stmt x env calls))
include hstmt

/-- Behind its step, a statement that is no assignment jumps as the expression does that it starts
with. -/
theorem perform_jump_iff {x : Stmt} (hx : ∀ pos target op y, x ≠ .assign pos target op y) :
    e.perform s x env calls p = .error (.jump flow) q ↔
      ∃ y, head x = some y ∧ e.expr y env calls p = .error (.jump flow) q := by
  have hend : Straight (pure (.next none) : Eval ω Flow) := .pure _
  have straight (hx : Straight (e.perform s x env calls)) (hhead : head x = none) :
      e.perform s x env calls p = .error (.jump flow) q ↔
        ∃ y, head x = some y ∧ e.expr y env calls p = .error (.jump flow) q := by
    refine iff_of_false (hx p flow q) ?_
    rintro ⟨y, hy, -⟩
    simp [hhead] at hy
  cases x with
  | metadata | leave | again => exact straight (.pure _) rfl
  | loop pos body => exact straight (.loop hstmt body pos env calls s.rounds) rfl
  | define pos name mutable value =>
      refine (head_jump_iff fun value => .bind (.update pos _) fun _ => hend).trans ?_
      simp [head]
  | out pos value =>
      refine (head_jump_iff fun value => .bind (.emit s value) fun _ => hend).trans ?_
      simp [head]
  | eval pos value =>
      refine (head_jump_iff fun value => .pure _).trans ?_
      simp [head]
  | back pos value =>
      cases value with
      | none => exact straight (.pure _) rfl
      | some value =>
          refine (head_jump_iff fun value => .pure _).trans ?_
          simp [head]
  | each pos var items body =>
      refine (head_jump_iff fun value => ?_).trans ?_
      · cases value with
        | arr id =>
            refine .bind (.look _) fun items => ?_
            rw [each_eq_turns]
            exact .turns hstmt hend _
        | _ => exact .raise _ _
      · simp [head]
  | count pos var times body =>
      refine (head_jump_iff fun value => .bind (.settle times.pos _) fun x => ?_).trans ?_
      · rw [count_eq_turns]
        exact .turns hstmt hend _
      · simp [head]
  | assign pos target op value => exact (hx pos target op value rfl).elim

/-- A statement ends with a jump as it makes one itself, or as something does that is evaluated inside. -/
theorem onStmt_jump_iff (hflow : flow.IsJump) {x : Stmt} :
    e.onStmt s x env calls p = .ok flow q ↔
      e.Makes s calls flow x env p q ∨
        ∃ d scopes r, e.Opens s calls flow (.stmt x) env p d scopes r ∧
          e.Leaves calls flow d scopes r q := by
  refine land_ok_iff.trans ?_
  rw [stepped_ok_iff hflow, jump_bind_iff, or_iff_right (Straight.step s x.pos p flow q)]
  constructor
  · rintro ((h | ⟨hback, body, frame, others, r, hbegins, h⟩) | ⟨_, r, hstep, h⟩)
    · exact .inl h
    · obtain ⟨y, scopes, t, hbody, h⟩ := (block_jump_iff hflow).1 h
      exact .inr ⟨.stmt y, scopes, t, .round hback hbegins hbody, h⟩
    · by_cases hassign : ∃ pos target op y, x = .assign pos target op y
      · obtain ⟨pos, target, op, y, rfl⟩ := hassign
        rcases perform_assign_jump_iff.1 h with h | ⟨value, t, hvalue, ⟨hop, h⟩ |
          ⟨u, hcombines, hplace, z, v, hparts, h⟩⟩
        · exact .inr ⟨.expr y, env, r, .value hstep, h⟩
        · exact .inr ⟨.expr target, env, t, .current hop hstep hvalue, h⟩
        · exact .inr ⟨.expr z, env, v, .place hplace hstep hvalue hcombines hparts, h⟩
      · simp only [not_exists] at hassign
        obtain ⟨y, hy, h⟩ := (perform_jump_iff hstmt hassign).1 h
        exact .inr ⟨.expr y, env, r, .head hstep hy, h⟩
  · rintro (h | ⟨d, scopes, r, hopens, hd⟩)
    · exact .inl (.inl h)
    · cases hopens with
      | @head _ y _ _ _ hstep hy =>
          refine .inr ⟨(), r, hstep, (perform_jump_iff hstmt ?_).2 ⟨y, hy, hd⟩⟩
          rintro _ _ _ _ rfl
          cases hy
      | value hstep => exact .inr ⟨(), r, hstep, perform_assign_jump_iff.2 (.inl hd)⟩
      | current hop hstep hvalue =>
          exact .inr ⟨(), _, hstep, perform_assign_jump_iff.2 (.inr ⟨_, r, hvalue, .inl ⟨hop, hd⟩⟩)⟩
      | place hplace hstep hvalue hcombines hparts =>
          exact .inr ⟨(), _, hstep, perform_assign_jump_iff.2
            (.inr ⟨_, _, hvalue, .inr ⟨_, hcombines, hplace, _, r, hparts, hd⟩⟩)⟩
      | round hback hbegins hbody =>
          exact .inl (.inr ⟨hback, _, _, _, _, hbegins, (block_jump_iff hflow).2 ⟨_, _, r, hbody, hd⟩⟩)

end

/-! ## Arriving at jumps -/

/-- Evaluating a part ends with a jump just where it arrives at one of its own. -/
theorem leaves_iff_arrives (hflow : flow.IsJump) {n : Nat} {c : Part} :
    Leaves ⟨runWithin s n, evalWithin s n⟩ calls flow c env p q ↔
      Arrives s calls flow n c env p q := by
  induction n generalizing c env p q with
  | zero =>
      refine iff_of_false (fun h => ?_) fun h => nomatch h
      cases c <;> cases h
  | succ n ih =>
      have hstmt : ∀ x env calls, Straight (runWithin s n x env calls) :=
        fun x env calls p flow q => runWithin_ne_jump s n x env calls p q flow
      constructor
      · intro h
        cases c with
        | stmt x =>
            rcases (onStmt_jump_iff hstmt hflow).1 h with h | ⟨d, scopes, r, h, hd⟩
            · exact .makes h
            · exact .inside h (ih.1 hd)
        | expr x =>
            obtain ⟨d, scopes, r, h, hd⟩ := (onExpr_jump_iff hstmt hflow).1 h
            exact .inside h (ih.1 hd)
      · intro h
        cases h with
        | makes h => exact (onStmt_jump_iff hstmt hflow).2 (.inl h)
        | inside h hd =>
            cases c with
            | stmt x => exact (onStmt_jump_iff hstmt hflow).2 (.inr ⟨_, _, _, h, ih.2 hd⟩)
            | expr x => exact (onExpr_jump_iff hstmt hflow).2 ⟨_, _, _, h, ih.2 hd⟩

end Evaluators

end ScriptLab.Machine
