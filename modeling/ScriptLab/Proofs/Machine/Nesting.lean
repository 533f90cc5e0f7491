import ScriptLab.Proofs.Machine.Making
import ScriptLab.Proofs.Machine.OpenEvaluations
import ScriptLab.Proofs.Value.Unfolding

/-!
# Nesting of values

Trees and calls are not nested too deeply, but values may be: a loop can put an array into another one
in every round. What bounds their nesting is the work that it takes: a chain of containers, one inside
the other, is no longer than the steps of a run have made containers, twice the size of the program for
each step at the most.
-/

namespace ScriptLab

/-! ## Chains of containers -/

theorem Value.eq_arr_of_same {v : Value} {id : Nat} (h : v.same (.arr id) = true) :
    v = .arr id := by
  cases v with
  | arr j => exact congrArg Value.arr (by simpa [Value.same] using h)
  | _ => simp [Value.same] at h

namespace Store

variable {s : Store} {chain : List Container}

/-- Containers, all different, each of which holds the next one directly. -/
structure Chain (s : Store) (chain : List Container) : Prop where
  holds : chain.IsChain s.Holds
  nodup : chain.Nodup

theorem Holds.mem_containers {c d : Container} (h : s.Holds c d) : c ∈ s.containers := by
  cases c with
  | arr id => exact arr_mem_containers (Array.mem_toList_iff.1 h)
  | obj id =>
      obtain ⟨entry, hentry, -⟩ := List.mem_map.1 h
      exact obj_mem_containers hentry

/-- What holds something exists, so that nothing but the last container of a chain may be missing. -/
theorem dropLast_subset (h : chain.IsChain s.Holds) : chain.dropLast ⊆ s.containers := by
  induction h with
  | nil | singleton => exact List.nil_subset _
  | cons_cons hholds _ ih =>
      rw [List.dropLast_cons_cons]
      exact List.cons_subset.2 ⟨hholds.mem_containers, ih⟩

theorem Chain.length_le (h : s.Chain chain) : chain.length ≤ s.nestingBound := by
  have hnodup : chain.dropLast.Nodup := h.nodup.sublist (List.dropLast_sublist chain)
  have hle := (List.subperm_of_subset hnodup (dropLast_subset h.holds)).length_le
  rw [List.length_dropLast, length_containers] at hle
  rw [nestingBound]
  omega

/-- Whether each array but the first one holds the array that was made just before it. -/
def isSpiral (s : Store) : Bool :=
  s.arrays.toList.tail.zipIdx.all fun entry => entry.1.any fun v => v.same (.arr entry.2)

theorem holds_of_isSpiral (h : s.isSpiral = true) {id : Nat} (hid : id + 1 < s.arrays.size) :
    s.Holds (.arr (id + 1)) (.arr id) := by
  have hmem : (s.arrays[id + 1], id) ∈ s.arrays.toList.tail.zipIdx := by
    simp [List.mk_mem_zipIdx_iff_getElem?, hid]
  obtain ⟨v, hv, hsame⟩ := Array.any_eq_true'.1 (List.all_eq_true.1 h _ hmem)
  obtain rfl := Value.eq_arr_of_same hsame
  have hitems : s.items (id + 1) = s.arrays[id + 1] := by
    rw [items, Array.getD_eq_getD_getElem?, Array.getElem?_eq_getElem hid, Option.getD_some]
  change Value.arr id ∈ (s.items (id + 1)).toList
  rw [hitems]
  exact Array.mem_toList_iff.2 hv

/-- The arrays of a spiral are a chain, from any of them to the first one. -/
theorem chain_of_isSpiral (h : s.isSpiral = true) {n : Nat} (hn : n < s.arrays.size) :
    s.Chain ((List.range (n + 1)).reverse.map .arr) := by
  refine ⟨?_, ?_⟩
  · induction n with
    | zero => exact .singleton _
    | succ n ih =>
        have hrest := ih (Nat.lt_of_succ_lt hn)
        rw [List.range_succ, List.reverse_concat, List.map_cons] at hrest ⊢
        rw [List.range_succ, List.reverse_concat, List.map_cons]
        exact .cons_cons (holds_of_isSpiral h hn) hrest
  · have hinj : Function.Injective Container.arr := fun _ _ heq => Container.arr.inj heq
    exact (List.nodup_reverse.2 List.nodup_range).map hinj

theorem exists_chain_of_outputs {outputs : List (Store × Value)} {n : Nat}
    (h : (outputs.any fun output =>
      output.2.same (.arr n) && decide (n < output.1.arrays.size) && output.1.isSpiral) = true) :
    ∃ store root chain, (store, root.value) ∈ outputs ∧ store.Chain (root :: chain) ∧
      (root :: chain).length = n + 1 := by
  obtain ⟨⟨store, v⟩, hout, hv⟩ := List.any_eq_true.1 h
  simp only [Bool.and_eq_true, decide_eq_true_eq] at hv
  obtain ⟨⟨hsame, hn⟩, hspiral⟩ := hv
  obtain rfl := Value.eq_arr_of_same hsame
  have hchain := chain_of_isSpiral hspiral hn
  rw [List.range_succ, List.reverse_concat, List.map_cons] at hchain
  exact ⟨store, .arr n, _, hout, hchain, by simp⟩

end Store

namespace Machine

open Program
open Text (Pos)

variable {ω : Type} {α β : Type}

/-! ## Moments of a run -/

theorem Thrifty.outer {size : Nat} {e : Evaluators ω} (he : Thrifty size e) (s : Setting ω) :
    Thrifty size (e.outer s) :=
  ⟨fun _ env calls hx => he.onStmt hx env calls, fun _ env calls hx => he.onExpr hx env calls⟩

/-- An action that is stopped dead where it begins and where it ends, if a watch says so. -/
def halting (stop : Progress ω → Bool) (m : Eval ω α) : Eval ω α :=
  fun p =>
    if stop p then .error (.crashed none) p
    else
      match m p with
      | .ok a q => if stop q then .error (.crashed none) q else .ok a q
      | .error halt q => .error halt q

theorem halting_never {stop : Progress ω → Bool} (h : ∀ p, stop p = false) (m : Eval ω α) :
    halting stop m = m := by
  funext p
  unfold halting
  rw [h]
  cases hm : m p with
  | ok a q => simp [h]
  | error halt q => rfl

theorem Makes.halting {size number : Nat} {m : Eval ω α} (hm : Makes size number m)
    (stop : Progress ω → Bool) : Makes size number (halting stop m) := by
  intro p hp
  have hr := hm p hp
  unfold Machine.halting
  split
  · exact .of_le hp (Nat.le_refl _) (Nat.le_add_right _ _)
  · cases h : m p with
    | ok a q =>
        rw [h] at hr
        dsimp only
        split <;> exact hr
    | error halt q =>
        rw [h] at hr
        exact hr

namespace Evaluators

/-- Evaluators of which a number may be open, and with a watch that may stop the run where the
evaluation of a statement or an expression begins and where it ends. All that is shown while a program
runs is shown where the evaluation of an expression has just ended. -/
def watched (s : Setting ω) (stop : Progress ω → Bool) : Nat → Evaluators ω
  | 0 => spent
  | n + 1 =>
    let inside := (watched s stop n).outer s
    ⟨fun x env calls => halting stop (inside.stmt x env calls),
      fun x env calls => halting stop (inside.expr x env calls)⟩

theorem watched_never {stop : Progress ω → Bool} (h : ∀ p, stop p = false) (s : Setting ω)
    (n : Nat) : watched s stop n = layered s spent n := by
  induction n with
  | zero => rfl
  | succ n ih => simp only [watched, layered, ih, halting_never h]

theorem thrifty_watched (size : Nat) (s : Setting ω) (stop : Progress ω → Bool) (n : Nat) :
    Thrifty size (watched s stop n) := by
  induction n with
  | zero => exact ⟨fun _ _ _ _ => .throw _, fun _ _ _ _ => (Makes.throw _).mono (Nat.zero_le _)⟩
  | succ n ih =>
      have hinside := ih.outer s
      exact ⟨fun x env calls hx => (hinside.stmt x env calls hx).halting stop,
        fun x env calls hx => (hinside.expr x env calls hx).halting stop⟩

end Evaluators

/-! ## Whole runs -/

theorem nestingBound_storeBehind (frame : Nat)
    (r : EStateM.Result Halt (Progress ω) (Option Value)) :
    (storeBehind frame r).nestingBound = (lastState r).store.nestingBound := by
  rcases r with _ | ⟨halt, _⟩
  · rfl
  · cases halt <;> rfl

namespace Interpreter

/-- A store in which all functions have small statements, with no more containers than some steps pay
for. -/
structure Nested (size steps : Nat) (store : Store) : Prop where
  bodies : EachBody (·.nodes ≤ size) store
  nesting : store.nestingBound ≤ 2 * size * steps + 1

/-- A run, wherever it is stopped, makes no more than its steps pay for. -/
theorem Nested.runOver {size steps : Nat} {store : Store} (h : Nested size steps store)
    (i : Interpreter) {e : Evaluators ω} (he : Thrifty size e) {program : List Stmt}
    (hsize : nodesOfStmts program ≤ size) :
    Nested size (steps + (i.runOver e store program).steps) (i.runOver e store program).store := by
  unfold Interpreter.runOver
  split
  · exact h
  · have hbody : ∀ x ∈ program, x.nodes ≤ size := fun x hx =>
      Nat.le_trans (nodes_le_nodesOfStmts hx) hsize
    have hmade := he.program hbody none ⟨(store.newFrame []).1, [i.globals]⟩
      { store := (store.newFrame []).2 } (h.bodies.of_callables rfl)
    generalize e.program _ none program _ = r at hmade
    have hsteps : (conclude (store.newFrame []).1 r).steps = (lastState r).steps := rfl
    have hstore : (conclude (store.newFrame []).1 r).store =
        storeBehind (store.newFrame []).1 r := rfl
    have hnesting := hmade.nesting
    have hbefore := h.nesting
    have hframe : (store.newFrame []).2.nestingBound = store.nestingBound := rfl
    rw [hsteps, hstore]
    refine ⟨hmade.bodies.of_callables (callables_storeBehind r), ?_⟩
    rw [nestingBound_storeBehind, Nat.mul_add]
    simp only [Nat.mul_zero] at hnesting
    omega

/-- An interpreter without constants of the host that has run programs of at most some size, with its
store and the steps that it has taken in all. -/
inductive Worked (size : Nat) : Interpreter → Store → Nat → Prop
  | create (limits : Limits) :
      Worked size (Interpreter.create {} [] limits).1 (Interpreter.create {} [] limits).2 0
  | run {ω : Type} {i : Interpreter} {store : Store} {steps : Nat} {program : List Stmt}
      (interruption : Option Interruption) (record : Store → Value → ω)
      (h : Worked size i store steps) (hsize : nodesOfStmts program ≤ size) :
      Worked size i (i.run interruption record store program).store
        (steps + (i.run interruption record store program).steps)
  | abort {i : Interpreter} {store : Store} {steps : Nat} (h : Worked size i store steps) :
      Worked size i.abort store steps

theorem Worked.nested {size steps : Nat} {i : Interpreter} {store : Store}
    (h : Worked size i store steps) : Nested size steps store := by
  induction h with
  | create limits =>
      refine ⟨EachBody.of_callables (EachBody.builtinBindings EachBody.empty Builtin.all) rfl, ?_⟩
      exact Nat.le_of_eq rfl
  | @run ξ i store steps program interruption record _ hsize ih =>
      have hnever : ∀ p : Progress ξ, (fun _ => false : Progress ξ → Bool) p = false := fun _ => rfl
      rw [run_eq_runOver, ← Evaluators.watched_never hnever]
      exact ih.runOver i (Evaluators.thrifty_watched size _ _ _) hsize
  | abort _ ih => exact ih

/-- Values are nested no deeper than the steps of a run allow. Whatever programs an interpreter without
constants runs, under whatever limits, and wherever its run is stopped: a chain of different containers,
each held directly by the one before it, has at most twice the size of the programs for each step that
was taken, and one more. -/
theorem nesting_bounded {size steps : Nat} {i : Interpreter} {store : Store}
    (hworked : Worked size i store steps) {program : List Stmt}
    (hsize : nodesOfStmts program ≤ size) (interruption : Option Interruption)
    (record : Store → Value → ω) (stop : Progress ω → Bool) :
    let s := i.setting interruption record
    let run := i.runOver (.watched s stop (budget i.limits)) store program
    ((∀ p, stop p = false) → run = i.run interruption record store program) ∧
      ∀ chain, run.store.Chain chain → chain.length ≤ 2 * size * (steps + run.steps) + 1 := by
  intro s run
  refine ⟨fun hstop => ?_, fun chain hchain => ?_⟩
  · rw [run_eq_runOver, ← Evaluators.watched_never hstop]
  · have hnested := hworked.nested.runOver i
      (Evaluators.thrifty_watched size s stop (budget i.limits)) hsize
    exact Nat.le_trans hchain.length_le hnested.nesting

/-- A loop that puts an array into another one in every round. -/
def spiral : List Stmt :=
  [.define ⟨1, 1⟩ "a" true (.arr ⟨1, 9⟩ []),
    .loop ⟨2, 1⟩ [.assign ⟨2, 8⟩ (.ident ⟨2, 8⟩ "a") .set (.arr ⟨2, 12⟩ [.ident ⟨2, 13⟩ "a"])]]

theorem nesting_bounded_spiral :
    let made := create {} [] { maxCalls := 0 }
    let s := made.1.setting none Store.output
    let run := made.1.runOver (.watched s (·.steps == 6) (budget made.1.limits)) made.2 spiral
    Worked 7 made.1 made.2 0 ∧ nodesOfStmts spiral ≤ 7 ∧ run.steps = 6 ∧
      run.store.Chain [.arr 2, .arr 1, .arr 0] ∧ 3 ≤ 2 * 7 * (0 + run.steps) + 1 := by
  intro made s run
  have hworked : Worked 7 made.1 made.2 0 := .create _
  have hsize : nodesOfStmts spiral ≤ 7 := by decide
  have hchain : run.store.Chain [.arr 2, .arr 1, .arr 0] :=
    Store.chain_of_isSpiral (n := 2) (by decide +kernel) (by decide +kernel)
  have h := nesting_bounded hworked hsize none Store.output (·.steps == 6)
  exact ⟨hworked, hsize, by decide +kernel, hchain, h.2 _ hchain⟩

/-- No limit on trees and calls bounds the nesting of values: without a single call, a program gives out
an array with as many arrays inside it, one inside the other, as a tree may be deep. -/
theorem nesting_exceeds_calls :
    let limits : Limits := { maxCalls := 0 }
    let made := create {} [] limits
    ∃ program, parse .modern "var a = []\nfor let i, 32 { a = [[[[[[[[a]]]]]]]] }\n<: a" = .ok program ∧
      ∃ store root chain, (store, root.value) ∈ (made.1.run none Prod.mk made.2 program).outputs ∧
        store.Chain (root :: chain) ∧
        maxTreeDepth * (limits.maxCalls + 1) < (root :: chain).length := by
  intro limits made
  have hrun : (match parse .modern "var a = []\nfor let i, 32 { a = [[[[[[[[a]]]]]]]] }\n<: a" with
      | .ok program => (made.1.run none Prod.mk made.2 program).outputs.any fun output =>
          output.2.same (.arr 256) && decide (256 < output.1.arrays.size) && output.1.isSpiral
      | .error _ => false) = true := by
    decide +kernel
  split at hrun
  · next program hparse =>
      obtain ⟨store, root, chain, hout, hchain, hlength⟩ := Store.exists_chain_of_outputs hrun
      have hless : maxTreeDepth * (limits.maxCalls + 1) < 257 := by decide
      exact ⟨program, hparse, store, root, chain, hout, hchain, hlength ▸ hless⟩
  · cases hrun

end Interpreter

end Machine

end ScriptLab
