import Mathlib.Data.List.Sort
import ScriptLab.Proofs.Host.Disposal
import ScriptLab.Proofs.Host.Sessions
import ScriptLab.Proofs.Machine.Interruption

/-!
# Requests in the course of a run

Requests may come at every point of a run: at each text that it gives to its sink, and each time it is
suspended. They are answered at one point after the other, until the runner is disposed by one of
them. Then the run is cut there, and no further point is reached.
-/

namespace ScriptLab.Host

open Machine
open Program (Stmt)

namespace Runner

/-! ## The points of a run -/

/-- How many points a run has come to when it comes to a point, that one included. The run is stopped
dead there to see what it had done before. -/
def moment (r : Runner) (program : List Stmt) (cue : Cue) : Nat :=
  let (interpreter, store) := Interpreter.create {} [] r.limits
  let p := lastState (interpreter.result (some ⟨cue, .crash none⟩) Store.output store program)
  match cue with
  | .output n => n + p.pauses
  | .pause n => p.outputs.length + n
  | .deadline _ => 0

/-- The texts that a program gives to the sink if nothing disturbs it. -/
def undisturbed (r : Runner) (program : List Stmt) : List String :=
  (r.exec ⟨r.release, program⟩ none).texts

/-- The points of a program if nothing disturbs it, in the order in which it comes to them. -/
def points (r : Runner) (program : List Stmt) : List Cue :=
  ((List.range' 1 (r.undisturbed program).length).map Cue.output ++
    (List.range' 1 (r.suspensions program)).map Cue.pause).insertionSort
      fun cue other => r.moment program cue ≤ r.moment program other

theorem mem_points {r : Runner} {program : List Stmt} {cue : Cue} :
    cue ∈ r.points program ↔
      (∃ n, 1 ≤ n ∧ n ≤ (r.undisturbed program).length ∧ cue = .output n) ∨
        ∃ n, 1 ≤ n ∧ n ≤ r.suspensions program ∧ cue = .pause n := by
  unfold points
  rw [(List.perm_insertionSort _ _).mem_iff]
  simp [List.mem_range'_1, and_assoc, Nat.add_comm 1, eq_comm]

theorem nodup_points (r : Runner) (program : List Stmt) : (r.points program).Nodup := by
  have houtputs : Function.Injective Cue.output := fun _ _ h => Cue.output.inj h
  have hpauses : Function.Injective Cue.pause := fun _ _ h => Cue.pause.inj h
  unfold points
  rw [(List.perm_insertionSort _ _).nodup_iff, List.nodup_append']
  refine ⟨List.Nodup.map houtputs List.nodup_range', List.Nodup.map hpauses List.nodup_range', ?_⟩
  rw [List.disjoint_left]
  simp only [List.mem_map, not_exists, not_and]
  rintro _ ⟨n, -, rfl⟩ k - h
  cases h

/-! ### Points that are reached -/

/-- The output of a final value has the next number. -/
def finalCue (run : Run String) : Option Cue :=
  match run.ending with
  | .finished (some _) => some (.output (run.outputs.length + 1))
  | _ => none

theorem length_texts_finish (r : Runner) (run : Run String) (n : Nat) :
    n ≤ (r.finish none run).texts.length ↔
      n ≤ run.outputs.length ∨ finalCue run = some (.output n) := by
  unfold finish finalCue
  cases run.ending with
  | finished last =>
      cases last with
      | none => simp
      | some v =>
          simp [deliver]
          omega
  | _ => simp

/-- An interruption has happened at the end if it had happened in the run, or if its point was the
final value. -/
theorem interrupted_finish (r : Runner) (cue : Cue) (effect : Effect) (run : Run String) :
    (r.finish (some ⟨cue, effect⟩) run).interrupted =
      (run.interrupted || finalCue run == some cue) := by
  unfold finish finalCue
  cases run.ending with
  | finished last =>
      cases last with
      | none => simp
      | some v =>
          dsimp only
          unfold deliver
          cases cue with
          | output n =>
              have hcue : (some (Cue.output (run.outputs.length + 1)) == some (.output n)) =
                  ((run.outputs ++ [run.store.repr v]).length == n) :=
                Bool.eq_iff_iff.2 (by simp)
              rw [hcue]
              dsimp only
              cases run.interrupted <;>
                cases (run.outputs ++ [run.store.repr v]).length == n <;>
                cases effect <;> rfl
          | pause n => simp
          | deadline n => simp
  | _ => simp

/-- An interruption that does nothing leaves an execution as it is, wherever it was noted. -/
theorem finish_nothing (r : Runner) (cue : Cue) (run : Run String) (interrupted : Bool) :
    (r.finish (some ⟨cue, .nothing⟩) { run with interrupted }).texts = (r.finish none run).texts ∧
      (r.finish (some ⟨cue, .nothing⟩) { run with interrupted }).result =
        (r.finish none run).result := by
  unfold finish
  dsimp only
  cases run.ending with
  | finished last =>
      cases last with
      | none => exact ⟨rfl, rfl⟩
      | some v =>
          unfold deliver
          cases cue with
          | output n =>
              dsimp only
              cases !interrupted && (run.outputs ++ [run.store.repr v]).length == n <;>
                exact ⟨rfl, rfl⟩
          | pause n | deadline n => exact ⟨rfl, rfl⟩
  | _ => exact ⟨rfl, rfl⟩

/-- The state in which a program ends that nothing disturbs. -/
def lastProgress (r : Runner) (program : List Stmt) : Progress String :=
  let (interpreter, store) := Interpreter.create {} [] r.limits
  lastState (interpreter.result none Store.output store program)

theorem length_outputs (r : Runner) (program : List Stmt) :
    (r.run program none).outputs.length = (r.lastProgress program).outputs.length := by
  change (Interpreter.run (Interpreter.create {} [] r.limits).1 none Store.output
    (Interpreter.create {} [] r.limits).2 program).outputs.length = _
  rw [Interpreter.run_eq_conclude rfl]
  exact List.length_reverse

theorem interrupted_undisturbed (r : Runner) (program : List Stmt) :
    (r.run program none).interrupted = false := by
  change (Interpreter.run (Interpreter.create {} [] r.limits).1 none Store.output
    (Interpreter.create {} [] r.limits).2 program).interrupted = _
  rw [Interpreter.run_eq_conclude rfl]
  exact (Interpreter.result_undisturbed _ _ _ _).2

section Fresh

variable {r : Runner} (hr : r.disposed = false) {program : List Stmt} {cue : Cue}
include hr

theorem exec_of_fresh (program : List Stmt) (interruption : Option Interruption) :
    r.exec ⟨r.release, program⟩ interruption =
      r.finish interruption (r.run program interruption) := by
  obtain ⟨release, limits, disposed⟩ := r
  cases hr
  exact exec_fresh release limits program interruption

/-- The points of a program are those that it has passed at its end, and the final value. -/
theorem mem_points_iff :
    cue ∈ r.points program ↔ cue.passed (r.lastProgress program) = true ∨
      finalCue (r.run program none) = some cue := by
  have hlength : ∀ n, n ≤ (r.undisturbed program).length ↔
      n ≤ (r.run program none).outputs.length ∨
        finalCue (r.run program none) = some (.output n) := by
    intro n
    unfold undisturbed
    rw [exec_of_fresh hr]
    exact r.length_texts_finish _ n
  have hfinal : ∀ cue, finalCue (r.run program none) = some cue →
      ∃ n, 1 ≤ n ∧ cue = .output n := by
    intro cue h
    unfold finalCue at h
    split at h
    · exact ⟨_, Nat.le_add_left _ _, (Option.some.inj h).symm⟩
    · cases h
  rw [mem_points]
  simp only [hlength, length_outputs]
  cases cue with
  | output n =>
      simp only [Cue.passed, Cue.output.injEq, reduceCtorEq, and_false, exists_false, or_false,
        decide_eq_true_eq]
      constructor
      · rintro ⟨m, hpos, hle | hm, rfl⟩
        · exact .inl ⟨hpos, hle⟩
        · exact .inr hm
      · rintro (⟨hpos, hle⟩ | h)
        · exact ⟨n, hpos, .inl hle, rfl⟩
        · obtain ⟨m, hpos, hm⟩ := hfinal _ h
          cases hm
          exact ⟨n, hpos, .inr h, rfl⟩
  | pause n =>
      have hnot : finalCue (r.run program none) ≠ some (.pause n) := by
        intro h
        obtain ⟨m, -, hm⟩ := hfinal _ h
        cases hm
      simp only [Cue.passed, Cue.pause.injEq, reduceCtorEq, and_false, exists_false, false_or,
        decide_eq_true_eq, hnot, or_false]
      constructor
      · rintro ⟨m, hpos, hle, rfl⟩
        exact ⟨hpos, hle⟩
      · rintro ⟨hpos, hle⟩
        exact ⟨n, hpos, hle, rfl⟩
  | deadline n =>
      have hnot : finalCue (r.run program none) ≠ some (.deadline n) := by
        intro h
        obtain ⟨m, -, hm⟩ := hfinal _ h
        cases hm
      simp [Cue.passed, hnot]

/-- An interruption that does nothing happens at the points, and leaves the execution as it is. -/
theorem exec_nothing (program : List Stmt) (hcue : cue.isMoment = false) :
    let idle := r.exec ⟨r.release, program⟩ (some ⟨cue, .nothing⟩)
    idle.texts = (r.exec ⟨r.release, program⟩ none).texts ∧
      idle.result = (r.exec ⟨r.release, program⟩ none).result ∧
      (idle.interrupted = true ↔ cue ∈ r.points program) := by
  intro idle
  have hrun : r.run program (some ⟨cue, .nothing⟩) =
      { r.run program none with interrupted := cue.passed (r.lastProgress program) } :=
    Interpreter.run_idle rfl Store.output _ program hcue
  have hidle : idle = r.finish (some ⟨cue, .nothing⟩)
      { r.run program none with interrupted := cue.passed (r.lastProgress program) } := by
    rw [← hrun]
    exact exec_of_fresh hr program _
  obtain ⟨htexts, hresult⟩ := r.finish_nothing cue (r.run program none)
    (cue.passed (r.lastProgress program))
  rw [hidle, exec_of_fresh hr]
  refine ⟨htexts, hresult, ?_⟩
  rw [interrupted_finish, mem_points_iff hr]
  simp [finalCue]

/-- A disposal happens at the points, and elsewhere it leaves the execution as it is. -/
theorem exec_dispose {code : String} (hparse : r.release.parse code = .ok program)
    (hcue : cue.isMoment = false) :
    let cut := r.exec ⟨r.release, program⟩ (some ⟨cue, .abort⟩)
    (cut.interrupted = true ↔ cue ∈ r.points program) ∧
      (cue ∉ r.points program → cut.texts = (r.exec ⟨r.release, program⟩ none).texts ∧
        cut.result = (r.exec ⟨r.release, program⟩ none).result) := by
  intro cut
  have hcut : cut = r.finish (some ⟨cue, .abort⟩) (r.run program (some ⟨cue, .abort⟩)) :=
    exec_of_fresh hr program _
  rw [hcut, exec_of_fresh hr, mem_points_iff hr, interrupted_finish]
  rcases r.run_parted hparse cue with ⟨hrun, houtputs, hpauses⟩ | ⟨hparted, hreached⟩
  · have hpassed : cue.passed (r.lastProgress program) = false := by
      rw [length_outputs] at houtputs
      apply Bool.eq_false_iff.2
      cases cue with
      | output n =>
          have := houtputs n rfl
          simp only [Cue.passed, ne_eq, decide_eq_true_eq]
          omega
      | pause n =>
          have hfew : n ≠ 0 → (r.lastProgress program).pauses < n := hpauses n rfl
          simp only [Cue.passed, ne_eq, decide_eq_true_eq]
          omega
      | deadline n => cases hcue
    rw [hrun, r.interrupted_undisturbed program, hpassed]
    refine ⟨by simp, fun _ => r.finish_abort cue _⟩
  · have hpassed : cue.passed (r.lastProgress program) = true := by
      have hbegun := hparted.begun.length_le
      rw [length_outputs] at hbegun
      cases cue with
      | output n =>
          obtain ⟨hpos, hlen⟩ := hparted.output n rfl
          simp only [Cue.passed, decide_eq_true_eq]
          omega
      | pause n =>
          have hsome : n ≠ 0 ∧ n ≤ (r.lastProgress program).pauses := hreached n rfl
          simp only [Cue.passed, decide_eq_true_eq]
          omega
      | deadline n => cases hcue
    rw [hparted.interrupted, hpassed]
    simp

end Fresh

end Runner

/-! ## Runs with requests at every point -/

/-- What is asked at the points of a run. -/
abbrev Plan := Cue → List Request

namespace Playground

/-- Whether the runner at a place is disposed. -/
def disposedAt (p : Playground) (place : Nat) : Bool :=
  p.seats[place]?.any (·.runner.disposed)

/-- Answers what is asked at the points of a run of the runner at a place, until it is disposed. The
results are the requests that came to be asked, and the point at which the run was cut. -/
def attend (p : Playground) (place : Nat) (plan : Plan) : List Cue → List Request × Option Cue
  | [] => ([], none)
  | cue :: rest =>
    let q := (p.answerAll (plan cue)).1
    if q.disposedAt place then (plan cue, some cue)
    else
      let (requests, cut) := q.attend place plan rest
      (plan cue ++ requests, cut)

theorem attend_cons (p : Playground) (place : Nat) (plan : Plan) (cue : Cue) (rest : List Cue) :
    p.attend place plan (cue :: rest) =
      if (p.answerAll (plan cue)).1.disposedAt place then (plan cue, some cue)
      else (plan cue ++ ((p.answerAll (plan cue)).1.attend place plan rest).1,
        ((p.answerAll (plan cue)).1.attend place plan rest).2) := rfl

/-- The place of the runner that runs a program in a session, with the points of the run. There is
none if the session is not open or the program is malformed. -/
def course (p : Playground) (session : Nat) (code : String) : Option (Nat × List Cue) :=
  match p.seat? session with
  | .error _ => none
  | .ok (place, seat) =>
    match seat.runner.release.parse code with
    | .error _ => none
    | .ok program => some (place, seat.runner.points program)

/-- The requests that come to be asked during a run, and the point at which it is cut. -/
def during (p : Playground) (session : Nat) (code : String) (plan : Plan) :
    List Request × Option Cue :=
  match p.course session code with
  | none => ([], none)
  | some (place, points) => p.attend place plan points

/-- Runs a program in a session while requests come at its points. Of all these requests only those
matter to the run that dispose its runner, so that they are all put at the point where that
happens. -/
def runAmid (p : Playground) (session : Nat) (code : String) (plan : Plan) : RunResult :=
  let (requests, cut) := p.during session code plan
  let (q, replies) := p.answerAll requests
  { p.run session code (cut.map fun cue => { cue, requests }) with playground := q, replies }

/-! ### Runs as executions -/

variable {p : Playground} {session place : Nat} {seat : Seat} {code : String}

theorem course_of_parsed {program : List Stmt} (hseat : p.seat? session = .ok (place, seat))
    (hparse : seat.runner.release.parse code = .ok program) :
    p.course session code = some (place, seat.runner.points program) := by
  simp [course, hseat, hparse]

/-- A program that comes to one point, its only output. -/
theorem course_single (hseat : p.seat? session = .ok (place, seat))
    (hrunner : seat.runner = { release := .v0_16_0, limits := {} }) :
    p.course session "<: true" = some (place, [.output 1]) := by
  have hparse : Release.parse .v0_16_0 "<: true" = .ok [.out ⟨1, 1⟩ (.bool ⟨1, 4⟩ true)] := by
    decide +kernel
  have hpoints : Runner.points { release := .v0_16_0, limits := {} }
      [.out ⟨1, 1⟩ (.bool ⟨1, 4⟩ true)] = [.output 1] := by
    decide +kernel
  rw [← hpoints, ← hrunner]
  apply course_of_parsed hseat
  rw [hrunner, hparse]

/-- What a runner reports of an execution of a program. -/
def reportOf (r : Runner) (program : List Stmt) (result : Except Failure Outcome) : Report :=
  { version := r.release.version
    metadata := metadataJson program
    verdict := match result with
      | .ok outcome => .ended outcome
      | .error failure => .failed .exec (r.classify failure) failure.message }

/-- A run without an interlude is an execution. -/
theorem run_undisturbed {program : List Stmt} (hseat : p.seat? session = .ok (place, seat))
    (hparse : seat.runner.release.parse code = .ok program) :
    let execution := seat.runner.exec ⟨seat.runner.release, program⟩ none
    p.run session code none =
      { playground := p
        texts := execution.texts.map fun text => (seat.sink, text)
        report := .ok (reportOf seat.runner program execution.result)
        replies := [] } := by
  intro execution
  have hrunner : seat.runner.parse code =
      .ok (⟨seat.runner.release, program⟩, metadataJson program) := by
    unfold Runner.parse
    rw [hparse]
  unfold run
  simp only [hseat, hrunner]
  simp [answerAll, execution]
  rfl

/-- A run with an interlude is an execution that is cut if the requests dispose the runner. -/
theorem run_disturbed {program : List Stmt} (hseat : p.seat? session = .ok (place, seat))
    (hparse : seat.runner.release.parse code = .ok program) (cue : Cue)
    (requests : List Request) :
    let q := (p.answerAll requests).1
    let effect := if q.disposedAt place then Effect.abort else .nothing
    let execution := seat.runner.exec ⟨seat.runner.release, program⟩ (some ⟨cue, effect⟩)
    p.run session code (some { cue, requests }) =
      { playground := if execution.interrupted then q else p
        texts := execution.texts.map fun text => (seat.sink, text)
        report := .ok (reportOf seat.runner program execution.result)
        replies := if execution.interrupted then (p.answerAll requests).2 else [] } := by
  intro q effect execution
  have hrunner : seat.runner.parse code =
      .ok (⟨seat.runner.release, program⟩, metadataJson program) := by
    unfold Runner.parse
    rw [hparse]
  unfold run
  simp only [hseat, hrunner]
  rfl

/-- The texts of a run go to the sink of its session. -/
theorem texts_run (h : p.Sound) (interlude : Option Interlude) :
    ∀ text ∈ (p.run session code interlude).texts, text.1 = session := by
  unfold run
  cases hseat : p.seat? session with
  | error refusal => simp
  | ok found =>
      obtain ⟨hbound, hplace⟩ := seat?_eq_ok_iff.1 hseat
      cases hparse : found.2.runner.parse code with
      | error failure => simp [hparse]
      | ok parsed =>
          have hsink := h.sink_eq hbound hplace
          simp [hparse, hsink]

/-- A run that is cut is cut by the disposal of its runner. -/
theorem disposedAt_of_attend {plan : Plan} {points : List Cue} {cue : Cue}
    (h : (p.attend place plan points).2 = some cue) :
    (p.answerAll (p.attend place plan points).1).1.disposedAt place = true := by
  induction points generalizing p with
  | nil => cases h
  | cons first rest ih =>
      rw [attend_cons] at h ⊢
      by_cases hdisposed : (p.answerAll (plan first)).1.disposedAt place = true
      · rw [if_pos hdisposed]
        exact hdisposed
      · rw [if_neg hdisposed] at h ⊢
        rw [answerAll_append]
        exact ih h

/-- A run amid requests is an execution that is disposed where the run is cut. -/
theorem runAmid_eq {program : List Stmt} (hseat : p.seat? session = .ok (place, seat))
    (hparse : seat.runner.release.parse code = .ok program) (plan : Plan) :
    let attended := p.attend place plan (seat.runner.points program)
    let execution := seat.runner.exec ⟨seat.runner.release, program⟩
      (attended.2.map fun cue => ⟨cue, .abort⟩)
    p.runAmid session code plan =
      { playground := (p.answerAll attended.1).1
        texts := execution.texts.map fun text => (seat.sink, text)
        report := .ok (reportOf seat.runner program execution.result)
        replies := (p.answerAll attended.1).2 } := by
  have hcourse := course_of_parsed hseat hparse
  dsimp only
  simp only [runAmid, during, hcourse]
  cases hcut : (p.attend place plan (seat.runner.points program)).2 with
  | none =>
      rw [Option.map_none, run_undisturbed hseat hparse]
      rfl
  | some cue =>
      rw [Option.map_some, run_disturbed hseat hparse]
      simp only [disposedAt_of_attend hcut, if_true]
      rfl

/-- What comes of a run depends on the requests only through the point at which it is cut. -/
theorem runAmid_congr {plan other : Plan}
    (h : (p.during session code plan).2 = (p.during session code other).2) :
    (p.runAmid session code plan).texts = (p.runAmid session code other).texts ∧
      (p.runAmid session code plan).report = (p.runAmid session code other).report := by
  cases hseat : p.seat? session with
  | error refusal => simp [runAmid, during, course, run, hseat]
  | ok found =>
      cases hparse : found.2.runner.release.parse code with
      | error fault => simp [runAmid, during, course, run, hseat, hparse, Runner.parse]
      | ok program =>
          simp only [during, course_of_parsed hseat hparse] at h
          simp only [runAmid_eq hseat hparse, h, and_self]

/-! ### Requests at one point -/

theorem attend_of_idle {plan : Plan} {points : List Cue} (hplan : ∀ cue ∈ points, plan cue = [])
    (hplace : p.disposedAt place = false) : p.attend place plan points = ([], none) := by
  induction points with
  | nil => rfl
  | cons cue rest ih =>
      rw [List.forall_mem_cons] at hplan
      unfold attend
      rw [hplan.1]
      simp [answerAll, hplace, ih hplan.2]

/-- A plan with requests at one point only. -/
def Plan.at (cue : Cue) (requests : List Request) : Plan :=
  fun other => if other = cue then requests else []

theorem attend_at {cue : Cue} (requests : List Request) {points : List Cue}
    (hnodup : points.Nodup) (hplace : p.disposedAt place = false) :
    p.attend place (Plan.at cue requests) points =
      if cue ∈ points then
        (requests, if (p.answerAll requests).1.disposedAt place then some cue else none)
      else ([], none) := by
  induction points with
  | nil => rfl
  | cons other rest ih =>
      rw [List.nodup_cons] at hnodup
      by_cases hother : other = cue
      · subst hother
        have hrest : ∀ q : Playground, q.disposedAt place = false →
            q.attend place (Plan.at other requests) rest = ([], none) := by
          intro q hq
          apply attend_of_idle _ hq
          intro c hc
          apply if_neg
          rintro rfl
          exact hnodup.1 hc
        unfold attend
        simp only [Plan.at, if_true, List.mem_cons, true_or]
        by_cases hdisposed : (p.answerAll requests).1.disposedAt place = true
        · simp [hdisposed]
        · rw [Bool.not_eq_true] at hdisposed
          simp [hdisposed, hrest _ hdisposed]
      · unfold attend
        have hmem : cue ∈ other :: rest ↔ cue ∈ rest := by simp [Ne.symm hother]
        simp only [Plan.at, if_neg hother, answerAll, hplace, hmem]
        simpa using ih hnodup.2

theorem seat_runner_fresh (h : p.Sound) (hseat : p.seat? session = .ok (place, seat)) :
    seat.runner.disposed = false ∧ p.disposedAt place = false := by
  obtain ⟨hbound, hplace⟩ := seat?_eq_ok_iff.1 hseat
  obtain ⟨found, hfound, hfresh, -⟩ := (h.bound session place).1 hbound
  rw [hplace] at hfound
  cases hfound
  exact ⟨hfresh, by simp [disposedAt, hplace, hfresh]⟩

/-- With requests at one point only, a run is one with an interlude. -/
theorem runAmid_at (h : p.Sound) (session : Nat) (code : String) {cue : Cue}
    (hcue : cue.isMoment = false) (requests : List Request) :
    p.runAmid session code (Plan.at cue requests) =
      p.run session code (some { cue, requests }) := by
  cases hseat : p.seat? session with
  | error refusal => simp [runAmid, during, course, run, hseat, answerAll]
  | ok found =>
      obtain ⟨place, seat⟩ := found
      obtain ⟨hfresh, hplace⟩ := seat_runner_fresh h hseat
      cases hparse : seat.runner.release.parse code with
      | error fault =>
          simp [runAmid, during, course, run, hseat, hparse, Runner.parse, answerAll]
      | ok program =>
          obtain ⟨hdispose, hmissed⟩ := seat.runner.exec_dispose hfresh hparse hcue
          obtain ⟨htexts, hresult, hidle⟩ := seat.runner.exec_nothing hfresh program hcue
          rw [runAmid_eq hseat hparse, run_disturbed hseat hparse,
            attend_at requests (seat.runner.nodup_points program) hplace]
          by_cases hmem : cue ∈ seat.runner.points program
          · by_cases hdisposed : (p.answerAll requests).1.disposedAt place = true
            · simp only [hmem, hdisposed, if_true, Option.map_some, hdispose.2 hmem]
            · simp only [hmem, hdisposed, if_true, Bool.false_eq_true, if_false, Option.map_none,
                hidle.2 hmem, htexts, hresult]
          · by_cases hdisposed : (p.answerAll requests).1.disposedAt place = true
            · obtain ⟨htexts, hresult⟩ := hmissed hmem
              simp only [hmem, hdisposed, if_true, if_false, Option.map_none, mt hdispose.1 hmem,
                htexts, hresult, answerAll, Bool.false_eq_true]
            · simp only [hmem, hdisposed, if_false, Option.map_none, mt hidle.1 hmem, htexts,
                hresult, answerAll, Bool.false_eq_true]

/-! ### Requests that are refused -/

/-- A plan without the requests that were to be asked at a point between others. -/
def Plan.sparing (plan : Plan) (cue : Cue) (kept : List Request) : Plan :=
  fun other => if other = cue then kept else plan other

theorem attend_congr {plan other : Plan} {points : List Cue}
    (h : ∀ cue ∈ points, plan cue = other cue) (p : Playground) (place : Nat) :
    p.attend place plan points = p.attend place other points := by
  induction points generalizing p with
  | nil => rfl
  | cons cue rest ih =>
      rw [List.forall_mem_cons] at h
      unfold attend
      simp only [h.1, ih h.2]

theorem answerAll_sparing {request : Request} {refusal : Refusal} {before : List Request}
    (h : ((p.answerAll before).1.answer request).2 = .refused refusal) (after : List Request) :
    (p.answerAll (before ++ request :: after)).1 = (p.answerAll (before ++ after)).1 := by
  rw [answerAll_append, answerAll_append]
  show ((((p.answerAll before).1.answer request).1).answerAll after).1 = _
  rw [answer_of_refused h]

/-- A refused request does not matter to what comes of a run, nor to the playground behind it. -/
theorem attend_sparing (place : Nat) {plan : Plan} {cue : Cue} {request : Request}
    {refusal : Refusal} {before after : List Request} (hplan : plan cue = before ++ request :: after)
    {early late : List Cue} (hearly : cue ∉ early) (hlate : cue ∉ late)
    (h : ((p.answerAll (early.flatMap plan ++ before)).1.answer request).2 = .refused refusal) :
    let spared := p.attend place (Plan.sparing plan cue (before ++ after)) (early ++ cue :: late)
    let whole := p.attend place plan (early ++ cue :: late)
    spared.2 = whole.2 ∧ (p.answerAll spared.1).1 = (p.answerAll whole.1).1 := by
  dsimp only
  have hspared : ∀ other, other ≠ cue → Plan.sparing plan cue (before ++ after) other = plan other :=
    fun other hother => if_neg hother
  induction early generalizing p with
  | nil =>
      have hq : (p.answerAll (plan cue)).1 = (p.answerAll (before ++ after)).1 := by
        rw [hplan]
        exact answerAll_sparing h after
      have hrest := attend_congr fun other hmem => hspared other fun heq => hlate (heq ▸ hmem)
      have hcue : Plan.sparing plan cue (before ++ after) cue = before ++ after := if_pos rfl
      simp only [List.nil_append, attend_cons, hcue, hq, hrest]
      by_cases hdisposed : (p.answerAll (before ++ after)).1.disposedAt place = true
      · rw [if_pos hdisposed, if_pos hdisposed]
        exact ⟨rfl, hq.symm⟩
      · rw [if_neg hdisposed, if_neg hdisposed]
        simp only [answerAll_append, hq, and_self]
  | cons first early ih =>
      rw [List.mem_cons, not_or] at hearly
      have hfirst := hspared first (Ne.symm hearly.1)
      rw [List.flatMap_cons, List.append_assoc, answerAll_append] at h
      obtain ⟨hcut, hbehind⟩ := ih hearly.2 h
      simp only [List.cons_append, attend_cons, hfirst]
      by_cases hdisposed : (p.answerAll (plan first)).1.disposedAt place = true
      · rw [if_pos hdisposed, if_pos hdisposed]
        exact ⟨rfl, rfl⟩
      · rw [if_neg hdisposed, if_neg hdisposed]
        simp only [answerAll_append]
        exact ⟨hcut, hbehind⟩

/-! ## Operations -/

/-- What is done with a playground: a request, or a run amid requests. -/
inductive Operation where
  | ask (request : Request)
  | run (session : Nat) (code : String) (plan : Plan)

/-- The requests that come to be asked in the course of an operation. -/
def requestsOf (p : Playground) : Operation → List Request
  | .ask request => [request]
  | .run session code plan => (p.during session code plan).1

/-- The playground behind an operation. -/
def perform (p : Playground) : Operation → Playground
  | .ask request => (p.answer request).1
  | .run session code plan => (p.runAmid session code plan).playground

/-- The playground behind several operations. -/
def performAll (p : Playground) : List Operation → Playground
  | [] => p
  | operation :: rest => (p.perform operation).performAll rest

/-- The requests that come to be asked in the course of several operations. -/
def asked (p : Playground) : List Operation → List Request
  | [] => []
  | operation :: rest => p.requestsOf operation ++ (p.perform operation).asked rest

theorem perform_eq (p : Playground) (operation : Operation) :
    p.perform operation = (p.answerAll (p.requestsOf operation)).1 := by
  cases operation <;> rfl

/-- Operations change a playground by the requests that are asked in their course. -/
theorem performAll_eq (p : Playground) (operations : List Operation) :
    p.performAll operations = (p.answerAll (p.asked operations)).1 := by
  induction operations generalizing p with
  | nil => rfl
  | cons operation rest ih =>
      rw [performAll, asked, answerAll_append, ← perform_eq]
      exact ih _

end Playground

end ScriptLab.Host
