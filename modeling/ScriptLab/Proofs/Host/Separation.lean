import ScriptLab.Proofs.Host.Course
import ScriptLab.Proofs.Host.Views

/-!
# Sessions that do not interfere

What is noticed of a session is what is noticed of it where nothing is done but the operations on
it. A run is cut where a request on its session is done, and requests on other sessions do not cut
it.
-/

namespace ScriptLab.Host

open Machine

namespace Playground

variable {p mirror : Playground} {session place : Nat}

/-! ## Sessions in the middle of a run -/

/-- A session keeps its place until a request on it is done. -/
theorem find?_answer (h : p.Sound) (hplace : place < p.seats.size) (request : Request) :
    (p.answer request).1.sessions.find? session = some place ↔
      p.sessions.find? session = some place ∧
        ¬(concerns session (request, (p.answer request).2) = true ∧
          (p.answer request).2 = .done) := by
  have hstep := p.answer_step request
  have hput : ∀ other, (p.sessions.put other p.seats.size).find? session = some place ↔
      other ≠ session ∧ p.sessions.find? session = some place := by
    intro other
    rw [Entries.find?_put]
    by_cases hother : other = session
    · have : p.seats.size ≠ place := Nat.ne_of_gt hplace
      simp [hother, this]
    · simp [hother]
  generalize (p.answer request).1 = q, (p.answer request).2 = reply at hstep
  cases hstep with
  | opening hrelease =>
      refine (hput p.opened).trans ?_
      have hnew : p.sessions.find? session = some place → p.opened ≠ session := by
        rintro hbound rfl
        exact h.opened_notMem (h.mem_names hbound)
      simpa using hnew
  | abort hbound hseat hrelease =>
      refine (hput _).trans ?_
      simp [concerns, and_comm]
  | switch hbound hseat hrelease =>
      refine (hput _).trans ?_
      simp [concerns, and_comm]
  | @close other place' seat hbound hseat =>
      change (p.sessions.erase other).find? session = some place ↔ _
      rw [Entries.find?_erase h.nodup]
      by_cases hother : other = session <;> simp [concerns, hother]
  | sessions => simp
  | refused request refusal => simp

theorem find?_answerAll (h : p.Sound) (hplace : place < p.seats.size) (requests : List Request) :
    (p.answerAll requests).1.sessions.find? session = some place ↔
      p.sessions.find? session = some place ∧ Reply.done ∉ p.repliesOn session requests := by
  induction requests generalizing p with
  | nil => simp [answerAll, repliesOn, history]
  | cons request rest ih =>
      have hstep := p.answer_step request
      have hsize := (Keeps.step hstep).size_lt hplace
      change ((p.answer request).1.answerAll rest).1.sessions.find? session = some place ↔ _
      rw [ih (h.step hstep) hsize, find?_answer h hplace]
      cases hon : concerns session (request, (p.answer request).2) with
      | true => simp [repliesOn, history_cons, hon, and_assoc, eq_comm (a := Reply.done)]
      | false => simp [repliesOn, history_cons, hon]

/-- While a session is bound to the place of a runner of its own, and no longer, the runner is not
disposed. -/
theorem disposedAt_eq_false_iff (h : p.Sound) {seat : Seat} (hseat : p.seats[place]? = some seat) :
    p.disposedAt place = false ↔ p.sessions.find? seat.sink = some place := by
  rw [h.bound]
  simp [disposedAt, InUse, hseat]

/-- The runner of a run is disposed as soon as a request on its session is done. -/
theorem disposedAt_answerAll (h : p.Sound) (hbound : p.sessions.find? session = some place)
    (requests : List Request) :
    (p.answerAll requests).1.disposedAt place = false ↔
      Reply.done ∉ p.repliesOn session requests := by
  obtain ⟨seat, hseat, -, hsink⟩ := (h.bound session place).1 hbound
  obtain ⟨later, hlater, hkept⟩ := Keeps.answerAll p requests place seat hseat
  have hsink' : later.sink = session := by
    rcases hkept with rfl | rfl <;> exact hsink
  rw [disposedAt_eq_false_iff (h.answerAll requests) hlater, hsink',
    find?_answerAll h (Array.getElem?_eq_some_iff.1 hseat).1]
  simp [hbound]

end Playground

/-- A plan with nothing but the requests on a session, as they are made where there is only this
session. -/
def Plan.only (session : Nat) (plan : Plan) : Plan :=
  fun cue => ((plan cue).filter (Request.names session)).map Request.alone

namespace Playground

variable {p mirror : Playground} {session place : Nat} {code : String}

/-- A run is cut in the mirror where it is cut. -/
theorem Mirrors.attend (h : Mirrors session p mirror) {place' : Nat}
    (hbound : p.sessions.find? session = some place)
    (hbound' : mirror.sessions.find? 0 = some place') (plan : Plan) (points : List Cue) :
    mirror.attend place' (Plan.only session plan) points =
      (p.requestsOn session (p.attend place plan points).1, (p.attend place plan points).2) := by
  induction points generalizing p mirror with
  | nil => rfl
  | cons cue rest ih =>
      have hopened := h.sound.opened session (h.sound.mem_names hbound)
      have honly : Plan.only session plan cue = p.requestsOn session (plan cue) :=
        (requestsOn_of_opened hopened (plan cue)).symm
      obtain ⟨hnext, hreplies⟩ := h.answerAll (plan cue)
      have hdisposed := disposedAt_answerAll h.sound hbound (plan cue)
      have hdisposed' :=
        disposedAt_answerAll h.soundMirror hbound' (p.requestsOn session (plan cue))
      have hdone : Reply.done ∈ mirror.repliesOn 0 (p.requestsOn session (plan cue)) ↔
          Reply.done ∈ p.repliesOn session (plan cue) := by
        rw [hreplies]
        simp
      rw [attend_cons, attend_cons, honly]
      by_cases hend : Reply.done ∈ p.repliesOn session (plan cue)
      · have hcut := mt hdisposed.1 (not_not.2 hend)
        have hcut' := mt hdisposed'.1 (not_not.2 (hdone.2 hend))
        rw [Bool.not_eq_false] at hcut hcut'
        rw [if_pos hcut, if_pos hcut']
      · have hlive := hdisposed.2 hend
        have hlive' := hdisposed'.2 (mt hdone.1 hend)
        have hrest := ih hnext
          ((find?_answerAll h.sound ((h.sound.bound _ _).1 hbound).lt _).2 ⟨hbound, hend⟩)
          ((find?_answerAll h.soundMirror ((h.soundMirror.bound _ _).1 hbound').lt _).2
            ⟨hbound', mt hdone.1 hend⟩)
        simp only [hlive, hlive', hrest, Bool.false_eq_true, if_false, requestsOn_append]

/-- A session is open in the mirror if it is open, and then it has the same runner there. -/
theorem Mirrors.seats (h : Mirrors session p mirror) :
    (∃ place seat place' seat', p.seat? session = .ok (place, seat) ∧
      mirror.seat? 0 = .ok (place', seat') ∧ seat'.runner = seat.runner) ∨
    (p.seat? session = .error (.unknownSession (p.sessionName session)) ∧
      mirror.seat? 0 = .error (.unknownSession (mirror.sessionName 0))) := by
  have hrunner : (p.view session).runner = (mirror.view 0).runner := congrArg View.runner h.view
  rcases seat?_cases h.sound session with ⟨place, seat, -, -, -, hfound, hopen⟩ | ⟨hfound, hopen⟩
  · rcases seat?_cases h.soundMirror 0 with
      ⟨place', seat', -, -, -, hfound', hopen'⟩ | ⟨hfound', hopen'⟩
    · left
      rw [hopen, hopen'] at hrunner
      exact ⟨place, seat, place', seat', hfound, hfound', (Option.some.inj hrunner).symm⟩
    · rw [hopen, hopen'] at hrunner
      cases hrunner
  · rcases seat?_cases h.soundMirror 0 with
      ⟨place', seat', -, -, -, hfound', hopen'⟩ | ⟨hfound', hopen'⟩
    · rw [hopen, hopen'] at hrunner
      cases hrunner
    · exact .inr ⟨hfound, hfound'⟩

theorem Mirrors.during (h : Mirrors session p mirror) (code : String) (plan : Plan) :
    mirror.during 0 code (Plan.only session plan) =
      (p.requestsOn session (p.during session code plan).1, (p.during session code plan).2) := by
  rcases h.seats with ⟨place, seat, place', seat', hseat, hseat', hrunner⟩ | ⟨hseat, hseat'⟩
  · cases hparse : seat.runner.release.parse code with
    | error fault =>
        simp only [Playground.during, course, hseat, hseat', hrunner, hparse]
        rfl
    | ok program =>
        have hparse' : seat'.runner.release.parse code = .ok program := by rw [hrunner, hparse]
        simp only [Playground.during, course_of_parsed hseat hparse,
          course_of_parsed hseat' hparse', hrunner]
        exact h.attend (seat?_eq_ok_iff.1 hseat).1 (seat?_eq_ok_iff.1 hseat').1 plan _
  · simp only [Playground.during, course, hseat, hseat']
    rfl

/-- The refusal of a session that is not open is that of the mirror. -/
theorem Mirrors.unknown (h : Mirrors session p mirror) :
    (Refusal.unknownSession (p.sessionName session)).alone session =
      .unknownSession (mirror.sessionName 0) := by
  have hname := p.unknown_alone session
  rw [h.view, ← mirror.unknown_alone 0, Reply.alone_zero] at hname
  exact Reply.refused.inj hname

/-- A run in the mirror gives the same texts and the same report. -/
theorem Mirrors.runAmid (h : Mirrors session p mirror) (code : String) (plan : Plan) :
    let whole := p.runAmid session code plan
    let alone := mirror.runAmid 0 code (Plan.only session plan)
    alone.texts.map Prod.snd = whole.texts.map Prod.snd ∧
      alone.report = whole.report.mapError (Refusal.alone session) := by
  dsimp only
  rcases h.seats with ⟨place, seat, place', seat', hseat, hseat', hrunner⟩ | ⟨hseat, hseat'⟩
  · cases hparse : seat.runner.release.parse code with
    | error fault =>
        have hparse' : seat'.runner.release.parse code = .error fault := by rw [hrunner, hparse]
        simp [Playground.runAmid, Playground.during, course, run, Runner.parse, hseat, hseat',
          hparse, hrunner, Except.mapError]
    | ok program =>
        have hparse' : seat'.runner.release.parse code = .ok program := by rw [hrunner, hparse]
        have hattend := h.attend (seat?_eq_ok_iff.1 hseat).1 (seat?_eq_ok_iff.1 hseat').1 plan
          (seat.runner.points program)
        simp only [runAmid_eq hseat hparse, runAmid_eq hseat' hparse', hrunner, hattend]
        simp [Except.mapError]
  · simp [Playground.runAmid, Playground.during, course, run, hseat, hseat', Except.mapError,
      h.unknown]

end Playground

/-! ## Signs of sessions -/

/-- What is noticed of a session: a text that its sink receives, the reply to a request on it, or the
report of a run of it. -/
inductive Sign where
  | text (text : String)
  | reply (reply : Reply)
  | report (report : Except Refusal Report)

/-- A sign with the number that the session has where there is only this one. -/
def Sign.alone (session : Nat) : Sign → Sign
  | .reply given => .reply (given.alone session)
  | .report given => .report (given.mapError (Refusal.alone session))
  | sign => sign

namespace Playground

/-- What is noticed of a session in an operation: the texts that its sink receives, the replies to
the requests on it, and the report if the operation runs it. -/
def signs (p : Playground) (session : Nat) : Operation → List Sign
  | .ask request => (p.repliesOn session [request]).map .reply
  | .run other code plan =>
    let result := p.runAmid other code plan
    let texts := result.texts.filter fun text => text.1 = session
    (texts.map Prod.snd).map .text ++
      (p.repliesOn session (p.during other code plan).1).map .reply ++
      if other = session then [.report result.report] else []

/-- What is noticed of a session in several operations. -/
def signsAll (p : Playground) (session : Nat) : List Operation → List Sign
  | [] => []
  | operation :: rest => p.signs session operation ++ (p.perform operation).signsAll session rest

/-- What is done with a session in an operation, as it is done where there is only this one: the
operation with no more than the requests on the session, or these requests alone. -/
def partOn (p : Playground) (session : Nat) : Operation → List Operation
  | .ask request => (p.requestsOn session [request]).map .ask
  | .run other code plan =>
    if other = session then [.run 0 code (Plan.only session plan)]
    else (p.requestsOn session (p.during other code plan).1).map .ask

/-- What is done with a session in several operations. -/
def partsOn (p : Playground) (session : Nat) : List Operation → List Operation
  | [] => []
  | operation :: rest => p.partOn session operation ++ (p.perform operation).partsOn session rest

theorem performAll_append (p : Playground) (before after : List Operation) :
    p.performAll (before ++ after) = (p.performAll before).performAll after := by
  induction before generalizing p with
  | nil => rfl
  | cons operation rest ih => exact ih _

theorem signsAll_append (p : Playground) (session : Nat) (before after : List Operation) :
    p.signsAll session (before ++ after) =
      p.signsAll session before ++ (p.performAll before).signsAll session after := by
  induction before generalizing p with
  | nil => rfl
  | cons operation rest ih => simp [signsAll, performAll, ih]

theorem performAll_ask (p : Playground) (requests : List Request) :
    p.performAll (requests.map .ask) = (p.answerAll requests).1 := by
  induction requests generalizing p with
  | nil => rfl
  | cons request rest ih => exact ih _

theorem signsAll_ask (p : Playground) (session : Nat) (requests : List Request) :
    p.signsAll session (requests.map .ask) = (p.repliesOn session requests).map .reply := by
  induction requests generalizing p with
  | nil => rfl
  | cons request rest ih =>
      have hcons : p.repliesOn session (request :: rest) =
          p.repliesOn session [request] ++ (p.answer request).1.repliesOn session rest :=
        p.repliesOn_append session [request] rest
      rw [hcons, List.map_append, ← ih]
      rfl

variable {p mirror : Playground} {session : Nat}

theorem Mirrors.asks (h : Mirrors session p mirror) (requests : List Request) :
    Mirrors session (p.answerAll requests).1
        (mirror.performAll ((p.requestsOn session requests).map .ask)) ∧
      mirror.signsAll 0 ((p.requestsOn session requests).map .ask) =
        ((p.repliesOn session requests).map .reply).map (Sign.alone session) := by
  obtain ⟨hnext, hreplies⟩ := h.answerAll requests
  rw [performAll_ask, signsAll_ask, hreplies]
  refine ⟨hnext, ?_⟩
  simp [Function.comp_def, Sign.alone]

/-- The sink of a session receives all texts of its runs, and none of other runs. -/
theorem filter_texts (h : p.Sound) (other : Nat) (code : String) (plan : Plan) :
    (p.runAmid other code plan).texts.filter (fun text => text.1 = session) =
      if other = session then (p.runAmid other code plan).texts else [] := by
  have htexts : ∀ text ∈ (p.runAmid other code plan).texts, text.1 = other := texts_run h _
  by_cases hother : other = session
  · rw [if_pos hother, List.filter_eq_self]
    intro text hmem
    rw [htexts text hmem, decide_eq_true hother]
  · rw [if_neg hother, List.filter_eq_nil_iff]
    intro text hmem
    rw [htexts text hmem, decide_eq_true_eq]
    exact hother

/-- What is done with a session shows the same signs where nothing else is done, and leaves the same
view of the session. -/
theorem Mirrors.perform (h : Mirrors session p mirror) (operation : Operation) :
    Mirrors session (p.perform operation) (mirror.performAll (p.partOn session operation)) ∧
      mirror.signsAll 0 (p.partOn session operation) =
        (p.signs session operation).map (Sign.alone session) := by
  cases operation with
  | ask request => exact h.asks [request]
  | run other code plan =>
      by_cases hother : other = session
      · subst hother
        obtain ⟨hnext, hreplies⟩ := h.answerAll (p.during other code plan).1
        obtain ⟨htexts, hreport⟩ := h.runAmid code plan
        have hrequests : (mirror.during 0 code (Plan.only other plan)).1 =
            p.requestsOn other (p.during other code plan).1 := by rw [h.during]
        rw [← hrequests] at hnext hreplies
        simp only [partOn, if_true]
        refine ⟨hnext, ?_⟩
        simp only [signsAll, signs, filter_texts h.sound, filter_texts h.soundMirror, if_true,
          htexts, hreport, hreplies]
        simp [Function.comp_def, Sign.alone]
      · simp only [partOn, signs, if_neg hother, filter_texts h.sound, List.map_nil,
          List.nil_append, List.append_nil]
        exact h.asks _

theorem Mirrors.performAll (h : Mirrors session p mirror) (operations : List Operation) :
    Mirrors session (p.performAll operations)
        (mirror.performAll (p.partsOn session operations)) ∧
      mirror.signsAll 0 (p.partsOn session operations) =
        (p.signsAll session operations).map (Sign.alone session) := by
  induction operations generalizing p mirror with
  | nil => exact ⟨h, rfl⟩
  | cons operation rest ih =>
      obtain ⟨hnext, hsigns⟩ := h.perform operation
      obtain ⟨hrest, hsigns'⟩ := ih hnext
      simp only [partsOn, performAll_append, signsAll_append]
      refine ⟨hrest, ?_⟩
      rw [hsigns, hsigns', ← List.map_append]
      rfl

theorem Mirrors.start {registry : Registry} {version : Option String} {limits : Limits}
    {start : Playground} (hcreate : create registry version limits = .ok start) (session : Nat) :
    Mirrors session start start := by
  refine ⟨Sound.create hcreate, Sound.create hcreate, ?_⟩
  obtain ⟨name, rfl⟩ := create_ok hcreate
  rfl

/-- Sessions do not interfere. Whatever is done with a playground, between runs and in the middle of
them, what is noticed of a session is what is noticed of it on a new playground where nothing is done
but the operations on that session, in the same order. And a run of it gives the same texts and the
same report without the requests on other sessions that come in its course. -/
theorem sessions_do_not_interfere {registry : Registry} {version : Option String} {limits : Limits}
    {start : Playground} (hcreate : create registry version limits = .ok start) (session : Nat)
    (operations : List Operation) :
    (start.signsAll session operations).map (Sign.alone session) =
        start.signsAll 0 (start.partsOn session operations) ∧
      ∀ code plan,
        let p := start.performAll operations
        let whole := p.runAmid session code plan
        let quiet := p.runAmid session code fun cue => (plan cue).filter (Request.names session)
        quiet.texts = whole.texts ∧ quiet.report = whole.report := by
  obtain ⟨h, hsigns⟩ := (Mirrors.start hcreate session).performAll operations
  refine ⟨hsigns.symm, fun code plan => runAmid_congr ?_⟩
  have hquiet := h.during code fun cue => (plan cue).filter (Request.names session)
  have honly : (Plan.only session fun cue => (plan cue).filter (Request.names session)) =
      Plan.only session plan := by
    unfold Plan.only
    simp only [List.filter_filter, Bool.and_self]
  rw [honly, h.during code plan] at hquiet
  exact (congrArg Prod.snd hquiet).symm

theorem sessions_do_not_interfere_switch_amid :
    let start : Playground :=
      { registry := Registry.builtin, defaultVersion := "0.16.0", limits := {} }
    let plan := Plan.at (.output 1) [.switch 1 "0.16.0", .abort 0]
    let before : List Operation :=
      [.ask (.opening none), .ask (.opening (some "0.14.1")), .run 0 "<: true" plan]
    let operations := before ++ [.run 1 "2 + 3" plan]
    start.partsOn 1 operations =
        [.ask (.opening (some "0.14.1")), .ask (.switch 0 "0.16.0"),
          .run 0 "2 + 3" (Plan.only 1 plan)] ∧
      (start.signsAll 1 operations).map (Sign.alone 1) =
        start.signsAll 0 [.ask (.opening (some "0.14.1")), .ask (.switch 0 "0.16.0"),
          .run 0 "2 + 3" (Plan.only 1 plan)] ∧
      ((start.performAll before).runAmid 1 "2 + 3" fun cue =>
          (plan cue).filter (Request.names 1)).texts =
        ((start.performAll before).runAmid 1 "2 + 3" plan).texts := by
  intro start plan before operations
  have hcreate : create Registry.builtin none {} = .ok start := rfl
  have hparts : start.partsOn 1 operations =
      [.ask (.opening (some "0.14.1")), .ask (.switch 0 "0.16.0"),
        .run 0 "2 + 3" (Plan.only 1 plan)] := by
    let p := (start.answerAll [.opening none, .opening (some "0.14.1")]).1
    have hcourse : p.course 0 "<: true" = some (0, [.output 1]) := course_single rfl rfl
    have hduring : (p.during 0 "<: true" plan).1 = [.switch 1 "0.16.0", .abort 0] := by
      unfold during
      rw [hcourse]
      rfl
    change Operation.ask (.opening (some "0.14.1")) ::
      ((p.requestsOn 1 (p.during 0 "<: true" plan).1).map .ask ++ _) = _
    rw [hduring]
    rfl
  have h := sessions_do_not_interfere hcreate 1 operations
  rw [hparts] at h
  exact ⟨hparts, h.1, ((sessions_do_not_interfere hcreate 1 before).2 "2 + 3" plan).1⟩

end Playground

end ScriptLab.Host
