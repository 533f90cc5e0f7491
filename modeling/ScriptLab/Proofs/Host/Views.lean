import ScriptLab.Proofs.Host.Sessions

/-!
# Views of sessions

A request on a session sees no more of a playground than the view of that session, and requests on
other sessions leave this view as it is. So a playground in which only the requests on a session are
made shows the same view all along, and gives the same replies.
-/

namespace ScriptLab.Host

open Machine (Limits)

/-! ## Requests on a session -/

/-- Whether a request, with its reply, is on a session: it names the session, or it opened it. -/
def concerns (session : Nat) : Request × Reply → Bool
  | (.opening _, .opened other) => other == session
  | (.abort other, _) | (.switch other _, _) | (.close other, _) => other == session
  | _ => false

/-- Whether a request names a session. -/
def Request.names (session : Nat) : Request → Bool
  | .abort other | .switch other _ | .close other => other == session
  | .opening _ | .sessions => false

/-- A request on a session, as it is made where there is only this one. -/
def Request.alone : Request → Request
  | .abort _ => .abort 0
  | .switch _ version => .switch 0 version
  | .close _ => .close 0
  | request => request

/-- A refusal with the name that the session has where there is only this one. -/
def Refusal.alone (session : Nat) : Refusal → Refusal
  | .unknownSession name => .unknownSession (if name = "s" ++ Nat.repr session then "s0" else name)
  | refusal => refusal

/-- A reply with the number that the session has where there is only this one. -/
def Reply.alone (session : Nat) : Reply → Reply
  | .opened other => .opened (if other = session then 0 else other)
  | .refused refusal => .refused (refusal.alone session)
  | reply => reply

@[simp] theorem Refusal.alone_zero (refusal : Refusal) : refusal.alone 0 = refusal := by
  cases refusal with
  | unknownSession name =>
      by_cases h : name = "s" ++ Nat.repr 0
      · rw [alone, if_pos h, h]
        rfl
      · rw [alone, if_neg h]
  | _ => rfl

@[simp] theorem Reply.alone_zero (reply : Reply) : reply.alone 0 = reply := by
  cases reply with
  | opened other =>
      by_cases h : other = 0
      · rw [alone, if_pos h, h]
      · rw [alone, if_neg h]
  | refused refusal => rw [alone, Refusal.alone_zero]
  | _ => rfl

@[simp] theorem Reply.alone_eq_done {session : Nat} {reply : Reply} :
    reply.alone session = .done ↔ reply = .done := by
  cases reply <;> simp [alone]

@[simp] theorem Request.alone_alone (request : Request) : request.alone.alone = request.alone := by
  cases request <;> rfl

/-! ## Views -/

/-- What requests on a session can see of a playground: the registry and the configuration, whether
the session was ever opened, and its runner while it is open. -/
structure View where
  registry : Registry
  defaultVersion : String
  limits : Limits
  opened : Bool
  runner : Option Runner

namespace View

/-- The refusal of a request on a session that is not open. -/
def unknown (v : View) : Reply :=
  .refused (.unknownSession (if v.opened then "s0" else "00000000-0000-0000-0000-000000000000"))

/-- A new runner for a version, if the version is known. -/
def rebind (v : View) (version : String) : View × Reply :=
  match Entries.find? v.registry version with
  | some release => ({ v with runner := some { release, limits := v.limits } }, .done)
  | none => (v, .refused (.unknownVersion version))

/-- Answers a request on the session. -/
def answer (v : View) : Request → View × Reply
  | .opening version =>
    match v.rebind (version.getD v.defaultVersion) with
    | (w, .done) => ({ w with opened := true }, .opened 0)
    | refused => refused
  | .abort _ =>
    match v.runner with
    | some runner => v.rebind runner.release.version
    | none => (v, v.unknown)
  | .switch _ version => if v.runner.isSome then v.rebind version else (v, v.unknown)
  | .close _ => if v.runner.isSome then ({ v with runner := none }, .done) else (v, v.unknown)
  | .sessions => (v, .listing [])

end View

namespace Playground

variable {p q : Playground} {session place : Nat}

/-- The runner of an open session. -/
def runnerOf? (p : Playground) (session : Nat) : Option Runner :=
  (p.sessions.find? session).bind fun place => p.seats[place]?.map (·.runner)

/-- The view of a session. -/
def view (p : Playground) (session : Nat) : View :=
  { registry := p.registry
    defaultVersion := p.defaultVersion
    limits := p.limits
    opened := session < p.opened
    runner := p.runnerOf? session }

theorem runnerOf?_install (p : Playground) (session other : Nat) (seat : Seat)
    (h : ∀ place, p.sessions.find? other = some place → place < p.seats.size) :
    (p.install session seat).runnerOf? other =
      if session = other then some seat.runner else p.runnerOf? other := by
  unfold runnerOf?
  change ((p.sessions.put session p.seats.size).find? other).bind _ = _
  rw [Entries.find?_put]
  by_cases hother : session = other
  · rw [if_pos hother, if_pos hother]
    simp [getElem?_install]
  · rw [if_neg hother, if_neg hother]
    apply Option.bind_congr
    intro place hplace
    rw [getElem?_install, if_neg (Nat.ne_of_lt (h place hplace))]

theorem runnerOf?_disposeAt (p : Playground) (disposed : Nat) (other : Nat)
    (h : p.sessions.find? other ≠ some disposed) :
    (p.disposeAt disposed).runnerOf? other = p.runnerOf? other := by
  unfold runnerOf?
  apply Option.bind_congr
  intro place hplace
  rw [getElem?_disposeAt, if_neg]
  rintro rfl
  exact h hplace

theorem view_rebound (h : p.Sound) (hbound : p.sessions.find? session = some place)
    (release : Release) :
    ((p.install session (p.newSeat release session)).disposeAt place).view session =
      { p.view session with runner := some { release, limits := p.limits } } := by
  have hplace : ∀ other, p.sessions.find? session = some other → other < p.seats.size :=
    fun other hother => ((h.bound session other).1 hother).lt
  have hnew : (p.install session (p.newSeat release session)).sessions.find? session =
      some p.seats.size :=
    (Entries.find?_put _ _ _ _).trans (if_pos rfl)
  unfold view
  rw [runnerOf?_disposeAt, runnerOf?_install _ _ _ _ hplace, if_pos rfl]
  · rfl
  · rw [hnew]
    intro heq
    exact Nat.lt_irrefl _ (Option.some.inj heq ▸ hplace place hbound)

theorem view_closed (h : p.Sound) (place : Nat) :
    ((p.forget session).disposeAt place).view session =
      { p.view session with runner := none } := by
  have hgone : (p.sessions.erase session).find? session = none :=
    (Entries.find?_erase h.nodup _ _).trans (if_pos rfl)
  unfold view runnerOf?
  change View.mk _ _ _ _ (((p.sessions.erase session).find? session).bind _) = _
  rw [hgone]
  rfl

theorem view_opening (h : p.Sound) (release : Release) :
    (p.install p.opened (p.newSeat release p.opened)).countSession.view p.opened =
      { p.view p.opened with
        opened := true, runner := some { release, limits := p.limits } } := by
  have hplace : ∀ other, p.sessions.find? p.opened = some other → other < p.seats.size :=
    fun other hother => ((h.bound p.opened other).1 hother).lt
  have hrunner := runnerOf?_install p p.opened p.opened (p.newSeat release p.opened) hplace
  rw [if_pos rfl] at hrunner
  change View.mk _ _ _ (decide (p.opened < p.opened + 1))
    ((p.install p.opened (p.newSeat release p.opened)).runnerOf? p.opened) = _
  rw [hrunner, decide_eq_true (Nat.lt_succ_self _)]
  rfl

/-- No other session is bound to the place of a session. -/
theorem find?_ne_of_bound (h : p.Sound) {other : Nat} (hother : other ≠ session)
    (hbound : p.sessions.find? other = some place) : p.sessions.find? session ≠ some place := by
  intro hsession
  exact hother (((h.bound other place).1 hbound).session_eq ((h.bound session place).1 hsession))

theorem view_rebound_other (h : p.Sound) {other : Nat} (hother : other ≠ session)
    (hbound : p.sessions.find? other = some place) (seat : Seat) :
    ((p.install other seat).disposeAt place).view session = p.view session := by
  have hplace : ∀ place, p.sessions.find? session = some place → place < p.seats.size :=
    fun place hplace => ((h.bound session place).1 hplace).lt
  have hsame : (p.install other seat).sessions.find? session = p.sessions.find? session :=
    (Entries.find?_put _ _ _ _).trans (if_neg hother)
  unfold view
  rw [runnerOf?_disposeAt, runnerOf?_install _ _ _ _ hplace, if_neg hother]
  · rfl
  · rw [hsame]
    exact find?_ne_of_bound h hother hbound

theorem view_closed_other (h : p.Sound) {other : Nat} (hother : other ≠ session)
    (hbound : p.sessions.find? other = some place) :
    ((p.forget other).disposeAt place).view session = p.view session := by
  have hsame : (p.forget other).sessions.find? session = p.sessions.find? session :=
    (Entries.find?_erase h.nodup _ _).trans (if_neg hother)
  unfold view
  rw [runnerOf?_disposeAt]
  · unfold runnerOf?
    rw [hsame]
    rfl
  · rw [hsame]
    exact find?_ne_of_bound h hother hbound

theorem view_opening_other (h : p.Sound) (hother : p.opened ≠ session) (seat : Seat) :
    (p.install p.opened seat).countSession.view session = p.view session := by
  have hplace : ∀ place, p.sessions.find? session = some place → place < p.seats.size :=
    fun place hplace => ((h.bound session place).1 hplace).lt
  have hrunner := runnerOf?_install p p.opened session seat hplace
  rw [if_neg hother] at hrunner
  have hopened : session < p.opened + 1 ↔ session < p.opened := by omega
  change View.mk _ _ _ (decide (session < p.opened + 1))
    ((p.install p.opened seat).runnerOf? session) = _
  rw [hrunner, decide_eq_decide.2 hopened]
  rfl

/-- What is done to other sessions is not seen. -/
theorem view_other (h : p.Sound) {request : Request} {reply : Reply}
    (hstep : p.Step request reply q) (hoff : concerns session (request, reply) = false) :
    q.view session = p.view session := by
  cases hstep with
  | opening hrelease => exact view_opening_other h (by simpa [concerns] using hoff) _
  | abort hbound hseat hrelease =>
      exact view_rebound_other h (by simpa [concerns] using hoff) hbound _
  | switch hbound hseat hrelease =>
      exact view_rebound_other h (by simpa [concerns] using hoff) hbound _
  | close hbound hseat => exact view_closed_other h (by simpa [concerns] using hoff) hbound
  | sessions => rfl
  | refused => rfl

/-! ## Replies -/

theorem runnerOf?_of_bound {seat : Seat} (hbound : p.sessions.find? session = some place)
    (hseat : p.seats[place]? = some seat) : p.runnerOf? session = some seat.runner := by
  simp [runnerOf?, hbound, hseat]

/-- The refusal of a request on a session that is not open. -/
theorem unknown_alone (p : Playground) (session : Nat) :
    (Reply.refused (.unknownSession (p.sessionName session))).alone session =
      (p.view session).unknown := by
  have hname : "00000000-0000-0000-0000-000000000000" ≠ "s" ++ Nat.repr session := by
    intro h
    have := congrArg (fun name => name.toList.head?) h
    simp at this
  unfold sessionName View.unknown view
  by_cases hopened : session < p.opened
  · simp [hopened, Reply.alone, Refusal.alone]
  · simp [hopened, Reply.alone, Refusal.alone, hname]

/-- A session is open and has a runner in its view, or it is not open and its name is refused. -/
theorem seat?_cases (h : p.Sound) (session : Nat) :
    (∃ place seat, p.sessions.find? session = some place ∧ p.seats[place]? = some seat ∧
      seat.sink = session ∧ p.seat? session = .ok (place, seat) ∧
      (p.view session).runner = some seat.runner) ∨
    (p.seat? session = .error (.unknownSession (p.sessionName session)) ∧
      (p.view session).runner = none) := by
  cases hbound : p.sessions.find? session with
  | none =>
      right
      simp [seat?, view, runnerOf?, hbound]
  | some place =>
      left
      obtain ⟨seat, hseat, -, hsink⟩ := (h.bound session place).1 hbound
      exact ⟨place, seat, rfl, hseat, hsink, seat?_eq_ok_iff.2 ⟨hbound, hseat⟩,
        runnerOf?_of_bound hbound hseat⟩

/-- A session is bound to another runner as its view says. -/
theorem view_rebind (h : p.Sound) {seat : Seat} (hbound : p.sessions.find? session = some place)
    (hseat : p.seats[place]? = some seat) (version : String) :
    (∃ q, p.rebind session version = .ok q ∧
      (p.view session).rebind version = (q.view session, .done)) ∨
    (p.rebind session version = .error (.unknownVersion version) ∧
      (p.view session).rebind version =
        (p.view session, .refused (.unknownVersion version))) := by
  have hfound := seat?_eq_ok_iff.2 ⟨hbound, hseat⟩
  have hsink := h.sink_eq hbound hseat
  cases hrelease : Entries.find? p.registry version with
  | none =>
      right
      simp [rebind, hfound, Registry.create, hrelease, View.rebind, view, bind, Except.bind]
  | some release =>
      left
      use (p.install session (p.newSeat release seat.sink)).disposeAt place
      constructor
      · exact rebind_eq_ok_iff.2 ⟨place, seat, release, hbound, hseat, hrelease, rfl⟩
      · rw [hsink, view_rebound h hbound]
        simp [View.rebind, view, hrelease]

/-- A session that is switched to a version answers as its view does, refusals included. -/
theorem view_switch (h : p.Sound) (version : String) :
    (p.view session).answer (Request.switch session version).alone =
      ((p.answer (.switch session version)).1.view session,
        (p.answer (.switch session version)).2.alone session) := by
  rcases seat?_cases h session with
    ⟨place, seat, hbound, hseat, -, hfound, hrunner⟩ | ⟨hfound, hrunner⟩
  · rcases view_rebind h hbound hseat version with ⟨q, hq, hview⟩ | ⟨hq, hview⟩
    · simp [answer, hq, Request.alone, View.answer, hrunner, hview, Reply.alone]
    · simp [answer, hq, Request.alone, View.answer, hrunner, hview, Reply.alone, Refusal.alone]
  · have hswitch : p.rebind session version = .error (.unknownSession (p.sessionName session)) := by
      simp [rebind, hfound, bind, Except.bind]
    simp [answer, hswitch, Request.alone, View.answer, hrunner, unknown_alone]

theorem view_abort (h : p.Sound) :
    (p.view session).answer (Request.abort session).alone =
      ((p.answer (.abort session)).1.view session,
        (p.answer (.abort session)).2.alone session) := by
  rcases seat?_cases h session with
    ⟨place, seat, hbound, hseat, -, hfound, hrunner⟩ | ⟨hfound, hrunner⟩
  · have habort : p.abort session = p.rebind session seat.runner.release.version := by
      simp [abort, hfound, bind, Except.bind]
    rcases view_rebind h hbound hseat seat.runner.release.version with
      ⟨q, hq, hview⟩ | ⟨hq, hview⟩
    · simp [answer, habort, hq, Request.alone, View.answer, hrunner, hview, Reply.alone]
    · simp [answer, habort, hq, Request.alone, View.answer, hrunner, hview, Reply.alone,
        Refusal.alone]
  · have habort : p.abort session = .error (.unknownSession (p.sessionName session)) := by
      simp [abort, hfound, bind, Except.bind]
    simp only [answer, habort, Request.alone, View.answer, hrunner, unknown_alone]

theorem view_close (h : p.Sound) :
    (p.view session).answer (Request.close session).alone =
      ((p.answer (.close session)).1.view session,
        (p.answer (.close session)).2.alone session) := by
  rcases seat?_cases h session with
    ⟨place, seat, hbound, hseat, -, hfound, hrunner⟩ | ⟨hfound, hrunner⟩
  · have hclose := close_eq_ok_iff.2 ⟨place, seat, hbound, hseat, rfl⟩
    simp [answer, hclose, view_closed h, Request.alone, View.answer, hrunner, Reply.alone]
  · have hclose : p.close session = .error (.unknownSession (p.sessionName session)) := by
      simp [close, hfound, bind, Except.bind]
    simp [answer, hclose, Request.alone, View.answer, hrunner, unknown_alone]

/-- A request on a session is answered as the view of the session says. -/
theorem view_answer (h : p.Sound) {request : Request}
    (hon : concerns session (request, (p.answer request).2) = true) :
    (p.view session).answer request.alone =
      ((p.answer request).1.view session, (p.answer request).2.alone session) := by
  cases request with
  | opening version =>
      cases hopen : p.openSession version with
      | error refusal => simp [answer, hopen, concerns] at hon
      | ok opened =>
          obtain ⟨release, hrelease, hsession, hq⟩ := openSession_eq_ok_iff.1 hopen
          have hopened : p.opened = session := by
            simpa [answer, hopen, concerns, hsession] using hon
          subst hopened
          simp only [answer, hopen, hq, hsession, view_opening h, Reply.alone, if_true]
          simp [Request.alone, View.answer, View.rebind, view, hrelease]
  | abort other =>
      obtain rfl : other = session := by simpa [concerns] using hon
      exact view_abort h
  | switch other version =>
      obtain rfl : other = session := by simpa [concerns] using hon
      exact view_switch h version
  | close other =>
      obtain rfl : other = session := by simpa [concerns] using hon
      exact view_close h
  | sessions => simp [concerns] at hon

/-! ## Playgrounds side by side -/

/-- The requests on a session among those that are asked, as they are made where there is only this
session. -/
def requestsOn (p : Playground) (session : Nat) (requests : List Request) : List Request :=
  ((p.history requests).filter (concerns session)).map fun event => event.1.alone

/-- The replies to the requests on a session. -/
def repliesOn (p : Playground) (session : Nat) (requests : List Request) : List Reply :=
  ((p.history requests).filter (concerns session)).map (·.2)

/-- Once a session was opened, the requests on it are those that name it. -/
theorem requestsOn_of_opened (hopened : session < p.opened) (requests : List Request) :
    p.requestsOn session requests =
      (requests.filter (Request.names session)).map Request.alone := by
  induction requests generalizing p with
  | nil => rfl
  | cons request rest ih =>
      have hstep := p.answer_step request
      have hrange := congrArg List.length (opened_step hstep)
      simp only [List.length_append, List.length_range] at hrange
      have hrest := ih (p := (p.answer request).1) (by omega)
      have hnames : concerns session (request, (p.answer request).2) = request.names session := by
        generalize (p.answer request).1 = q, (p.answer request).2 = reply at hstep
        cases hstep with
        | opening hrelease => simp [concerns, Request.names, Nat.ne_of_gt hopened]
        | refused request refusal => cases request <;> simp [concerns, Request.names]
        | _ => simp [concerns, Request.names]
      unfold requestsOn at hrest ⊢
      rw [history_cons]
      cases hon : request.names session with
      | true =>
          rw [List.filter_cons_of_pos (hnames.trans hon), List.filter_cons_of_pos hon]
          simp only [List.map_cons, hrest]
      | false =>
          rw [List.filter_cons_of_neg (by simp [hnames, hon]),
            List.filter_cons_of_neg (by simp [hon])]
          exact hrest

theorem requestsOn_append (p : Playground) (session : Nat) (before after : List Request) :
    p.requestsOn session (before ++ after) =
      p.requestsOn session before ++ (p.answerAll before).1.requestsOn session after := by
  simp [requestsOn, history_append]

theorem repliesOn_append (p : Playground) (session : Nat) (before after : List Request) :
    p.repliesOn session (before ++ after) =
      p.repliesOn session before ++ (p.answerAll before).1.repliesOn session after := by
  simp [repliesOn, history_append]

/-- A playground in which one session is open that has the view of a session of another
playground. -/
structure Mirrors (session : Nat) (p mirror : Playground) : Prop where
  sound : p.Sound
  soundMirror : mirror.Sound
  view : p.view session = mirror.view 0

namespace Mirrors

variable {mirror : Playground}

/-- An opening is one of the first session in the mirror. -/
theorem concerns_alone (h : Mirrors session p mirror) {request : Request}
    (hon : concerns session (request, (p.answer request).2) = true) :
    concerns 0 (request.alone, (mirror.answer request.alone).2) = true := by
  cases request with
  | opening version =>
      have hregistry : p.registry = mirror.registry := congrArg View.registry h.view
      have hversion : p.defaultVersion = mirror.defaultVersion :=
        congrArg View.defaultVersion h.view
      have hnumber : decide (session < p.opened) = decide (0 < mirror.opened) :=
        congrArg View.opened h.view
      cases hopen : p.openSession version with
      | error refusal => simp [answer, hopen, concerns] at hon
      | ok opened =>
          obtain ⟨release, hrelease, hsession, -⟩ := openSession_eq_ok_iff.1 hopen
          have hopened : p.opened = session := by
            simpa [answer, hopen, concerns, hsession] using hon
          subst hopened
          have hzero : mirror.opened = 0 := by simpa using hnumber.symm
          rw [hregistry, hversion] at hrelease
          have hfirst := openSession_eq_ok_iff.2 ⟨release, hrelease, rfl, rfl⟩
          simp [Request.alone, answer, hfirst, concerns, hzero]
  | abort | switch | close => simp [Request.alone, concerns]
  | sessions => simp [concerns] at hon

theorem answer_on (h : Mirrors session p mirror) {request : Request}
    (hon : concerns session (request, (p.answer request).2) = true) :
    Mirrors session (p.answer request).1 (mirror.answer request.alone).1 ∧
      (mirror.answer request.alone).2 = (p.answer request).2.alone session := by
  have hview := view_answer h.sound hon
  have hmirror := view_answer h.soundMirror (h.concerns_alone hon)
  rw [Request.alone_alone, ← h.view, hview, Reply.alone_zero, Prod.mk.injEq] at hmirror
  exact ⟨⟨h.sound.step (p.answer_step _), h.soundMirror.step (mirror.answer_step _), hmirror.1⟩,
    hmirror.2.symm⟩

theorem answer_off (h : Mirrors session p mirror) {request : Request}
    (hoff : concerns session (request, (p.answer request).2) = false) :
    Mirrors session (p.answer request).1 mirror :=
  ⟨h.sound.step (p.answer_step _), h.soundMirror,
    (view_other h.sound (p.answer_step _) hoff).trans h.view⟩

/-- Requests are mirrored by those among them that are on the session. -/
theorem answerAll (h : Mirrors session p mirror) (requests : List Request) :
    Mirrors session (p.answerAll requests).1
        (mirror.answerAll (p.requestsOn session requests)).1 ∧
      mirror.repliesOn 0 (p.requestsOn session requests) =
        (p.repliesOn session requests).map (Reply.alone session) := by
  induction requests generalizing p mirror with
  | nil => exact ⟨h, rfl⟩
  | cons request rest ih =>
      cases hon : concerns session (request, (p.answer request).2) with
      | true =>
          obtain ⟨hnext, hreply⟩ := h.answer_on hon
          obtain ⟨hrest, hreplies⟩ := ih hnext
          have hrequests : p.requestsOn session (request :: rest) =
              request.alone :: (p.answer request).1.requestsOn session rest := by
            simp [requestsOn, history_cons, hon]
          have hconcerns := h.concerns_alone hon
          rw [hrequests]
          refine ⟨hrest, ?_⟩
          unfold repliesOn at hreplies ⊢
          rw [history_cons, history_cons, List.filter_cons_of_pos hconcerns,
            List.filter_cons_of_pos hon]
          simp only [List.map_cons, hreply, hreplies]
      | false =>
          obtain ⟨hrest, hreplies⟩ := ih (h.answer_off hon)
          have hrequests : p.requestsOn session (request :: rest) =
              (p.answer request).1.requestsOn session rest := by
            simp [requestsOn, history_cons, hon]
          rw [hrequests]
          refine ⟨hrest, hreplies.trans ?_⟩
          simp [repliesOn, history_cons, hon]

end Mirrors

end Playground

end ScriptLab.Host
