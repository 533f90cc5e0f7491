import ScriptLab.Proofs.Host.Course

/-!
# The life of sessions

What holds at every point of every use of a playground, between operations and in the middle of runs:
which runners are in use, which sessions are listed, and that a refused operation does nothing. An
abort looks a runner up by the version of the old one, so that it depends on the names in the registry
whether it succeeds and which release it goes on with.
-/

namespace ScriptLab.Host

open Machine

namespace Playground

/-! ## Well-kept playgrounds -/

/-- What holds of a playground behind some requests. -/
structure WellKept (p : Playground) (history : List (Request × Reply)) : Prop where
  /-- An open session has a runner that is not disposed and writes to the sink of the session. -/
  bound : ∀ session place, p.sessions.find? session = some place →
    ∃ seat, p.seats[place]? = some seat ∧ seat.runner.disposed = false ∧ seat.sink = session
  /-- No runner has two sessions. -/
  apart : ∀ session other place, p.sessions.find? session = some place →
    p.sessions.find? other = some place → session = other
  /-- A runner without a session is disposed. -/
  disposed : ∀ place seat, p.seats[place]? = some seat →
    (∀ session, p.sessions.find? session ≠ some place) → seat.runner.disposed = true
  /-- Every opening, abort and switch that succeeded made a runner, and nothing else did. -/
  made : p.seats.size = history.countP makesRunner
  /-- The sessions listed are those that were opened and not closed, in opening order. -/
  listed : p.listing.map Prod.fst = (openedIn history).filter (· ∉ closedIn history)
  /-- No session was opened twice, and the numbers of sessions grow. -/
  numbered : openedIn history = List.range p.opened
  /-- A session is listed with the version of its runner. -/
  versions : ∀ session version, (session, version) ∈ p.listing ↔
    ∃ place seat, p.sessions.find? session = some place ∧ p.seats[place]? = some seat ∧
      seat.runner.release.version = version
  /-- A run gives its texts to the sink of its session. -/
  delivered : ∀ session code plan, ∀ text ∈ (p.runAmid session code plan).texts, text.1 = session
  /-- A refused request changes nothing. -/
  refused : ∀ request refusal, (p.answer request).2 = .refused refusal → (p.answer request).1 = p
  /-- A refused run changes nothing. -/
  refusedRun : ∀ session code plan refusal, (p.runAmid session code plan).report = .error refusal →
    (p.runAmid session code plan).playground = p
  /-- A run goes on as it would have gone on without a request that is refused at one of its
  points. -/
  spared : ∀ session code plan place early cue late before request after refusal,
    p.course session code = some (place, early ++ cue :: late) →
    plan cue = before ++ request :: after →
    ((p.answerAll (early.flatMap plan ++ before)).1.answer request).2 = .refused refusal →
    let whole := p.runAmid session code plan
    let spared := p.runAmid session code (Plan.sparing plan cue (before ++ after))
    spared.texts = whole.texts ∧ spared.report = whole.report ∧ spared.playground = whole.playground

variable {p : Playground} {session place : Nat} {code : String}

/-- A run is refused for want of an open session, and then nothing is asked in its course. -/
theorem during_of_refused {plan : Plan} {refusal : Refusal}
    (h : (p.runAmid session code plan).report = .error refusal) :
    p.during session code plan = ([], none) := by
  cases hseat : p.seat? session with
  | error refusal => simp [during, course, hseat]
  | ok found =>
      cases hparse : found.2.runner.parse code with
      | error failure => simp [runAmid, run, hseat, hparse] at h
      | ok parsed => simp [runAmid, run, hseat, hparse] at h

theorem nodup_course {points : List Cue} (h : p.course session code = some (place, points)) :
    points.Nodup := by
  unfold course at h
  split at h
  · cases h
  · split at h
    · cases h
    · cases h
      exact Runner.nodup_points _ _

theorem runAmid_sparing {plan : Plan} {early late : List Cue} {cue : Cue}
    {before after : List Request} {request : Request} {refusal : Refusal}
    (hcourse : p.course session code = some (place, early ++ cue :: late))
    (hplan : plan cue = before ++ request :: after)
    (h : ((p.answerAll (early.flatMap plan ++ before)).1.answer request).2 = .refused refusal) :
    let whole := p.runAmid session code plan
    let spared := p.runAmid session code (Plan.sparing plan cue (before ++ after))
    spared.texts = whole.texts ∧ spared.report = whole.report ∧
      spared.playground = whole.playground := by
  have hnodup := nodup_course hcourse
  rw [List.nodup_append'] at hnodup
  obtain ⟨-, hlate, hearly⟩ := hnodup
  rw [List.nodup_cons] at hlate
  rw [List.disjoint_cons_right] at hearly
  obtain ⟨hcut, hbehind⟩ := attend_sparing place hplan hearly.1 hlate.1 h
  have hduring : (p.during session code (Plan.sparing plan cue (before ++ after))).2 =
      (p.during session code plan).2 := by
    simpa only [during, hcourse] using hcut
  obtain ⟨htexts, hreport⟩ := runAmid_congr hduring
  refine ⟨htexts, hreport, ?_⟩
  simpa only [runAmid, during, hcourse] using hbehind

/-- What comes of a playground, whatever is asked. -/
theorem wellKept_answerAll {registry : Registry} {version : Option String} {limits : Limits}
    {start : Playground} (hcreate : create registry version limits = .ok start)
    (requests : List Request) :
    WellKept (start.answerAll requests).1 (start.history requests) := by
  have h := (Sound.create hcreate).answerAll requests
  obtain ⟨name, hstart⟩ := create_ok hcreate
  constructor
  case bound => exact fun session place => (h.bound session place).1
  case apart =>
    intro session other place hsession hother
    exact ((h.bound session place).1 hsession).session_eq ((h.bound other place).1 hother)
  case disposed =>
    intro place seat hseat hfree
    by_contra hlive
    rw [Bool.not_eq_true] at hlive
    exact hfree seat.sink ((h.bound seat.sink place).2 ⟨seat, hseat, hlive, rfl⟩)
  case made =>
    rw [size_answerAll]
    simp [hstart]
  case listed =>
    rw [h.listing_names, names_answerAll (Sound.create hcreate)]
    simp [names, hstart]
  case numbered =>
    simpa [hstart] using start.openedIn_history requests
  case versions => exact fun session version => h.mem_listing
  case delivered => exact fun session code plan => texts_run h _
  case refused => exact fun request refusal => answer_of_refused
  case refusedRun =>
    intro session code plan refusal hreport
    simp [runAmid, during_of_refused hreport, answerAll]
  case spared =>
    intro session code plan place early cue late before request after refusal
    exact runAmid_sparing

/-- The life of sessions. Operations change a playground by the requests that are asked in their
course, and behind each of these it is well kept: the open sessions and no others have a runner in
use, of their own; they are listed in opening order; and what is refused changes nothing. No runner
that was made is forgotten. -/
theorem sessions_wellKept {registry : Registry} {version : Option String} {limits : Limits}
    {start : Playground} (hcreate : create registry version limits = .ok start)
    (operations : List Operation) :
    start.performAll operations = (start.answerAll (start.asked operations)).1 ∧
      ∀ done, done <+: start.asked operations →
        WellKept (start.answerAll done).1 (start.history done) ∧
        ∀ early, early <+: done → (start.answerAll early).1.Keeps (start.answerAll done).1 := by
  refine ⟨start.performAll_eq operations, fun done _ => ⟨wellKept_answerAll hcreate done, ?_⟩⟩
  rintro early ⟨late, rfl⟩
  rw [answerAll_append]
  exact Keeps.answerAll _ late

theorem sessions_wellKept_refused_switch :
    let start : Playground :=
      { registry := Registry.builtin, defaultVersion := "0.16.0", limits := {} }
    let requests : List Request := [.opening none, .switch 0 "0.9", .abort 0]
    let operations : List Operation :=
      [.ask (.opening none), .run 0 "<: true" (Plan.at (.output 1) requests.tail)]
    start.asked operations = requests ∧
      WellKept (start.answerAll requests).1 (start.history requests) ∧
      (start.answerAll requests).1.Keeps (start.performAll operations) := by
  intro start requests operations
  have hcreate : create Registry.builtin none {} = .ok start := rfl
  have hcourse : (start.answer (.opening none)).1.course 0 "<: true" = some (0, [.output 1]) :=
    course_single rfl rfl
  have hasked : start.asked operations = requests := by
    change [Request.opening none] ++
      ((start.answer (.opening none)).1.during 0 "<: true" _).1 ++ [] = _
    unfold during
    rw [hcourse]
    rfl
  have h := sessions_wellKept hcreate operations
  have hkept := h.2 requests (by rw [hasked])
  rw [h.1, hasked]
  exact ⟨rfl, hkept.1, hkept.2 requests List.prefix_rfl⟩

end Playground

/-! ## Aborts -/

/-- Every name of a registry is the version of the release that it stands for. -/
def Registry.SelfNamed (registry : Registry) : Prop :=
  ∀ name release, Entries.find? registry name = some release → name = release.version

theorem Registry.selfNamed_builtin : builtin.SelfNamed := by
  intro name release h
  simp only [builtin, Release.all, List.map_cons, List.map_nil, Entries.find?] at h
  split at h
  · next hname =>
      cases h
      exact hname.symm
  · split at h
    · next hname =>
        cases h
        exact hname.symm
    · cases h

/-- A release that is registered under its version leaves a registry as it should be. -/
theorem Registry.SelfNamed.register {registry : Registry} (h : registry.SelfNamed)
    (release : Release) : (registry.register release.version release).SelfNamed := by
  intro name other hfind
  rw [Registry.register, Entries.find?_put] at hfind
  by_cases hname : release.version = name
  · rw [if_pos hname] at hfind
    cases hfind
    exact hname.symm
  · rw [if_neg hname] at hfind
    exact h name other hfind

namespace Playground

/-- Every runner is of a release in the registry. -/
def Registered (p : Playground) : Prop :=
  ∀ (place : Nat) (seat : Seat), p.seats[place]? = some seat →
    ∃ name, Entries.find? p.registry name = some seat.runner.release

namespace Registered

variable {p : Playground}

theorem install (h : p.Registered) {name : String} {release : Release}
    (hrelease : Entries.find? p.registry name = some release) (session sink : Nat) :
    (p.install session (p.newSeat release sink)).Registered := by
  intro place seat hseat
  rw [getElem?_install] at hseat
  by_cases hplace : place = p.seats.size
  · rw [if_pos hplace] at hseat
    cases hseat
    exact ⟨name, hrelease⟩
  · rw [if_neg hplace] at hseat
    exact h place seat hseat

theorem disposeAt (h : p.Registered) (disposed : Nat) : (p.disposeAt disposed).Registered := by
  intro place seat hseat
  rw [getElem?_disposeAt] at hseat
  by_cases hplace : disposed = place
  · rw [if_pos hplace, Option.map_eq_some_iff] at hseat
    obtain ⟨old, hold, rfl⟩ := hseat
    exact h place old hold
  · rw [if_neg hplace] at hseat
    exact h place seat hseat

theorem step (h : p.Registered) {request : Request} {reply : Reply} {q : Playground}
    (hstep : p.Step request reply q) : q.Registered := by
  cases hstep with
  | opening hrelease => exact h.install hrelease p.opened p.opened
  | abort _ _ hrelease => exact (h.install hrelease _ _).disposeAt _
  | switch _ _ hrelease => exact (h.install hrelease _ _).disposeAt _
  | close => exact disposeAt (p := p.forget _) h _
  | sessions => exact h
  | refused request refusal => exact h

theorem answerAll (h : p.Registered) (requests : List Request) :
    (p.answerAll requests).1.Registered := by
  induction requests generalizing p with
  | nil => exact h
  | cons request rest ih => exact ih (h.step (p.answer_step request))

end Registered

theorem answer_abort_of_known {p : Playground} {session place : Nat} {seat : Seat}
    {release : Release} (hbound : p.sessions.find? session = some place)
    (hseat : p.seats[place]? = some seat)
    (hrelease : Entries.find? p.registry seat.runner.release.version = some release) :
    p.answer (.abort session) =
      ((p.install session (p.newSeat release seat.sink)).disposeAt place, .done) := by
  rw [answer, abort_eq_ok_iff.2 ⟨place, seat, release, hbound, hseat, hrelease, rfl⟩]

theorem answer_abort_of_unknown {p : Playground} {session place : Nat} {seat : Seat}
    (hbound : p.sessions.find? session = some place) (hseat : p.seats[place]? = some seat)
    (hunknown : Entries.find? p.registry seat.runner.release.version = none) :
    p.answer (.abort session) =
      (p, .refused (.unknownVersion seat.runner.release.version)) := by
  have hfound := seat?_eq_ok_iff.2 ⟨hbound, hseat⟩
  simp [answer, abort, rebind, hfound, Registry.create, hunknown, bind, Except.bind]

/-- An abort of an open session looks up the version of its runner among the names in the registry.
If it is a name, the old runner is disposed and the session goes on with a new runner of the release
that the name stands for, which writes to the same sink. If it is none, the abort is refused and
nothing changes. So an abort succeeds and keeps the release where every name is the version of its
release, as it is in the registry of all releases. -/
theorem abort_looks_up_version {registry : Registry} {version : Option String} {limits : Limits}
    {start : Playground} (hcreate : create registry version limits = .ok start)
    (requests : List Request) {session place : Nat} {seat : Seat}
    (hbound : (start.answerAll requests).1.sessions.find? session = some place)
    (hseat : (start.answerAll requests).1.seats[place]? = some seat) :
    let p := (start.answerAll requests).1
    let name := seat.runner.release.version
    (∀ release, Entries.find? registry name = some release →
      ∃ q fresh, p.answer (.abort session) = (q, .done) ∧
        q.seats[place]? = some { seat with runner := seat.runner.dispose } ∧
        q.sessions.find? session = some fresh ∧ fresh ≠ place ∧
        q.seats[fresh]? = some ⟨{ release, limits }, seat.sink⟩) ∧
    (Entries.find? registry name = none →
      p.answer (.abort session) = (p, .refused (.unknownVersion name))) ∧
    (registry.SelfNamed → Entries.find? registry name = some seat.runner.release) := by
  intro p name
  have hregistry : p.registry = registry ∧ p.limits = limits := by
    obtain ⟨_, hstart⟩ := create_ok hcreate
    obtain ⟨hregistry, -, hlimits⟩ := start.answerAll_fixed requests
    exact ⟨hregistry.trans (by rw [hstart]), hlimits.trans (by rw [hstart])⟩
  refine ⟨fun release hrelease => ?_, fun hunknown => ?_, fun hnames => ?_⟩
  · rw [← hregistry.1] at hrelease
    have hplace : place ≠ p.seats.size := Nat.ne_of_lt (Array.getElem?_eq_some_iff.1 hseat).1
    use (p.install session (p.newSeat release seat.sink)).disposeAt place, p.seats.size
    refine ⟨answer_abort_of_known hbound hseat hrelease, ?_, ?_, Ne.symm hplace, ?_⟩
    · rw [getElem?_disposeAt, if_pos rfl, getElem?_install, if_neg hplace, hseat]
      rfl
    · exact (Entries.find?_put _ _ _ _).trans (if_pos rfl)
    · rw [getElem?_disposeAt, if_neg hplace, getElem?_install, if_pos rfl, newSeat, hregistry.2]
  · rw [← hregistry.1] at hunknown
    exact answer_abort_of_unknown hbound hseat hunknown
  · have hregistered : p.Registered := by
      apply Registered.answerAll
      obtain ⟨_, rfl⟩ := create_ok hcreate
      intro place seat hseat
      cases hseat
    obtain ⟨other, hother⟩ := hregistered place seat hseat
    rw [hregistry.1] at hother
    have hname : other = name := hnames other _ hother
    rw [← hname]
    exact hother

theorem abort_looks_up_version_builtin :
    let start : Playground :=
      { registry := Registry.builtin, defaultVersion := "0.16.0", limits := {} }
    let p := (start.answer (.opening (some "0.14.1"))).1
    ∃ q fresh, p.answer (.abort 0) = (q, .done) ∧ q.sessions.find? 0 = some fresh ∧
      q.seats[fresh]? = some ⟨{ release := .v0_14_1, limits := {} }, 0⟩ := by
  intro start p
  have hcreate : create Registry.builtin none {} = .ok start := rfl
  have hbound : p.sessions.find? 0 = some 0 := rfl
  have hseat : p.seats[0]? = some ⟨{ release := .v0_14_1, limits := {} }, 0⟩ := rfl
  have h := abort_looks_up_version hcreate [.opening (some "0.14.1")] hbound hseat
  obtain ⟨q, fresh, hq, -, hfresh, -, hnew⟩ := h.1 .v0_14_1 (h.2.2 Registry.selfNamed_builtin)
  exact ⟨q, fresh, hq, hfresh, hnew⟩

/-- Where a name is not the version of its release, an abort can be refused, and it can go on with
another release. -/
theorem abort_misses_release :
    (let start : Playground :=
      { registry := Registry.register [] "stable" .v0_14_1, defaultVersion := "stable", limits := {} }
     create (Registry.register [] "stable" .v0_14_1) none {} = .ok start ∧
      (start.answerAll [.opening none, .abort 0]).2 =
        [.opened 0, .refused (.unknownVersion "0.14.1")]) ∧
    (let registry := (Registry.register [] "0.14.1" .v0_16_0).register "0.16.0" .v0_14_1
     let start : Playground := { registry, defaultVersion := "0.16.0", limits := {} }
     create registry none {} = .ok start ∧
      (start.answerAll [.opening none, .sessions, .abort 0, .sessions]).2 =
        [.opened 0, .listing [(0, "0.14.1")], .done, .listing [(0, "0.16.0")]]) :=
  ⟨⟨rfl, rfl⟩, rfl, rfl⟩

end Playground

end ScriptLab.Host
