import ScriptLab.Host.Registry

/-!
# Playgrounds

A playground keeps sessions open. Each is bound to a runner, which is replaced by a new one when the
session is aborted or switched to another version, and disposed then and when the session is closed.
Requests may also come in the middle of a run, at an interruption of it.
-/

namespace ScriptLab.Host

open Machine (Limits Interruption Cue Effect)

/-- A runner with the session whose sink it writes to. -/
structure Seat where
  runner : Runner
  sink : Nat

/-- The sessions with all runners that were ever made for them. -/
structure Playground where
  registry : Registry
  defaultVersion : String
  limits : Limits
  /-- How many sessions were ever opened. They are numbered from zero. -/
  opened : Nat := 0
  /-- The open sessions in opening order, with the places of their runners. -/
  sessions : Entries Nat Nat := []
  seats : Array Seat := #[]

/-- A request other than to run a program. -/
inductive Request where
  | opening (version : Option String)
  | abort (session : Nat)
  | switch (session : Nat) (version : String)
  | close (session : Nat)
  | sessions

/-- The answer to a request. -/
inductive Reply where
  | opened (session : Nat)
  | done
  | listing (sessions : List (Nat × String))
  | refused (refusal : Refusal)

/-- The stage in which a run failed. -/
inductive Stage where
  | parse
  | exec

/-- The name of a stage. -/
def Stage.text : Stage → String
  | parse => "parse"
  | exec => "exec"

/-- How a run of a session ended. -/
inductive Verdict where
  | ended (outcome : Outcome)
  | failed (stage : Stage) (label : Option Label) (message : String)

/-- The report of a run. -/
structure Report where
  version : String
  metadata : Metadata
  verdict : Verdict

/-- Requests that come at a point of a run. After them the sink may crash. -/
structure Interlude where
  cue : Cue
  requests : List Request
  crash : Option (Option String) := none

/-- What a run of a session did: the playground afterwards, the texts with the session whose sink
received them, the report, and the replies to the requests made at the interlude. -/
structure RunResult where
  playground : Playground
  texts : List (Nat × String)
  report : Except Refusal Report
  replies : List Reply

namespace Playground

/-- A playground over a registry. Without a default version the latest one is the default. -/
def create (registry : Registry) (defaultVersion : Option String) (limits : Limits) :
    Except Refusal Playground :=
  match defaultVersion with
  | some version =>
    if registry.contains version then .ok { registry, defaultVersion := version, limits }
    else .error (.unknownVersion version)
  | none =>
    match registry.latest? with
    | some version => .ok { registry, defaultVersion := version, limits }
    | none => .error .noVersions

/-- The name of a session in messages. A session that was never opened has the empty identifier. -/
def sessionName (p : Playground) (session : Nat) : String :=
  if session < p.opened then "s" ++ Nat.repr session
  else "00000000-0000-0000-0000-000000000000"

/-- The place of the runner of an open session, and what stands there. -/
def seat? (p : Playground) (session : Nat) : Except Refusal (Nat × Seat) :=
  match p.sessions.find? session with
  | none => .error (.unknownSession (p.sessionName session))
  | some place =>
    match p.seats[place]? with
    | some seat => .ok (place, seat)
    | none => .error (.unknownSession (p.sessionName session))

/-- Disposes the runner at a place. -/
def disposeAt (p : Playground) (place : Nat) : Playground :=
  { p with seats := p.seats.modify place fun seat => { seat with runner := seat.runner.dispose } }

/-- Opens a session. -/
def openSession (p : Playground) (version : Option String) : Except Refusal (Playground × Nat) := do
  let runner ← p.registry.create (version.getD p.defaultVersion) p.limits
  let session := p.opened
  return ({ p with
    opened := session + 1
    sessions := p.sessions.put session p.seats.size
    seats := p.seats.push ⟨runner, session⟩ }, session)

/-- Binds an open session to a new runner and disposes the old one. -/
def rebind (p : Playground) (session : Nat) (version : String) : Except Refusal Playground := do
  let (place, seat) ← p.seat? session
  let runner ← p.registry.create version p.limits
  let q := { p with
    sessions := p.sessions.put session p.seats.size
    seats := p.seats.push ⟨runner, seat.sink⟩ }
  return q.disposeAt place

/-- Stops what a session is running. The session goes on with a new runner for the version of its
old one. -/
def abort (p : Playground) (session : Nat) : Except Refusal Playground := do
  let (_, seat) ← p.seat? session
  p.rebind session seat.runner.release.version

/-- Closes a session. -/
def close (p : Playground) (session : Nat) : Except Refusal Playground := do
  let (place, _) ← p.seat? session
  return { p with sessions := p.sessions.erase session }.disposeAt place

/-- The open sessions in opening order, with the versions of their runners. -/
def listing (p : Playground) : List (Nat × String) :=
  p.sessions.filterMap fun (session, place) =>
    p.seats[place]?.map fun seat => (session, seat.runner.release.version)

/-- Answers a request. A refused one changes nothing. -/
def answer (p : Playground) : Request → Playground × Reply
  | .opening version =>
    match p.openSession version with
    | .ok (q, session) => (q, .opened session)
    | .error refusal => (p, .refused refusal)
  | .abort session =>
    match p.abort session with
    | .ok q => (q, .done)
    | .error refusal => (p, .refused refusal)
  | .switch session version =>
    match p.rebind session version with
    | .ok q => (q, .done)
    | .error refusal => (p, .refused refusal)
  | .close session =>
    match p.close session with
    | .ok q => (q, .done)
    | .error refusal => (p, .refused refusal)
  | .sessions => (p, .listing p.listing)

/-- Answers requests one after the other. -/
def answerAll (p : Playground) : List Request → Playground × List Reply
  | [] => (p, [])
  | request :: rest =>
    let (p, reply) := p.answer request
    let (p, replies) := p.answerAll rest
    (p, reply :: replies)

/-- What requests, answered with the playground `q`, do to the run of the runner at a place. -/
def effectOn (q : Playground) (place : Nat) (crash : Option (Option String)) : Effect :=
  match crash with
  | some message => .crash message
  | none => if q.seats[place]?.any (·.runner.disposed) then .abort else .nothing

/-- Parses and runs a program in a session. A run changes the playground only by the requests of its
interlude, so that these can be answered beforehand and take effect if their point is reached. -/
def run (p : Playground) (session : Nat) (code : String) (interlude : Option Interlude) :
    RunResult :=
  match p.seat? session with
  | .error refusal => ⟨p, [], .error refusal, []⟩
  | .ok (place, seat) =>
    let runner := seat.runner
    let version := runner.release.version
    match runner.parse code with
    | .error failure =>
      ⟨p, [], .ok ⟨version, [], .failed .parse (runner.classify failure) failure.message⟩, []⟩
    | .ok (tree, metadata) =>
      let requests := (interlude.map (·.requests)).getD []
      let (q, replies) := p.answerAll requests
      let interruption := interlude.map fun i =>
        { cue := i.cue, effect := q.effectOn place i.crash : Interruption }
      let execution := runner.exec tree interruption
      let verdict := match execution.result with
        | .ok outcome => .ended outcome
        | .error failure => .failed .exec (runner.classify failure) failure.message
      { playground := if execution.interrupted then q else p
        texts := execution.texts.map fun text => (seat.sink, text)
        report := .ok ⟨version, metadata, verdict⟩
        replies := if execution.interrupted then replies else [] }

end Playground

end ScriptLab.Host
