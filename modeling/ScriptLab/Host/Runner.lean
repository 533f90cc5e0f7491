import ScriptLab.Host.Release
import ScriptLab.Machine.Interpreter
import ScriptLab.Value.Metadata

/-!
# Runners

A runner parses and runs programs of one release until it is disposed. What a program gives out goes
to a sink as texts, and its final value comes last. A tree belongs to the release that parsed it.
-/

namespace ScriptLab.Host

open Machine
open Program (Fault Stmt)

/-- The kinds of failures that are the same for all releases. -/
inductive Label where
  | syntaxError
  | typeError
  | runtimeError
  | indexOutOfRangeError
  | genericError
deriving DecidableEq

namespace Label

/-- The name of a label. -/
def text : Label → String
  | syntaxError => "SyntaxError"
  | typeError => "TypeError"
  | runtimeError => "RuntimeError"
  | indexOutOfRangeError => "IndexOutOfRangeError"
  | genericError => "GenericEngineError"

/-- The label that a table gives to the name of a fault: that of the first entry with the name, or the
generic one. -/
def ofName (table : List (String × Label)) (name : String) : Label :=
  (table.lookup name).getD genericError

end Label

/-- The labels of the faults of a release that have one of their own, by their names. -/
def Release.labels : Release → List (String × Label)
  | v0_14_1 => [("SyntaxError", .syntaxError), ("TypeError", .typeError),
      ("RuntimeError", .runtimeError), ("IndexOutOfRangeError", .indexOutOfRangeError)]
  | v0_16_0 => [("AiScriptSyntaxError", .syntaxError), ("AiScriptTypeError", .typeError),
      ("AiScriptRuntimeError", .runtimeError),
      ("AiScriptIndexOutOfRangeError", .indexOutOfRangeError)]

/-- Why a runner did not run a program to its end. -/
inductive Failure where
  | fault (release : Release) (fault : Fault)
  | disposed (release : Release)
  | foreignTree (wanted found : Release)
  | crashed (release : Release) (message : Option String)
  | unfinished (release : Release)
  /-- A failure that no runner reported. -/
  | elsewhere
deriving DecidableEq

/-- The message of a failure. -/
def Failure.message : Failure → String
  | fault release f => release.faultMessage f
  | disposed release => "runner for AiScript " ++ release.version ++ " has been disposed"
  | foreignTree wanted found =>
    "syntax tree from AiScript " ++ found.version ++ " cannot run on " ++ wanted.version
  | crashed release message =>
    "AiScript " ++ release.version ++ " panicked: " ++
      message.getD "non-string panic payload"
  | unfinished release => "AiScript " ++ release.version ++ " did not come to an end"
  | elsewhere => "failure outside of the runners"

/-- How a run ended that did not fail. -/
inductive Outcome where
  | completed
  | aborted
deriving DecidableEq

/-- The name of an outcome. -/
def Outcome.text : Outcome → String
  | completed => "completed"
  | aborted => "aborted"

/-- A program with the release that parsed it. -/
structure Tree where
  release : Release
  program : List Stmt

/-- A tree as it is shown to a host. -/
def Tree.text (tree : Tree) : String :=
  "SyntaxTree \x7b version: " ++ Json.quote tree.release.version ++ ", .. \x7d"

/-- Metadata by name. -/
abbrev Metadata := Entries (Option String) Json

/-- A release with limits, until it is disposed. -/
structure Runner where
  release : Release
  limits : Limits
  disposed : Bool := false
deriving DecidableEq

/-- What an execution did: the runner afterwards, the texts that went to the sink, the result, and
whether the interruption happened. -/
structure Execution where
  runner : Runner
  texts : List String
  result : Except Failure Outcome
  interrupted : Bool

namespace Runner

/-- Parses a program. A disposed runner still parses. -/
def parse (r : Runner) (code : String) : Except Failure (Tree × Metadata) :=
  match r.release.parse code with
  | .ok program => .ok (⟨r.release, program⟩, metadataJson program)
  | .error fault => .error (.fault r.release fault)

/-- The label of a failure, if it is a fault of the runner's release. -/
def classify (r : Runner) : Failure → Option Label
  | .fault release fault =>
    if release = r.release then some (.ofName release.labels (release.faultName fault.kind))
    else none
  | _ => none

/-- Refuses all further executions. -/
def dispose (r : Runner) : Runner :=
  { r with disposed := true }

/-- Gives a final value to the sink. An interruption that is tied to this output can still crash the
sink, but it comes too late to abort the run. -/
def deliver (r : Runner) (interruption : Option Interruption) (run : Run String) (text : String) :
    Execution :=
  let texts := run.outputs ++ [text]
  let due := match interruption with
    | some ⟨.output n, _⟩ => !run.interrupted && texts.length == n
    | _ => false
  match due, interruption with
  | true, some ⟨_, .abort⟩ => ⟨r.dispose, texts, .ok .completed, true⟩
  | true, some ⟨_, .crash message⟩ => ⟨r, texts, .error (.crashed r.release message), true⟩
  | true, _ => ⟨r, texts, .ok .completed, true⟩
  | false, _ => ⟨r, texts, .ok .completed, run.interrupted⟩

/-- What an execution makes of a run. A run that has been aborted leaves its runner disposed. -/
def finish (r : Runner) (interruption : Option Interruption) (run : Run String) : Execution :=
  let after := if run.aborted then r.dispose else r
  match run.ending with
  | .finished (some v) => after.deliver interruption run (run.store.repr v)
  | .finished none => ⟨after, run.outputs, .ok .completed, run.interrupted⟩
  | .aborted => ⟨after, run.outputs, .ok .aborted, run.interrupted⟩
  | .failed fault => ⟨after, run.outputs, .error (.fault r.release fault), run.interrupted⟩
  | .crashed message => ⟨after, run.outputs, .error (.crashed r.release message), run.interrupted⟩
  | .exhausted => ⟨after, run.outputs, .error (.unfinished r.release), run.interrupted⟩

/-- Runs a tree. An interruption that aborts the run disposes the runner. -/
def exec (r : Runner) (tree : Tree) (interruption : Option Interruption) : Execution :=
  if tree.release ≠ r.release then
    ⟨r, [], .error (.foreignTree r.release tree.release), false⟩
  else if r.disposed then ⟨r, [], .error (.disposed r.release), false⟩
  else
    let (interpreter, store) := Interpreter.create {} [] r.limits
    r.finish interruption (interpreter.run interruption Store.output store tree.program)

end Runner

end ScriptLab.Host
