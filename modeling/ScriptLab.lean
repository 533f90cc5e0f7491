import ScriptLab.Main
import ScriptLab.Program.Outline
import ScriptLab.Host.Workbench
import ScriptLab.Proofs.Machine.Action
import ScriptLab.Proofs.Machine.Discipline
import ScriptLab.Proofs.Program.Depth
import ScriptLab.Proofs.Machine.Forward
import ScriptLab.Proofs.Machine.LooserLimits
import ScriptLab.Proofs.Machine.Run
import ScriptLab.Proofs.Machine.Bounds
import ScriptLab.Proofs.Machine.Cancellation
import ScriptLab.Proofs.Host.Disposal
import ScriptLab.Proofs.Program.Derivation
import ScriptLab.Proofs.Program.Lexing
import ScriptLab.Proofs.Program.Soundness
import ScriptLab.Proofs.Program.Flattening
import ScriptLab.Proofs.Program.Completeness
import ScriptLab.Proofs.Program.Printer
import ScriptLab.Proofs.Program.Shape
import ScriptLab.Proofs.Program.Printing
import ScriptLab.Proofs.Program.Spelling
import ScriptLab.Proofs.Number.Bits
import ScriptLab.Proofs.Number.Rounding
import ScriptLab.Proofs.Number.Shortest
import ScriptLab.Proofs.Number.Text
import ScriptLab.Proofs.Program.Words
import ScriptLab.Proofs.Program.RoundTrip
import ScriptLab.Proofs.Program.Modern
import ScriptLab.Proofs.Machine.Interruption
import ScriptLab.Proofs.Host.Releases
import ScriptLab.Proofs.Host.Sessions
import ScriptLab.Proofs.Host.Views
import ScriptLab.Proofs.Host.Course
import ScriptLab.Proofs.Host.Lifecycle
import ScriptLab.Proofs.Host.Separation
import ScriptLab.Proofs.Value.Shifting
import ScriptLab.Proofs.Value.Rendering
import ScriptLab.Proofs.Machine.Causes
import ScriptLab.Proofs.Machine.Accord
import ScriptLab.Proofs.Machine.Accord.Evaluation
import ScriptLab.Proofs.Machine.Reuse
import ScriptLab.Proofs.Machine.Silence
import ScriptLab.Proofs.Machine.OpenEvaluations
import ScriptLab.Proofs.Machine.Termination
import ScriptLab.Proofs.Host.Memory
import ScriptLab.Proofs.Host.Finality
import ScriptLab.Proofs.Text.Position
import ScriptLab.Proofs.Program.Lines
import ScriptLab.Proofs.Program.Moving
import ScriptLab.Proofs.Program.Joining
import ScriptLab.Proofs.Program.Parts
import ScriptLab.Proofs.Program.Steady
import ScriptLab.Proofs.Program.Totality
import ScriptLab.Proofs.Host.Parsing
import ScriptLab.Proofs.Machine.Faults
import ScriptLab.Proofs.Host.Failures
import ScriptLab.Proofs.Machine.Scopes
import ScriptLab.Proofs.Machine.Moments
import ScriptLab.Proofs.Machine.Bindings
import ScriptLab.Proofs.Machine.Jumps
import ScriptLab.Proofs.Machine.Departures
import ScriptLab.Proofs.Machine.LoopControl
import ScriptLab.Proofs.Program.Gaps
import ScriptLab.Proofs.Program.Lexemes
import ScriptLab.Proofs.Program.Cutting
import ScriptLab.Proofs.Program.Matching
import ScriptLab.Proofs.Program.Layout
import ScriptLab.Proofs.Program.Places
import ScriptLab.Proofs.Value.Unfolding
import ScriptLab.Proofs.Value.Literals
import ScriptLab.Proofs.Number.Sign
import ScriptLab.Proofs.Number.Notation
import ScriptLab.Proofs.Number.Exact
import ScriptLab.Proofs.Program.DataText
import ScriptLab.Proofs.Program.Data
import ScriptLab.Proofs.Machine.Making
import ScriptLab.Proofs.Machine.Nesting
import ScriptLab.Proofs.Machine.Literals
import ScriptLab.Proofs.Host.Metadata
import ScriptLab.Proofs.Files.Tree
import ScriptLab.Proofs.Host.Saving
import ScriptLab.Proofs.Json.Writing
import ScriptLab.Proofs.Json.Fields
import ScriptLab.Proofs.Host.ConfigText
import ScriptLab.Proofs.Machine.Compound
import ScriptLab.Proofs.Number.Whole
import ScriptLab.Proofs.Machine.Ranges
import ScriptLab.Proofs.Machine.Indexing
import ScriptLab.Proofs.Program.Levels
import ScriptLab.Proofs.Program.TreeDepth
