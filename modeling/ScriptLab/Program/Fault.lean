import ScriptLab.Number.Text
import ScriptLab.Program.Token

/-!
# Faults

What can be wrong with a program, when it is parsed or when it runs. A fault is a cause and a
place; the wording of its message and its kind follow from the cause.
-/

namespace ScriptLab.Program

/-- The types of values. -/
inductive TypeName where
  | null
  | bool
  | num
  | str
  | arr
  | obj
  | fn
deriving DecidableEq

/-- The name of a type in the language. -/
def TypeName.text : TypeName → String
  | null => "null"
  | bool => "bool"
  | num => "num"
  | str => "str"
  | arr => "arr"
  | obj => "obj"
  | fn => "fn"

/-- The longest array that a range builds. -/
def maxRangeLength : Nat := 1048576

/-- Why a program was refused or stopped. -/
inductive Cause where
  | openComment
  | openString
  | strayChar (c : Char)
  | unexpected (found : TokenKind)
  | expected (wanted found : TokenKind)
  | metadataNotLiteral
  | metadataInBlock
  | notAPlace
  | nestedTooDeep
  | mismatch (wanted found : TypeName)
  | noProperty (name : String) (type : TypeName)
  | alreadyDefined (name : String)
  | undefinedName (name : String)
  | immutable (name : String)
  | strayLoopControl
  | stepsExceeded
  | callsExceeded
  | rangeTooLong
  | outOfRange (index : Float) (length : Nat)
  | raised (message : String)
deriving DecidableEq

/-- The kinds of faults. -/
inductive FaultKind where
  | malformed
  | type
  | runtime
  | range
  | user
deriving DecidableEq

namespace Cause

/-- The kind of a fault with this cause. -/
def kind : Cause → FaultKind
  | openComment | openString | strayChar _ | unexpected _ | expected .. | metadataNotLiteral
  | metadataInBlock | notAPlace | nestedTooDeep => .malformed
  | mismatch .. | noProperty .. => .type
  | alreadyDefined _ | undefinedName _ | immutable _ | strayLoopControl | stepsExceeded
  | callsExceeded | rangeTooLong => .runtime
  | outOfRange .. => .range
  | raised _ => .user

/-- The message of a fault with this cause, without the place. -/
def message : Cause → String
  | openComment => "unterminated comment"
  | openString => "unterminated string literal"
  | strayChar c => "unexpected character '" ++ String.singleton c ++ "'"
  | unexpected found => "unexpected " ++ found.describe
  | expected wanted found => "expected " ++ wanted.describe ++ " but found " ++ found.describe
  | metadataNotLiteral => "metadata values must be literals"
  | metadataInBlock => "metadata is only allowed at the top level"
  | notAPlace => "invalid assignment target"
  | nestedTooDeep => "nesting too deep"
  | mismatch wanted found => "Expect " ++ wanted.text ++ ", but got " ++ found.text
  | noProperty name type => "No property '" ++ name ++ "' on " ++ type.text
  | alreadyDefined name => "Variable '" ++ name ++ "' already exists in this scope"
  | undefinedName name => "No such variable '" ++ name ++ "'"
  | immutable name => "Cannot assign to an immutable variable '" ++ name ++ "'"
  | strayLoopControl => "break or continue outside of a loop"
  | stepsExceeded => "max step exceeded"
  | callsExceeded => "max call depth exceeded"
  | rangeTooLong => "range too long (at most " ++ Nat.repr maxRangeLength ++ " items)"
  | outOfRange index length =>
    "Index out of range. index: " ++ Number.text index ++ " max: " ++ Int.repr (length - 1)
  | raised message => message

end Cause

/-- A cause and the place where it was noticed. -/
structure Fault where
  cause : Cause
  pos : Text.Pos
deriving DecidableEq

namespace Fault

/-- The kind of a fault. -/
def kind (f : Fault) : FaultKind :=
  f.cause.kind

/-- The message with the place. -/
def message (f : Fault) : String :=
  f.cause.message ++ " (Line " ++ Nat.repr f.pos.line ++ ", Column " ++ Nat.repr f.pos.column ++ ")"

end Fault

end ScriptLab.Program
