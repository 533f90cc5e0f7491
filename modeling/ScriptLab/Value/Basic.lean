import ScriptLab.Program.Fault
import ScriptLab.Program.Tree

/-!
# Values

Numbers, strings and the like are values of their own. Arrays, objects and functions are shared: a
value names one by its place in a store.
-/

namespace ScriptLab

open Program (Stmt TypeName)

/-- A value of the language. -/
inductive Value where
  | null
  | bool (b : Bool)
  | num (x : Float)
  | str (s : String)
  | arr (id : Nat)
  | obj (id : Nat)
  | fn (id : Nat)
deriving Inhabited

/-- A function that every release provides. -/
inductive Builtin where
  | print
  | typeOf
  | toText
  | sleep
  | abort
  | range
  | floor
  | abs
  | push
deriving DecidableEq

namespace Builtin

/-- All provided functions. -/
def all : List Builtin :=
  [print, typeOf, toText, sleep, abort, range, floor, abs, push]

/-- The name that a provided function is bound to. -/
def name : Builtin → String
  | print => "print"
  | typeOf => "Core:type"
  | toText => "Core:to_str"
  | sleep => "Core:sleep"
  | abort => "Core:abort"
  | range => "Core:range"
  | floor => "Math:floor"
  | abs => "Math:abs"
  | push => "Arr:push"

end Builtin

/-- The scopes that are visible at some place of a program: the innermost one and those around it,
by their places in a store. -/
structure Env where
  frame : Nat
  outer : List Nat
deriving DecidableEq

/-- The visible scopes, innermost first. -/
def Env.frames (env : Env) : List Nat :=
  env.frame :: env.outer

/-- What a function value stands for. A function of a program keeps the scopes visible where it was
written. -/
inductive Callable where
  | closure (params : List String) (body : List Stmt) (env : Env)
  | builtin (function : Builtin)

/-- What a name is bound to in a scope. -/
structure Binding where
  value : Value
  mutable : Bool

namespace Value

/-- The type of a value. -/
def type : Value → TypeName
  | null => .null
  | bool _ => .bool
  | num _ => .num
  | str _ => .str
  | arr _ => .arr
  | obj _ => .obj
  | fn _ => .fn

/-- Equality of the language: shared values are equal if they are the same one, and what is not a
number differs from itself. -/
def same : Value → Value → Bool
  | null, null => true
  | bool a, bool b => a == b
  | num x, num y => x == y
  | str s, str t => s == t
  | arr i, arr j => i == j
  | obj i, obj j => i == j
  | fn i, fn j => i == j
  | _, _ => false

end Value

end ScriptLab
