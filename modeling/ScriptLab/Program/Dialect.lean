/-!
# Dialects

A program is written in one of two dialects. They share the words of control flow and differ in the
words for definitions and literals, and in a few symbols.
-/

namespace ScriptLab.Program

/-- The older dialect writes `#x = 1` and `$y <- 2`, the newer one `let x = 1` and `var y = 2`. -/
inductive Dialect where
  | legacy
  | modern
deriving DecidableEq

/-- A word with a fixed meaning. -/
inductive Keyword where
  | ifThen
  | elseIf
  | orElse
  | loop
  | breakOut
  | continueOn
  | returnBack
  | each
  | forCount
  | constDef
  | varDef
  | litTrue
  | litFalse
  | litNull
deriving DecidableEq

namespace Keyword

/-- The name of a keyword in messages, the same in both dialects. -/
def name : Keyword → String
  | ifThen => "if"
  | elseIf => "elif"
  | orElse => "else"
  | loop => "loop"
  | breakOut => "break"
  | continueOn => "continue"
  | returnBack => "return"
  | each => "each"
  | forCount => "for"
  | constDef => "let"
  | varDef => "var"
  | litTrue => "true"
  | litFalse => "false"
  | litNull => "null"

/-- The spelling in a dialect, if the dialect has the keyword. -/
def spelling? : Dialect → Keyword → Option String
  | .legacy, constDef => none
  | .legacy, varDef => none
  | .legacy, litTrue => some "yes"
  | .legacy, litFalse => some "no"
  | .legacy, litNull => some "_"
  | _, keyword => some keyword.name

/-- Every keyword. -/
def all : List Keyword :=
  [ifThen, elseIf, orElse, loop, breakOut, continueOn, returnBack, each, forCount, constDef, varDef,
    litTrue, litFalse, litNull]

end Keyword

/-- The keyword that a word is in a dialect. -/
def Dialect.keyword? (dialect : Dialect) (word : String) : Option Keyword :=
  Keyword.all.find? fun keyword => keyword.spelling? dialect == some word

end ScriptLab.Program
