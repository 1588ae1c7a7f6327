import Brewin.Blank
import Brewin.TokenClass

namespace Brewin

/-- What a line with a proper keyword may fail to name. -/
inductive Omission
  | definedName | variableType | assignmentTarget | calledName
  deriving DecidableEq, Repr

namespace Omission

def keyword : Omission → Keyword
  | definedName => .func
  | variableType => .var
  | assignmentTarget => .assign
  | calledName => .funcCall

def reason : Omission → String
  | definedName | calledName => "missing function name"
  | variableType => "missing variable type"
  | assignmentTarget => "missing assignment target"

end Omission

/-- One line of a program. Expressions and arguments are kept as tokens. -/
inductive Statement
  | func (name : String)
  | endFunc
  | var (type : String) (names : List String)
  | assign (target : String) (expr : List String)
  | call (name : String) (args : List String)
  | ifThen (cond : List String)
  | orElse
  | endIf
  | whileDo (cond : List String)
  | endWhile
  | ret (expr : List String)
  | nop
  | malformed (omission : Omission)
  deriving DecidableEq, Repr

namespace Statement

/-- The statement that a keyword makes with the tokens behind it. -/
def ofKeyword : Keyword → List String → Statement
  | .func, name :: _ => func name
  | .func, [] => malformed .definedName
  | .endFunc, _ => endFunc
  | .var, type :: names => var type names
  | .var, [] => malformed .variableType
  | .assign, target :: expr => assign target expr
  | .assign, [] => malformed .assignmentTarget
  | .funcCall, name :: args => call name args
  | .funcCall, [] => malformed .calledName
  | .ifThen, cond => ifThen cond
  | .orElse, _ => orElse
  | .endIf, _ => endIf
  | .whileDo, cond => whileDo cond
  | .endWhile, _ => endWhile
  | .ret, expr => ret expr

/-- Lines that do not start with a keyword do nothing. -/
def decode : List String → Statement
  | [] => nop
  | first :: args =>
    match reserved? first with
    | some (.keyword k) => ofKeyword k args
    | _ => nop

/-- Tokens with one space between them. -/
def spaced (tokens : List String) : String :=
  " ".intercalate tokens

/-- The statement as a source line. -/
def text : Statement → String
  | func name => "func " ++ name
  | endFunc => "endfunc"
  | var type names => "var " ++ type ++ " " ++ spaced names
  | assign target expr => "assign " ++ target ++ " " ++ spaced expr
  | call name args => trim ("funccall " ++ name ++ " " ++ spaced args)
  | ifThen cond => "if " ++ spaced cond
  | orElse => "else"
  | endIf => "endif"
  | whileDo cond => "while " ++ spaced cond
  | endWhile => "endwhile"
  | ret expr => trim ("return " ++ spaced expr)
  | nop => "nop"
  | malformed omission => omission.keyword.spelling ++ " <" ++ omission.reason ++ ">"

end Statement

end Brewin
