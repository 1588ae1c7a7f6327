import Brewin.Quoted
import Brewin.Statement
import Brewin.Value

namespace Brewin

inductive FaultKind
  | type | name | grammar | runtime
  deriving DecidableEq, Repr

namespace FaultKind

def label : FaultKind → String
  | type => "TypeError"
  | name => "NameError"
  | grammar => "SyntaxError"
  | runtime => "RuntimeError"

def code : FaultKind → Nat
  | type => 1
  | name => 2
  | grammar => 3
  | runtime => 4

def ofCode? (n : Int) : Option FaultKind :=
  [type, name, grammar, runtime].find? fun k => (k.code : Int) == n

/-- The label of the kind with a code, also for codes that no kind has. -/
def labelOfCode (n : Int) : String :=
  match ofCode? n with
  | some k => k.label
  | none => "ErrorKind(" ++ toString n ++ ")"

end FaultKind

/-- What lies behind a fault that the program's text alone does not explain. -/
inductive Cause
  | tooManySteps | zeroDivisor | writeFailure | endOfInput | readFailure
  deriving DecidableEq, Repr

def Cause.text : Cause → String
  | tooManySteps => "maximum steps exceeded"
  | zeroDivisor => "division by zero"
  | writeFailure => "write failure"
  | endOfInput => "EOF"
  | readFailure => "read failure"

/-- How reading a line can fail. -/
inductive ReadFailure
  | ended | broken
  deriving DecidableEq, Repr

/-- The reasons for which a run stops early. -/
inductive Problem
  | emptyExpression
  | missingOperand (op : String)
  | leftoverOperands (count : Nat)
  | literalOutOfRange (token : String)
  | unknownVariable (name : String)
  | operandMismatch (left right : Kind) (op : String)
  | unsupportedOperator (op : String) (kind : Kind)
  | divisionByZero
  | moduloByZero
  | unknownType (name : String)
  | duplicateName (name : String)
  | assignmentMismatch (value target : Kind) (name : String)
  | unknownFunction (name : String)
  | argumentCount (function : String) (expected got : Nat)
  | argumentMismatch (param function type : String) (got : Kind)
  | returnMismatch (function declared : String) (got : Kind)
  | conditionMismatch (got : Kind)
  | ifWithoutEndIf
  | elseWithoutEndIf
  | endIfWithoutBlock
  | whileWithoutEndWhile
  | endWhileWithoutWhile
  | endWhileWithoutBlock
  | malformed (omission : Omission)
  | writeFailed
  | readFailed (failure : ReadFailure)
  | conversionCount (got : Nat)
  | conversionMismatch (got : Kind)
  | notANumber (text : String)
  | stepLimit (steps : Nat)
  deriving DecidableEq, Repr

namespace Problem

def kind : Problem → FaultKind
  | emptyExpression | missingOperand _ | leftoverOperands _ | literalOutOfRange _ => .grammar
  | ifWithoutEndIf | elseWithoutEndIf | endIfWithoutBlock => .grammar
  | whileWithoutEndWhile | endWhileWithoutWhile | endWhileWithoutBlock => .grammar
  | malformed _ => .grammar
  | unknownVariable _ | duplicateName _ | unknownFunction _ => .name
  | argumentCount _ _ _ | conversionCount _ => .name
  | operandMismatch _ _ _ | unsupportedOperator _ _ | unknownType _ => .type
  | assignmentMismatch _ _ _ | argumentMismatch _ _ _ _ | returnMismatch _ _ _ => .type
  | conditionMismatch _ | conversionMismatch _ | notANumber _ => .type
  | divisionByZero | moduloByZero | writeFailed | readFailed _ | stepLimit _ => .runtime

def cause? : Problem → Option Cause
  | divisionByZero | moduloByZero => some .zeroDivisor
  | writeFailed => some .writeFailure
  | readFailed .ended => some .endOfInput
  | readFailed .broken => some .readFailure
  | stepLimit _ => some .tooManySteps
  | _ => none

def message : Problem → String
  | emptyExpression => "empty expression"
  | missingOperand op => "operator " ++ op ++ " needs two operands"
  | leftoverOperands count => "expression leaves " ++ toString count ++ " values, expected 1"
  | literalOutOfRange token => "integer literal " ++ token ++ " out of range"
  | unknownVariable name => "variable " ++ name ++ " not found"
  | operandMismatch left right op =>
    "operand types " ++ left.name ++ " and " ++ right.name ++ " do not match for " ++ op
  | unsupportedOperator op kind => "operator " ++ op ++ " not supported for " ++ kind.name
  | divisionByZero => "integer division by zero"
  | moduloByZero => "integer modulo by zero"
  | unknownType name => "unknown variable type " ++ quoted name
  | duplicateName name => "duplicate definition of " ++ name ++ " within the same block"
  | assignmentMismatch value target name =>
    "cannot assign " ++ value.name ++ " to " ++ target.name ++ " variable " ++ name
  | unknownFunction name => "function " ++ name ++ " not defined"
  | argumentCount function expected got =>
    "function " ++ function ++ " expects " ++ toString expected ++ " arguments, got " ++
      toString got
  | argumentMismatch param function type got =>
    "argument " ++ param ++ " of " ++ function ++ " expects " ++ type ++ ", got " ++ got.name
  | returnMismatch function declared got =>
    "function " ++ function ++ " returns " ++ declared ++ ", got " ++ got.name
  | conditionMismatch got => "condition is " ++ got.name ++ ", expected bool"
  | ifWithoutEndIf => "if without matching endif"
  | elseWithoutEndIf => "else without matching endif"
  | endIfWithoutBlock => "endif without open block"
  | whileWithoutEndWhile => "while without matching endwhile"
  | endWhileWithoutWhile => "endwhile without matching while"
  | endWhileWithoutBlock => "endwhile without open block"
  | malformed omission => omission.keyword.spelling ++ ": " ++ omission.reason
  | writeFailed => "write output"
  | readFailed _ => "read input"
  | conversionCount got => "strtoint expects 1 argument, got " ++ toString got
  | conversionMismatch got => "strtoint expects string, got " ++ got.name
  | notANumber text => "cannot convert " ++ quoted text ++ " to int"
  | stepLimit steps => "stopped after " ++ toString steps ++ " steps"

end Problem

/-- The line number that means that a fault belongs to no line. -/
def noLine : Int := -1

/-- A fault in one sentence. -/
def faultText (label : String) (line : Int) (message : String) : String :=
  if line = noLine then label ++ ": " ++ message
  else label ++ " on line " ++ toString line ++ ": " ++ message

/-- A problem and the line at which it arose. -/
structure Fault where
  line : Int := noLine
  problem : Problem
  deriving DecidableEq, Repr

namespace Fault

def kind (f : Fault) : FaultKind :=
  f.problem.kind

def text (f : Fault) : String :=
  faultText f.kind.label f.line f.problem.message

end Fault

/-- Puts the circumstances in front of an error text. -/
def withContext (context text : String) : String :=
  context ++ ": " ++ text

end Brewin
