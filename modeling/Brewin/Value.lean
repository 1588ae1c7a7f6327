import Brewin.TokenClass

namespace Brewin

/-- The kinds of values. Only the first three are kinds of variables; void is the return type of a
function without a result. -/
inductive Kind
  | int | string | bool | void | unknown
  deriving DecidableEq, Repr

inductive Value
  | int (n : Int64)
  | string (s : String)
  | bool (b : Bool)
  | void
  | unknown
  deriving DecidableEq, Repr

namespace Kind

def name : Kind → String
  | int => "int"
  | string => "string"
  | bool => "bool"
  | void => "void"
  | unknown => "unknown"

def ofTypeName : TypeName → Kind
  | .int => int
  | .string => string
  | .bool => bool
  | .void => void

/-- The kind that a type name stands for. -/
def ofName? (name : String) : Option Kind :=
  match reserved? name with
  | some (.typeName t) => some (ofTypeName t)
  | _ => none

def ofCode (n : Int) : Kind :=
  match n with
  | 1 => int
  | 2 => string
  | 3 => bool
  | 4 => void
  | _ => unknown

/-- The value of a variable that has been declared and not assigned. -/
def zero? : Kind → Option Value
  | int => some (.int 0)
  | string => some (.string "")
  | bool => some (.bool false)
  | void | unknown => none

end Kind

namespace Value

def kind : Value → Kind
  | int _ => .int
  | string _ => .string
  | bool _ => .bool
  | void => .void
  | unknown => .unknown

/-- The value as it is printed. -/
def text : Value → String
  | int n => toString n.toInt
  | string s => s
  | bool true => "True"
  | bool false => "False"
  | void | unknown => "<nil>"

end Value

/-- What a token is when it is read as a literal. -/
inductive LiteralReading
  | notLiteral
  | outOfRange
  | value (v : Value)
  deriving DecidableEq, Repr

def readLiteral (token : String) : LiteralReading :=
  if isStringLiteral token then .value (.string (unquote token))
  else if isIntLiteral token then
    match readInt64? token with
    | some n => .value (.int n)
    | none => .outOfRange
  else if token = "True" then .value (.bool true)
  else if token = "False" then .value (.bool false)
  else .notLiteral

end Brewin
