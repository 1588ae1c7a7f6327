import Brewin.Operation
import Brewin.Scopes
import Brewin.Stack

namespace Brewin

namespace Scopes

/-- The value of a literal, or of a variable of the running function. -/
def operand (s : Scopes) (token : String) : Except Problem Value :=
  match readLiteral token with
  | .value v => .ok v
  | .outOfRange => .error (.literalOutOfRange token)
  | .notLiteral =>
    match s.valueOf? token with
    | some v => .ok v
    | none => .error (.unknownVariable token)

/-- An operator takes its left operand from the top of the stack and its right operand from
below; any other token puts its value on top. -/
def reduceToken (s : Scopes) (token : String) (operands : Stack Value) :
    Except Problem (Stack Value) :=
  if isOperator token then
    match operands with
    | left :: right :: rest => (operation token left right).map (· :: rest)
    | _ => .error (.missingOperand token)
  else (s.operand token).map (· :: operands)

/-- The operand stack after a prefix expression has been read from its right end. -/
def reduce (s : Scopes) : List String → Except Problem (Stack Value)
  | [] => .ok []
  | token :: rest => s.reduce rest >>= s.reduceToken token

/-- The value of a prefix expression. -/
def evaluate (s : Scopes) (expr : List String) : Except Problem Value :=
  if expr.isEmpty then .error .emptyExpression
  else
    match s.reduce expr with
    | .error problem => .error problem
    | .ok [v] => .ok v
    | .ok operands => .error (.leftoverOperands operands.length)

/-- The truth value of a condition. -/
def condition (s : Scopes) (expr : List String) : Except Problem Bool :=
  match s.evaluate expr with
  | .error problem => .error problem
  | .ok (.bool b) => .ok b
  | .ok v => .error (.conditionMismatch v.kind)

/-- The values of arguments, from left to right. -/
def operands (s : Scopes) (args : List String) : Except Problem (List Value) :=
  args.mapM s.operand

/-- The printed forms of the arguments, one behind the other. -/
def joined (s : Scopes) (args : List String) : Except Problem String :=
  (s.operands args).map fun values => String.join (values.map Value.text)

end Scopes

end Brewin
