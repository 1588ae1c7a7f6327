import Brewin.Fault

namespace Brewin

/-- The quotient rounded down; the one quotient out of range wraps around. -/
def floorDiv (a b : Int64) : Int64 :=
  if a % b ≠ 0 ∧ (decide (a < 0) != decide (b < 0)) then a / b - 1 else a / b

/-- The remainder with the sign of the divisor. -/
def floorMod (a b : Int64) : Int64 :=
  if a % b ≠ 0 ∧ (decide (a % b < 0) != decide (b < 0)) then a % b + b else a % b

def intOperation (symbol : String) (a b : Int64) : Except Problem Value :=
  match Operator.ofSpelling? symbol with
  | some .plus => .ok (.int (a + b))
  | some .minus => .ok (.int (a - b))
  | some .times => .ok (.int (a * b))
  | some .divide => if b = 0 then .error .divisionByZero else .ok (.int (floorDiv a b))
  | some .modulo => if b = 0 then .error .moduloByZero else .ok (.int (floorMod a b))
  | some .less => .ok (.bool (decide (a < b)))
  | some .greater => .ok (.bool (decide (b < a)))
  | some .lessEq => .ok (.bool (decide (a ≤ b)))
  | some .greaterEq => .ok (.bool (decide (b ≤ a)))
  | some .equal => .ok (.bool (decide (a = b)))
  | some .notEqual => .ok (.bool (decide (a ≠ b)))
  | some .and | some .or | none => .error (.unsupportedOperator symbol .int)

/-- Texts are compared by their code points. -/
def stringOperation (symbol : String) (a b : String) : Except Problem Value :=
  match Operator.ofSpelling? symbol with
  | some .plus => .ok (.string (a ++ b))
  | some .less => .ok (.bool (decide (a < b)))
  | some .greater => .ok (.bool (decide (b < a)))
  | some .lessEq => .ok (.bool (decide (¬ b < a)))
  | some .greaterEq => .ok (.bool (decide (¬ a < b)))
  | some .equal => .ok (.bool (decide (a = b)))
  | some .notEqual => .ok (.bool (decide (a ≠ b)))
  | _ => .error (.unsupportedOperator symbol .string)

def boolOperation (symbol : String) (a b : Bool) : Except Problem Value :=
  match Operator.ofSpelling? symbol with
  | some .and => .ok (.bool (a && b))
  | some .or => .ok (.bool (a || b))
  | some .equal => .ok (.bool (a == b))
  | some .notEqual => .ok (.bool (a != b))
  | _ => .error (.unsupportedOperator symbol .bool)

/-- Applies an operator to two values, which must have one kind. -/
def operation (symbol : String) (a b : Value) : Except Problem Value :=
  match a, b with
  | .int a, .int b => intOperation symbol a b
  | .string a, .string b => stringOperation symbol a b
  | .bool a, .bool b => boolOperation symbol a b
  | a, b =>
    if a.kind = b.kind then .error (.unsupportedOperator symbol a.kind)
    else .error (.operandMismatch a.kind b.kind symbol)

end Brewin
