import ScopeScript.Running.Fault
import ScopeScript.Running.Value

namespace ScopeScript

def unaryResult (operator : Token) (operand : Value) : Except RuntimeFault Value :=
  if operator.isMark .minus then
    match operand with
    | .number x => .ok (.number (-x))
    | _ => .error ⟨.operandNotNumber, operator⟩
  else if operator.isMark .bang then .ok (.bool !operand.holds)
  else .error ⟨.notUnaryOperator, operator⟩

def arithmetic (operator : Token) (a b : Float) : Except RuntimeFault Value :=
  match operator.kind with
  | .mark .minus => .ok (.number (a - b))
  | .mark .star => .ok (.number (a * b))
  | .mark .slash =>
    if b == 0.0 then .error ⟨.divisionByZero, operator⟩ else .ok (.number (a / b))
  | .mark .greater => .ok (.bool (b < a))
  | .mark .greaterEqual => .ok (.bool (b ≤ a))
  | .mark .less => .ok (.bool (a < b))
  | .mark .lessEqual => .ok (.bool (a ≤ b))
  | _ => .error ⟨.notBinaryOperator, operator⟩

-- Equality takes any operands and addition also two strings; all else needs two numbers,
-- even where the operator then turns out to be none.
def binaryResult (operator : Token) (left right : Value) : Except RuntimeFault Value :=
  match operator.kind with
  | .mark .equalEqual => .ok (.bool (left.same right))
  | .mark .bangEqual => .ok (.bool !left.same right)
  | .mark .plus =>
    match left, right with
    | .number a, .number b => .ok (.number (a + b))
    | .string a, .string b => .ok (.string (a ++ b))
    | _, _ => .error ⟨.operandsNotAddable, operator⟩
  | _ =>
    match left, right with
    | .number a, .number b => arithmetic operator a b
    | _, _ => .error ⟨.operandsNotNumbers, operator⟩

-- Whether the left side of a logical operator already is the result.
def decides (operator : Token) (left : Value) : Bool :=
  if operator.isKeyword .orWord then left.holds else !left.holds

end ScopeScript
