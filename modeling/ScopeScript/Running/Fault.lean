import ScopeScript.Lexis.Token
import ScopeScript.Running.Sink

namespace ScopeScript

inductive RuntimeCause where
  | undefinedVariable
  | undefinedProperty
  | operandNotNumber
  | operandsNotNumbers
  | operandsNotAddable
  | noProperties
  | noFields
  | notUnaryOperator
  | notBinaryOperator
  | divisionByZero
  | notCallable
  | wrongArity (expected given : Nat)
  | output (failure : SinkFailure)
  deriving DecidableEq, Repr

-- What stopped a run, and the token at which it happened.
structure RuntimeFault where
  cause : RuntimeCause
  token : Token
  deriving DecidableEq

def decimal (n : Nat) : String := String.ofList (Decimal.digitsOf n)

def RuntimeFault.message (f : RuntimeFault) : String :=
  let named (before after : String) := before ++ " '" ++ f.token.lexeme ++ "'" ++ after
  match f.cause with
  | .undefinedVariable => named "Undefined variable" "."
  | .undefinedProperty => named "Undefined property" "."
  | .operandNotNumber => "Operand must be a number."
  | .operandsNotNumbers => "Operands must be numbers."
  | .operandsNotAddable => "Operands must be two numbers or two strings."
  | .noProperties => "Only instances have properties."
  | .noFields => "Only instances have fields."
  | .notUnaryOperator => named "Invalid unary operator" "."
  | .notBinaryOperator => named "Invalid binary operator" "."
  | .divisionByZero => "Division by zero."
  | .notCallable => "Can only call functions and classes."
  | .wrongArity expected given =>
    "Expected " ++ decimal expected ++ " arguments but got " ++ decimal given ++ "."
  | .output failure => "Failed to write output: " ++ failure.message

end ScopeScript
