import ScopeScript.Lexis.Token

namespace ScopeScript

-- The rules a program can break before it runs.
inductive StaticCause where
  | duplicateDeclaration
  | selfReferentialInitializer
  | returnOutsideFunction
  | valueFromInitializer
  | breakOutsideLoop
  | thisOutsideClass
  deriving DecidableEq, Repr

structure StaticFault where
  cause : StaticCause
  token : Token
  deriving DecidableEq

inductive WarningCause where
  | unusedVariable
  | unreachableCode
  deriving DecidableEq, Repr

-- Advice that never keeps a program from running.
structure Warning where
  cause : WarningCause
  token : Token
  deriving DecidableEq

def StaticCause.message : StaticCause → String
  | duplicateDeclaration => "Already a variable with this name in this scope."
  | selfReferentialInitializer => "Can't read local variable in its own initializer."
  | returnOutsideFunction => "Can't return from top-level code."
  | valueFromInitializer => "Can't return a value from an initializer."
  | breakOutsideLoop => "Can't use 'break' outside of a loop."
  | thisOutsideClass => "Can't use 'this' outside of a class."

def Warning.message (w : Warning) : String :=
  match w.cause with
  | .unusedVariable => "Local variable '" ++ w.token.lexeme ++ "' is never used."
  | .unreachableCode => "Unreachable code after 'return'."

end ScopeScript
