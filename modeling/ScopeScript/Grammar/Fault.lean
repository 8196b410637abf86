import ScopeScript.Lexis.Token

namespace ScopeScript

-- What a missing name would have named.
inductive Named where
  | classes | function | method | parameter | variable | property
  deriving DecidableEq, Repr

-- Where in the grammar a mark is missing.
inductive Slot where
  | classBodyStart | classBodyEnd
  | functionParameters | methodParameters | lambdaParameters | parametersEnd
  | functionBody | methodBody | lambdaBody
  | variableEnd
  | forStart | forCondition | forEnd
  | ifStart | whileStart | conditionEnd
  | printEnd | expressionEnd | returnEnd | breakEnd
  | blockEnd | argumentsEnd | groupEnd
  deriving DecidableEq, Repr

-- Lists that hold at most 255 entries.
inductive Limited where
  | parameters | arguments
  deriving DecidableEq, Repr

inductive SyntaxCause where
  | missingName (what : Named)
  | missingMark (mark : Mark) (slot : Slot)
  | missingExpression
  -- Something follows a source that should be one expression.
  | trailing
  -- The left side of an assignment is neither a variable nor a property.
  | badTarget
  | tooMany (what : Limited)
  | tooDeep
  deriving DecidableEq, Repr

-- The token at which reading failed, with the cause.
structure SyntaxFault where
  cause : SyntaxCause
  token : Token
  deriving DecidableEq

def Named.message : Named → String
  | classes => "Expected class name"
  | function => "Expected function name"
  | method => "Expected method name"
  | parameter => "Expected parameter name"
  | .variable => "Expected variable name"
  | property => "Expected property name after '.'"

def Slot.description : Slot → String
  | classBodyStart => "before class body"
  | classBodyEnd => "after class body"
  | functionParameters => "after function name"
  | methodParameters => "after method name"
  | lambdaParameters => "after 'fun'"
  | parametersEnd => "after parameters"
  | functionBody => "before function body"
  | methodBody => "before method body"
  | lambdaBody => "before lambda body"
  | variableEnd => "after variable declaration"
  | forStart => "after 'for'"
  | forCondition => "after loop condition"
  | forEnd => "after for clauses"
  | ifStart => "after 'if'"
  | whileStart => "after 'while'"
  | conditionEnd => "after condition"
  | printEnd => "after value"
  | expressionEnd => "after expression"
  | returnEnd => "after return value"
  | breakEnd => "after 'break'"
  | blockEnd => "after block"
  | argumentsEnd => "after arguments"
  | groupEnd => "after expression"

def SyntaxCause.message : SyntaxCause → String
  | missingName what => what.message
  | missingMark mark slot => "Expected '" ++ mark.spelling ++ "' " ++ slot.description
  | missingExpression => "Expected expression"
  | trailing => "Expected end of expression"
  | badTarget => "Invalid assignment target"
  | tooMany .parameters => "Cannot have more than 255 parameters"
  | tooMany .arguments => "Cannot have more than 255 arguments"
  | tooDeep => "Nested too deeply"

-- A fault at a token without text is one at the end.
def SyntaxFault.lexeme (f : SyntaxFault) : String :=
  if f.token.lexeme.isEmpty then "end" else f.token.lexeme

end ScopeScript
