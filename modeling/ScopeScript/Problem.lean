import ScopeScript.Lexis.Scan
import ScopeScript.Grammar.Fault
import ScopeScript.Scoping.Finding
import ScopeScript.Running.Fault

namespace ScopeScript

-- Anything that keeps a source from running to its end.
inductive Problem where
  | lexical (f : LexicalFault)
  | syntactic (f : SyntaxFault)
  | static (f : StaticFault)
  | runtime (f : RuntimeFault)
  deriving DecidableEq

namespace Problem

def position : Problem → Position
  | lexical f => f.position
  | syntactic f => f.token.position
  | static f => f.token.position
  | runtime f => f.token.position

def message : Problem → String
  | lexical f => f.cause.message
  | syntactic f => f.cause.message
  | static f => f.cause.message
  | runtime f => f.message

-- The piece of source at fault; a lexical fault names none.
def lexeme? : Problem → Option String
  | lexical _ => none
  | syntactic f => some f.lexeme
  | static f => some f.token.lexeme
  | runtime f => some f.token.lexeme

def text (p : Problem) : String :=
  let intro := "[line " ++ decimal p.position.line ++ "] "
  match p with
  | lexical _ => intro ++ "Error: " ++ p.message
  | syntactic f => intro ++ "Error at '" ++ f.lexeme ++ "': " ++ p.message
  | static f => intro ++ "Error at '" ++ f.token.lexeme ++ "': " ++ p.message
  | runtime _ => intro ++ "Runtime error: " ++ p.message

-- The status with which a command ends on this problem.
def exitStatus : Problem → Nat
  | runtime _ => 70
  | _ => 65

end Problem

def Warning.text (w : Warning) : String :=
  "[line " ++ decimal w.token.position.line ++ "] Warning: " ++ w.message

end ScopeScript
