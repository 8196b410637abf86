import ScopeScript.Lexis.Token
import ScopeScript.Document

namespace ScopeScript

-- A kind that carries something is an object, any other its label alone.
def TokenKind.document (kind : TokenKind) : Document :=
  match kind with
  | .string s => .object [(kind.label, .text s)]
  | .number x => .object [(kind.label, .number x)]
  | _ => .text kind.label

def Token.document (t : Token) : Document :=
  .object [
    ("token_type", t.kind.document),
    ("lexeme", .text t.lexeme),
    ("line", .count t.position.line),
    ("column", .count t.position.column)]

end ScopeScript
