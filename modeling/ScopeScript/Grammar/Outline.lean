import ScopeScript.Grammar.Tree

namespace ScopeScript

def Literal.outline : Literal → String
  | number x => Decimal.withPoint x
  | string s => s
  | true => "true"
  | false => "false"
  | nil => "nil"

-- Words between parentheses, apart by single spaces.
def parenthesized (words : List String) : String :=
  "(" ++ String.intercalate " " words ++ ")"

mutual

-- Every node in parentheses, operator first.
def Expr.outline : Expr → String
  | .literal value => value.outline
  | .grouping inner => parenthesized ["group", inner.outline]
  | .unary operator operand => parenthesized [operator.lexeme, operand.outline]
  | .binary left operator right => parenthesized [operator.lexeme, left.outline, right.outline]
  | .logical left operator right => parenthesized [operator.lexeme, left.outline, right.outline]
  | .variable _ name => name.lexeme
  | .assign _ name value => parenthesized ["=", name.lexeme, value.outline]
  | .call callee _ arguments =>
    parenthesized ("call" :: callee.outline :: Expr.outlines arguments)
  | .lambda routine => parenthesized ("fun" :: routine.outlines)
  | .get object name => parenthesized [".", object.outline, name.lexeme]
  | .set object name value =>
    parenthesized ["=", parenthesized [".", object.outline, name.lexeme], value.outline]
  | .this _ _ => receiverName

def Expr.outlines : List Expr → List String
  | [] => []
  | e :: rest => e.outline :: Expr.outlines rest

def Stmt.outline : Stmt → String
  | .expression value => parenthesized [";", value.outline]
  | .print _ value => parenthesized ["print", value.outline]
  | .var name none => parenthesized ["var", name.lexeme]
  | .var name (some initial) => parenthesized ["var", name.lexeme, initial.outline]
  | .block body => parenthesized ("block" :: Stmt.outlines body)
  | .branch condition yes none => parenthesized ["if", condition.outline, yes.outline]
  | .branch condition yes (some no) =>
    parenthesized ["if", condition.outline, yes.outline, no.outline]
  | .loop condition body => parenthesized ["while", condition.outline, body.outline]
  | .leave _ => parenthesized ["break"]
  | .function routine => parenthesized ("fun" :: routine.name :: routine.outlines)
  | .giveBack _ none => parenthesized ["return"]
  | .giveBack _ (some value) => parenthesized ["return", value.outline]
  | .classes name methods =>
    parenthesized ("class" :: name.lexeme :: Routine.methodOutlines methods)

def Stmt.outlines : List Stmt → List String
  | [] => []
  | s :: rest => s.outline :: Stmt.outlines rest

-- The parameter list, then each statement of the body.
def Routine.outlines : Routine → List String
  | .mk _ parameters body =>
    parenthesized (parameters.map Token.lexeme) :: Stmt.outlines body

def Routine.methodOutlines : List Routine → List String
  | [] => []
  | r :: rest =>
    parenthesized ("method" :: r.name :: r.outlines) :: Routine.methodOutlines rest

end

-- One top-level statement a line.
def outlineProgram (program : List Stmt) : String :=
  String.intercalate "\n" (Stmt.outlines program)

end ScopeScript
