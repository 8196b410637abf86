import ScopeScript.Grammar.Tree
import ScopeScript.Lexis.Record

namespace ScopeScript

namespace Document

-- One node: its name over its contents.
def node (name : String) (contents : Document) : Document := .object [(name, contents)]

end Document

def Literal.document : Literal → Document
  | number x => .node "Number" (.number x)
  | string s => .node "Str" (.text s)
  | true => .text "True"
  | false => .text "False"
  | nil => .text "Nil"

mutual

def Expr.document : Expr → Document
  | .literal value => .node "Literal" value.document
  | .grouping inner => .node "Grouping" inner.document
  | .unary operator operand =>
    .node "Unary" (.object [("operator", operator.document), ("right", operand.document)])
  | .binary left operator right =>
    .node "Binary" (.object [
      ("left", left.document), ("operator", operator.document), ("right", right.document)])
  | .logical left operator right =>
    .node "Logical" (.object [
      ("left", left.document), ("operator", operator.document), ("right", right.document)])
  | .variable id name => .node "Variable" (.object [("id", .count id), ("name", name.document)])
  | .assign id name value =>
    .node "Assign" (.object [
      ("id", .count id), ("name", name.document), ("value", value.document)])
  | .call callee close arguments =>
    .node "Call" (.object [
      ("callee", callee.document), ("paren", close.document),
      ("arguments", .list (Expr.documents arguments))])
  | .lambda routine => .node "Lambda" (routine.document "keyword")
  | .get object name =>
    .node "Get" (.object [("object", object.document), ("name", name.document)])
  | .set object name value =>
    .node "Set" (.object [
      ("object", object.document), ("name", name.document), ("value", value.document)])
  | .this id keyword =>
    .node "This" (.object [("id", .count id), ("keyword", keyword.document)])

def Expr.documents : List Expr → List Document
  | [] => []
  | e :: rest => e.document :: Expr.documents rest

def Stmt.document : Stmt → Document
  | .expression value => .node "Expression" value.document
  | .print keyword value =>
    .node "Print" (.object [("keyword", keyword.document), ("value", value.document)])
  | .var name none => .node "Var" (.object [("name", name.document), ("initializer", .absent)])
  | .var name (some initial) =>
    .node "Var" (.object [("name", name.document), ("initializer", initial.document)])
  | .block body => .node "Block" (.list (Stmt.documents body))
  | .branch condition yes none =>
    .node "If" (.object [
      ("condition", condition.document), ("then_branch", yes.document),
      ("else_branch", .absent)])
  | .branch condition yes (some no) =>
    .node "If" (.object [
      ("condition", condition.document), ("then_branch", yes.document),
      ("else_branch", no.document)])
  | .loop condition body =>
    .node "While" (.object [("condition", condition.document), ("body", body.document)])
  | .leave keyword => .node "Break" (.object [("keyword", keyword.document)])
  | .function routine => .node "Function" (routine.document "name")
  | .giveBack keyword none =>
    .node "Return" (.object [("keyword", keyword.document), ("value", .absent)])
  | .giveBack keyword (some value) =>
    .node "Return" (.object [("keyword", keyword.document), ("value", value.document)])
  | .classes name methods =>
    .node "Class" (.object [
      ("name", name.document), ("methods", .list (Routine.documents methods))])

def Stmt.documents : List Stmt → List Document
  | [] => []
  | s :: rest => s.document :: Stmt.documents rest

-- The head stands under the field that fits the use of the routine.
def Routine.document (headField : String) : Routine → Document
  | .mk head parameters body =>
    .object [
      (headField, head.document), ("params", .list (parameters.map Token.document)),
      ("body", .list (Stmt.documents body))]

def Routine.documents : List Routine → List Document
  | [] => []
  | r :: rest => r.document "name" :: Routine.documents rest

end

end ScopeScript
