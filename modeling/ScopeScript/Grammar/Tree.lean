import ScopeScript.Lexis.Token

namespace ScopeScript

-- Names one reference in a tree; two references of equal spelling have different ids.
abbrev RefId := Nat

inductive Literal where
  | number (value : Float)
  | string (text : String)
  | true
  | false
  | nil
  deriving DecidableEq

mutual

inductive Expr where
  | literal (value : Literal)
  | grouping (inner : Expr)
  | unary (operator : Token) (operand : Expr)
  | binary (left : Expr) (operator : Token) (right : Expr)
  -- Evaluates its right side only when the left side does not decide.
  | logical (left : Expr) (operator : Token) (right : Expr)
  | variable (id : RefId) (name : Token)
  | assign (id : RefId) (name : Token) (value : Expr)
  -- The closing parenthesis is where a failing call is reported.
  | call (callee : Expr) (close : Token) (arguments : List Expr)
  | lambda (routine : Routine)
  | get (object : Expr) (name : Token)
  | set (object : Expr) (name : Token) (value : Expr)
  | this (id : RefId) (keyword : Token)

inductive Stmt where
  | expression (value : Expr)
  | print (keyword : Token) (value : Expr)
  | var (name : Token) (initial : Option Expr)
  | block (body : List Stmt)
  | branch (condition : Expr) (yes : Stmt) (no : Option Stmt)
  | loop (condition : Expr) (body : Stmt)
  | leave (keyword : Token)
  | function (routine : Routine)
  | giveBack (keyword : Token) (value : Option Expr)
  | classes (name : Token) (methods : List Routine)

-- Parameters and body of a function, a method or a lambda. The head is the name,
-- for a lambda the keyword.
inductive Routine where
  | mk (head : Token) (parameters : List Token) (body : List Stmt)

end

namespace Routine

def head : Routine → Token
  | mk head _ _ => head

def parameters : Routine → List Token
  | mk _ parameters _ => parameters

def body : Routine → List Stmt
  | mk _ _ body => body

def name (r : Routine) : String := r.head.lexeme

def arity (r : Routine) : Nat := r.parameters.length

end Routine

-- The receiver's name inside methods, and the name of the method that sets up an instance.
def receiverName : String := "this"

def initializerName : String := "init"

def Routine.isInitializer (r : Routine) : Bool := r.name == initializerName

end ScopeScript
