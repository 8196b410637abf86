import ScopeScript.Names
import ScopeScript.Text.Quoted
import ScopeScript.Grammar.Tree

namespace ScopeScript

-- Names one scope of a store.
abbrev ScopeId := Nat

-- Everything with an identity gets a number of its own when it is made.
abbrev Identity := Nat

structure Function where
  identity : Identity
  routine : Routine
  -- The scope in which the function was declared, for a method the one that holds its receiver.
  closure : ScopeId
  initializer : Bool

structure Lambda where
  identity : Identity
  routine : Routine
  closure : ScopeId

-- A method of a class before it has a receiver.
structure Method where
  routine : Routine
  closure : ScopeId

structure Class where
  identity : Identity
  name : String
  methods : Names Method

-- The fields are kept in the store under the identity.
structure Instance where
  identity : Identity
  madeBy : Class

-- What a call can run. The only built-in one tells the time.
inductive Callee where
  | clock
  | function (f : Function)
  | lambda (l : Lambda)
  | classes (c : Class)

inductive Value where
  | nil
  | bool (b : Bool)
  | number (x : Float)
  | string (s : String)
  | callee (c : Callee)
  | instance (i : Instance)

-- How a statement ended. A break or a return unwinds to the loop or call around it.
inductive Ending where
  | normal
  | leave
  | giveBack (value : Value)

def Class.initializer? (c : Class) : Option Method := c.methods.get? initializerName

def Callee.arity : Callee → Nat
  | clock => 0
  | function f => f.routine.arity
  | lambda l => l.routine.arity
  | classes c => c.initializer?.elim 0 (·.routine.arity)

def Callee.text : Callee → String
  | clock => "<native fn>"
  | function f => "<fn " ++ f.routine.name ++ ">"
  | lambda _ => "<lambda>"
  | classes c => c.name

-- Callables are the same only with the same identity.
def Callee.same : Callee → Callee → Bool
  | clock, clock => true
  | function f, function g => f.identity == g.identity
  | lambda l, lambda m => l.identity == m.identity
  | classes c, classes d => c.identity == d.identity
  | _, _ => false

namespace Value

def ofLiteral : Literal → Value
  | .number x => number x
  | .string s => string s
  | .true => bool true
  | .false => bool false
  | .nil => nil

-- Only nil and false do not hold.
def holds : Value → Bool
  | nil => false
  | bool b => b
  | _ => true

-- Plain data compare by content, everything else by identity. A number that is no number
-- differs from itself.
def same : Value → Value → Bool
  | nil, nil => true
  | bool a, bool b => a == b
  | number a, number b => a == b
  | string a, string b => a == b
  | callee a, callee b => a.same b
  | .instance a, .instance b => a.identity == b.identity
  | _, _ => false

def callee? : Value → Option Callee
  | callee c => some c
  | _ => none

-- The text that printing writes.
def text : Value → String
  | nil => "nil"
  | bool true => "true"
  | bool false => "false"
  | number x => Decimal.plain x
  | string s => s
  | callee c => c.text
  | .instance i => i.madeBy.name ++ " instance"

-- The text with the kind of plain data around it.
def inspect : Value → String
  | string s => "String(" ++ Text.quoted s ++ ")"
  | number x => "Number(" ++ Decimal.plain x ++ ")"
  | bool true => "Bool(true)"
  | bool false => "Bool(false)"
  | other => other.text

end Value

end ScopeScript
