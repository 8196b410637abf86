import ScopeScript.Running.Value

namespace ScopeScript

-- A scope with its own bindings. The scopes around it stand innermost first.
structure Scope where
  bindings : Names Value
  outer : List ScopeId

-- Scopes and the fields of instances. Neither is ever given up.
structure Store where
  scopes : Array Scope
  fields : Array (Names Value)
  nextIdentity : Identity

namespace Store

def empty : Store := ⟨#[], #[], 0⟩

-- A scope and all scopes around it.
def chain (s : Store) (scope : ScopeId) : List ScopeId :=
  match s.scopes[scope]? with
  | some found => scope :: found.outer
  | none => []

def openScope (s : Store) (outer : List ScopeId) (bindings : Names Value) : ScopeId × Store :=
  (s.scopes.size, { s with scopes := s.scopes.push ⟨bindings, outer⟩ })

-- A new scope right inside another one.
def openWithin (s : Store) (scope : ScopeId) (bindings : Names Value) : ScopeId × Store :=
  s.openScope (s.chain scope) bindings

-- A scope's own binding.
def own? (s : Store) (scope : ScopeId) (name : String) : Option Value :=
  s.scopes[scope]?.bind fun found => found.bindings.get? name

def binds (s : Store) (scope : ScopeId) (name : String) : Bool := (s.own? scope name).isSome

-- Binds a name in one scope, over an earlier binding there.
def put (s : Store) (scope : ScopeId) (name : String) (value : Value) : Store :=
  { s with scopes := s.scopes.modify scope fun found =>
      { found with bindings := found.bindings.put name value } }

-- The innermost scope on the chain that binds a name.
def binder? (s : Store) (scope : ScopeId) (name : String) : Option ScopeId :=
  (s.chain scope).find? fun id => s.binds id name

def find? (s : Store) (scope : ScopeId) (name : String) : Option Value :=
  (s.binder? scope name).bind fun id => s.own? id name

-- Changes the innermost binding; never makes one.
def change? (s : Store) (scope : ScopeId) (name : String) (value : Value) : Option Store :=
  (s.binder? scope name).map fun id => s.put id name value

-- The scope so many links out that binds the name itself; no other scope is looked at.
def binderAt? (s : Store) (scope : ScopeId) (depth : Nat) (name : String) : Option ScopeId :=
  (s.chain scope)[depth]?.filter fun id => s.binds id name

def findAt? (s : Store) (scope : ScopeId) (depth : Nat) (name : String) : Option Value :=
  (s.binderAt? scope depth name).bind fun id => s.own? id name

def changeAt? (s : Store) (scope : ScopeId) (depth : Nat) (name : String) (value : Value) :
    Option Store :=
  (s.binderAt? scope depth name).map fun id => s.put id name value

def identity (s : Store) : Identity × Store :=
  (s.nextIdentity, { s with nextIdentity := s.nextIdentity + 1 })

-- An instance's identity is its place among the fields.
def newInstance (s : Store) (madeBy : Class) : Instance × Store :=
  (⟨s.fields.size, madeBy⟩, { s with fields := s.fields.push [] })

def field? (s : Store) (i : Instance) (name : String) : Option Value :=
  s.fields[i.identity]?.bind fun names => names.get? name

def setField (s : Store) (i : Instance) (name : String) (value : Value) : Store :=
  { s with fields := s.fields.modify i.identity fun names => names.put name value }

end Store

end ScopeScript
