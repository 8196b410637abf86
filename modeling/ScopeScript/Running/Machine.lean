import ScopeScript.Running.Store
import ScopeScript.Running.Fault
import ScopeScript.Scoping.Depths

namespace ScopeScript

-- The state of a run. The globals are an ordinary scope with nothing around it.
structure Machine where
  store : Store
  globals : ScopeId
  -- The current scope.
  scope : ScopeId
  -- Depths of local references, of every program resolved so far.
  depths : Depths
  sink : Sink
  -- The built-in clock, in milliseconds.
  clock : Nat

-- A fault of the program, or fuel that ran out before the end.
inductive Halt where
  | fault (f : RuntimeFault)
  | outOfFuel

-- A run succeeds or halts; the machine it reached is kept either way.
abbrev Running := EStateM Halt Machine

def Machine.start (sink : Sink) (clock : Nat) : Machine :=
  let (globals, store) := Store.empty.openScope [] [("clock", .callee .clock)]
  ⟨store, globals, globals, {}, sink, clock⟩

-- The scope that holds the name of a reference: at its depth if it is local, otherwise global.
def Machine.target? (m : Machine) (id : RefId) (name : String) : Option ScopeId :=
  match m.depths[id]? with
  | some depth => m.store.binderAt? m.scope depth name
  | none => m.store.binder? m.globals name

namespace Running

def fail (cause : RuntimeCause) (token : Token) : Running α := throw (.fault ⟨cause, token⟩)

def outOfFuel : Running α := throw .outOfFuel

def currentScope : Running ScopeId := fun m => .ok m.scope m

def store : Running Store := fun m => .ok m.store m

def setStore (store : Store) : Running Unit := fun m => .ok () { m with store := store }

-- One operation on the store that gives a result.
def withStore (step : Store → α × Store) : Running α := fun m =>
  let (result, store) := step m.store
  .ok result { m with store := store }

-- Runs inside another scope and comes back to the current one, whatever happens.
def within (scope : ScopeId) (inner : Running α) : Running α := fun m =>
  let around := m.scope
  match inner { m with scope := scope } with
  | .ok result m => .ok result { m with scope := around }
  | .error halt m => .error halt { m with scope := around }

-- Binds a name in the current scope.
def bindHere (name : String) (value : Value) : Running Unit := fun m =>
  .ok () { m with store := m.store.put m.scope name value }

def read (id : RefId) (name : Token) : Running Value := fun m =>
  match (m.target? id name.lexeme).bind fun scope => m.store.own? scope name.lexeme with
  | some value => .ok value m
  | none => .error (.fault ⟨.undefinedVariable, name⟩) m

-- The scope is found before anything changes, so a failing write leaves the machine as it was.
def rebind (target : Option ScopeId) (name : Token) (value : Value) : Running Unit := fun m =>
  match target with
  | some scope => .ok () { m with store := m.store.put scope name.lexeme value }
  | none => .error (.fault ⟨.undefinedVariable, name⟩) m

def write (id : RefId) (name : Token) (value : Value) : Running Unit := fun m =>
  rebind (m.target? id name.lexeme) name value m

-- Changes a binding on the chain of the current scope.
def reassign (name : Token) (value : Value) : Running Unit := fun m =>
  rebind (m.store.binder? m.scope name.lexeme) name value m

def print (keyword : Token) (text : String) : Running Unit := fun m =>
  let (failure, sink) := m.sink.write text
  let m := { m with sink := sink }
  match failure with
  | none => .ok () m
  | some failure => .error (.fault ⟨.output failure, keyword⟩) m

-- Seconds on the clock. Every look at it takes a millisecond.
def seconds : Running Value := fun m =>
  .ok (.number (Float.ofScientific m.clock true 3)) { m with clock := m.clock + 1 }

-- The end of a program has no token of its own.
def flush : Running Unit := fun m =>
  match m.sink.flush with
  | none => .ok () m
  | some failure => .error (.fault ⟨.output failure, ⟨.stop, "", ⟨0, 0⟩⟩⟩) m

end Running

end ScopeScript
