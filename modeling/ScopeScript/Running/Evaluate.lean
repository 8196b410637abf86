import ScopeScript.Running.Machine
import ScopeScript.Running.Operator

namespace ScopeScript

open Running

def Running.ofExcept : Except RuntimeFault α → Running α
  | .ok result => pure result
  | .error f => throw (.fault f)

-- A method with its receiver: a new function whose closure binds the receiver and nothing else.
def Method.attach (m : Method) (receiver : Instance) : Running Function :=
  withStore fun s =>
    let (closure, s) := s.openWithin m.closure [(receiverName, .instance receiver)]
    let (identity, s) := s.identity
    (⟨identity, m.routine, closure, m.routine.isInitializer⟩, s)

-- Fields come before methods.
def Instance.get (i : Instance) (name : Token) : Running Value := do
  match (← store).field? i name.lexeme with
  | some value => return value
  | none =>
    match i.madeBy.methods.get? name.lexeme with
    | some m => return .callee (.function (← m.attach i))
    | none => fail .undefinedProperty name

-- The receiver of a bound initializer.
def Function.receiver (f : Function) : Running Value := do
  return ((← store).own? f.closure receiverName).getD .nil

def newFunction (routine : Routine) : Running Value := do
  let closure ← currentScope
  let identity ← withStore Store.identity
  return .callee (.function ⟨identity, routine, closure, false⟩)

def newLambda (routine : Routine) : Running Value := do
  let closure ← currentScope
  let identity ← withStore Store.identity
  return .callee (.lambda ⟨identity, routine, closure⟩)

-- Of two methods of one name the later one stays.
def newClass (name : String) (methods : List Routine) : Running Value := do
  let closure ← currentScope
  let identity ← withStore Store.identity
  let table := methods.foldl (fun table r => Names.put r.name (Method.mk r closure) table) []
  return .callee (.classes ⟨identity, name, table⟩)

-- Parameters meet arguments in order; where one list is longer, its rest is left out.
def parameterBindings (parameters : List Token) (arguments : List Value) : Names Value :=
  (parameters.zip arguments).foldl (fun names pair => Names.put pair.1.lexeme pair.2 names) []

def enterBlock : Running ScopeId := do
  let around ← currentScope
  withStore fun s => s.openWithin around []

def enterBody (routine : Routine) (closure : ScopeId) (arguments : List Value) : Running ScopeId :=
  withStore fun s => s.openWithin closure (parameterBindings routine.parameters arguments)

-- A body that does not return gives nil.
def Ending.result : Ending → Value
  | .giveBack value => value
  | _ => .nil

-- What a call may run: a callee that takes as many arguments as there are.
def checkedCall (close : Token) (callee : Value) (arguments : List Value) : Running Callee :=
  match callee.callee? with
  | none => fail .notCallable close
  | some c =>
    if arguments.length = c.arity then return c
    else fail (.wrongArity c.arity arguments.length) close

-- Fuel bounds how deep evaluations nest and how often a loop turns.
mutual

def Expr.evaluate : Nat → Expr → Running Value
  | 0, _ => outOfFuel
  | _ + 1, .literal value => return .ofLiteral value
  | fuel + 1, .grouping inner => inner.evaluate fuel
  | fuel + 1, .unary operator operand => do
    let value ← operand.evaluate fuel
    ofExcept (unaryResult operator value)
  | fuel + 1, .binary left operator right => do
    let a ← left.evaluate fuel
    let b ← right.evaluate fuel
    ofExcept (binaryResult operator a b)
  | fuel + 1, .logical left operator right => do
    let a ← left.evaluate fuel
    if decides operator a then return a else right.evaluate fuel
  | _ + 1, .variable id name => read id name
  | fuel + 1, .assign id name value => do
    let v ← value.evaluate fuel
    write id name v
    return v
  | fuel + 1, .call callee close arguments => do
    let f ← callee.evaluate fuel
    let values ← Expr.evaluateAll fuel arguments
    let c ← checkedCall close f values
    c.call fuel values
  | _ + 1, .lambda routine => newLambda routine
  | fuel + 1, .get object name => do
    match ← object.evaluate fuel with
    | .instance i => i.get name
    | _ => fail .noProperties name
  | fuel + 1, .set object name value => do
    match ← object.evaluate fuel with
    | .instance i =>
      let v ← value.evaluate fuel
      withStore fun s => ((), s.setField i name.lexeme v)
      return v
    | _ => fail .noFields name
  | _ + 1, .this id keyword => read id keyword

def Expr.evaluateAll : Nat → List Expr → Running (List Value)
  | 0, _ => outOfFuel
  | _ + 1, [] => return []
  | fuel + 1, e :: rest => do
    let v ← e.evaluate fuel
    return v :: (← Expr.evaluateAll fuel rest)

-- Runs a callee on arguments as they are. An initializer always gives its receiver.
def Callee.call : Nat → Callee → List Value → Running Value
  | 0, _, _ => outOfFuel
  | _ + 1, .clock, _ => seconds
  | fuel + 1, .function f, arguments => do
    let flow ← f.routine.run fuel f.closure arguments
    if f.initializer then f.receiver else return flow.result
  | fuel + 1, .lambda l, arguments => do
    let flow ← l.routine.run fuel l.closure arguments
    return flow.result
  | fuel + 1, .classes c, arguments => do
    let i ← withStore fun s => s.newInstance c
    match c.initializer? with
    | none => return .instance i
    | some m =>
      let initializer ← m.attach i
      let _ ← Callee.call fuel (.function initializer) arguments
      return .instance i

-- A body runs in a new scope inside the closure.
def Routine.run : Nat → Routine → ScopeId → List Value → Running Ending
  | 0, _, _, _ => outOfFuel
  | fuel + 1, routine, closure, arguments => do
    let scope ← enterBody routine closure arguments
    within scope (Stmt.executeAll fuel routine.body)

def Stmt.execute : Nat → Stmt → Running Ending
  | 0, _ => outOfFuel
  | fuel + 1, .expression value => do
    let _ ← value.evaluate fuel
    return .normal
  | fuel + 1, .print keyword value => do
    let v ← value.evaluate fuel
    print keyword (v.text ++ "\n")
    return .normal
  | _ + 1, .var name none => do
    bindHere name.lexeme .nil
    return .normal
  | fuel + 1, .var name (some initial) => do
    let v ← initial.evaluate fuel
    bindHere name.lexeme v
    return .normal
  | fuel + 1, .block body => do
    let scope ← enterBlock
    within scope (Stmt.executeAll fuel body)
  | fuel + 1, .branch condition yes no => do
    let v ← condition.evaluate fuel
    if v.holds then yes.execute fuel
    else
      match no with
      | some no => no.execute fuel
      | none => return .normal
  | fuel + 1, .loop condition body => Stmt.turn fuel condition body
  | _ + 1, .leave _ => return .leave
  | _ + 1, .function routine => do
    bindHere routine.name (← newFunction routine)
    return .normal
  | _ + 1, .giveBack _ none => return .giveBack .nil
  | fuel + 1, .giveBack _ (some value) => do
    let v ← value.evaluate fuel
    return .giveBack v
  -- The name stands for nil until the class is made.
  | _ + 1, .classes name methods => do
    bindHere name.lexeme .nil
    reassign name (← newClass name.lexeme methods)
    return .normal

-- Statements in order, up to the first that does not end normally.
def Stmt.executeAll : Nat → List Stmt → Running Ending
  | 0, _ => outOfFuel
  | _ + 1, [] => return .normal
  | fuel + 1, s :: rest => do
    match ← s.execute fuel with
    | .normal => Stmt.executeAll fuel rest
    | flow => return flow

-- The turns of a loop from here on.
def Stmt.turn : Nat → Expr → Stmt → Running Ending
  | 0, _, _ => outOfFuel
  | fuel + 1, condition, body => do
    let v ← condition.evaluate fuel
    if v.holds then
      match ← body.execute fuel with
      | .normal => Stmt.turn fuel condition body
      | .leave => return .normal
      | .giveBack value => return .giveBack value
    else return .normal

end

-- A whole program in the current scope. A stray break or return ends it early without a fault.
def runProgram (fuel : Nat) (program : List Stmt) : Running Unit := do
  let _ ← Stmt.executeAll fuel program
  flush

-- Statements in a new scope with nothing around it but the given bindings.
def executeDetached (fuel : Nat) (bindings : Names Value) (body : List Stmt) : Running Ending := do
  let scope ← withStore fun s => s.openScope [] bindings
  within scope (Stmt.executeAll fuel body)

end ScopeScript
