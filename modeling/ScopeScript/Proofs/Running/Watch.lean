import ScopeScript.Running.Evaluate
import ScopeScript.Proofs.Scoping.Setting

namespace ScopeScript

-- The scopes that running code was made in, innermost first. Around them are only the globals.
abbrev Display := List ScopeId

-- Where something with an identity was made. A class has the methods it was made with.
structure Home where
  display : Display
  methods : List Routine

structure Standpoint where
  display : Display
  -- The function or lambda whose body runs.
  running : Option Callee
  -- The statements around within that body.
  around : List Stmt

def Standpoint.top : Standpoint := ⟨[], none, []⟩

def Standpoint.nest (here : Standpoint) (s : Stmt) : Standpoint :=
  { here with around := s :: here.around }

def Standpoint.enter (here : Standpoint) (scope : ScopeId) : Standpoint :=
  { here with display := scope :: here.display }

-- A machine with what a watcher knows of it. The homes stand in the order of identities.
structure Scene where
  machine : Machine
  -- What each scope was opened for, in the order of scopes; nothing for the globals.
  labels : List (Option Region)
  homes : List Home
  -- Local variables whose initializer began and has not given a value.
  unfinished : List (ScopeId × String)
  -- Every method that was given a receiver, with it.
  attached : List (Function × Instance)

inductive Event where
  | refers (i : RefId) (name : Token)
  | ends (s : Stmt) (ending : Ending)
  | returns (callee : Callee) (ending : Ending)
  -- A call that was made on a store gave a value.
  | answers (callee : Callee) (before : Store) (value : Value)

structure Moment where
  standpoint : Standpoint
  scene : Scene
  event : Event

structure Record where
  scene : Scene
  moments : List Moment

def Record.after : EStateM.Result Halt Record α → Record
  | .ok _ r => r
  | .error _ r => r

-- A run that is watched. It does what the run itself does and keeps a record.
abbrev Watching := ReaderT Standpoint (EStateM Halt Record)

namespace Scene

def begin (a : Scene) (name : String) : Scene :=
  { a with unfinished := (a.machine.scope, name) :: a.unfinished }

def complete (a : Scene) (name : String) : Scene :=
  { a with unfinished := a.unfinished.filter (· != (a.machine.scope, name)) }

def label (a : Scene) (region : Region) : Scene := { a with labels := a.labels ++ [some region] }

def settle (a : Scene) (home : Home) : Scene := { a with homes := a.homes ++ [home] }

-- A receiver stands in a scope of its own around the methods of its class.
def attach (a : Scene) (f : Function) (receiver : Instance) (home : Home) : Scene :=
  { a with
    labels := a.labels ++ [some (.receiver home.methods)]
    homes := a.homes ++ [⟨f.closure :: home.display, []⟩]
    attached := a.attached ++ [(f, receiver)] }

def move (a : Scene) (scope : ScopeId) : Scene :=
  { a with machine := { a.machine with scope := scope } }

end Scene

namespace Watching

def lift (action : Running α) : Watching α := fun _ r =>
  match action r.scene.machine with
  | .ok result machine => .ok result { r with scene := { r.scene with machine := machine } }
  | .error halt machine => .error halt { r with scene := { r.scene with machine := machine } }

def change (step : Scene → Scene) : Watching Unit := fun _ r =>
  .ok () { r with scene := step r.scene }

def mark (event : Event) : Watching Unit := fun here r =>
  .ok () { r with moments := r.moments ++ [⟨here, r.scene, event⟩] }

def nested (s : Stmt) (inner : Watching α) : Watching α := fun here r => inner (here.nest s) r

def inside (there : Standpoint) (scope : ScopeId) (inner : Watching α) : Watching α := fun _ r =>
  let around := r.scene.machine.scope
  match inner there { r with scene := r.scene.move scope } with
  | .ok result r => .ok result { r with scene := r.scene.move around }
  | .error halt r => .error halt { r with scene := r.scene.move around }

def opening (enter : Running ScopeId) (region : Region) (there : ScopeId → Standpoint)
    (inner : Watching α) : Watching α := do
  let scope ← lift enter
  change (·.label region)
  inside (there scope) scope inner

def homeOf (identity : Identity) : Watching Home := fun _ r =>
  .ok (r.scene.homes[identity]?.getD ⟨[], []⟩) r

-- What is made here has its home here.
def making (make : Running α) (methods : List Routine) : Watching α := do
  let made ← lift make
  change (·.settle ⟨(← read).display, methods⟩)
  return made

-- A global needs no mark: nothing relies on its slot.
def beginning (name : String) : Watching Unit := do
  if (← read).display.isEmpty then return else change (·.begin name)

def ending (s : Stmt) (run : Watching Ending) : Watching Ending := do
  let flow ← run
  mark (.ends s flow)
  return flow

def returning (callee : Callee) (run : Watching Ending) : Watching Ending := do
  let flow ← run
  mark (.returns callee flow)
  return flow

def answering (callee : Callee) (run : Watching Value) : Watching Value := do
  let before ← lift Running.store
  let value ← run
  mark (.answers callee before value)
  return value

theorem beginning_global (r : Record) (name : String) {here : Standpoint} (outside : here.display = []) :
    beginning name here r = .ok () r := by
  show (if here.display.isEmpty then pure () else change _ : Watching Unit) here r = _
  rw [outside]
  rfl

theorem beginning_local (r : Record) (name : String) {here : Standpoint} (inside : here.display ≠ []) :
    beginning name here r = .ok () { r with scene := r.scene.begin name } := by
  show (if here.display.isEmpty then pure () else change _ : Watching Unit) here r = _
  rw [List.isEmpty_eq_false_iff.mpr inside]
  rfl

def binding (name : String) (value : Value) : Watching Unit := do
  lift (Running.bindHere name value)
  change (·.complete name)

def referring (i : RefId) (name : Token) (look : Running α) : Watching α := do
  mark (.refers i name)
  lift look

end Watching

open Watching

def Method.watchAttach (m : Method) (receiver : Instance) : Watching Function := do
  let f ← lift (m.attach receiver)
  let home ← homeOf receiver.madeBy.identity
  change (·.attach f receiver home)
  return f

def Instance.watchGet (i : Instance) (name : Token) : Watching Value := do
  match (← lift Running.store).field? i name.lexeme with
  | some value => return value
  | none =>
    match i.madeBy.methods.get? name.lexeme with
    | some m => return .callee (.function (← m.watchAttach i))
    | none => lift (Running.fail .undefinedProperty name)

mutual

def Expr.watch : Nat → Expr → Watching Value
  | 0, _ => lift Running.outOfFuel
  | _ + 1, .literal value => return .ofLiteral value
  | fuel + 1, .grouping inner => inner.watch fuel
  | fuel + 1, .unary operator operand => do
    let value ← operand.watch fuel
    lift (Running.ofExcept (unaryResult operator value))
  | fuel + 1, .binary left operator right => do
    let a ← left.watch fuel
    let b ← right.watch fuel
    lift (Running.ofExcept (binaryResult operator a b))
  | fuel + 1, .logical left operator right => do
    let a ← left.watch fuel
    if decides operator a then return a else right.watch fuel
  | _ + 1, .variable i name => referring i name (Running.read i name)
  | fuel + 1, .assign i name value => do
    let v ← value.watch fuel
    referring i name (Running.write i name v)
    return v
  | fuel + 1, .call callee close arguments => do
    let f ← callee.watch fuel
    let values ← Expr.watchAll fuel arguments
    let c ← lift (checkedCall close f values)
    c.watch fuel values
  | _ + 1, .lambda routine => making (newLambda routine) []
  | fuel + 1, .get object name => do
    match ← object.watch fuel with
    | .instance i => i.watchGet name
    | _ => lift (Running.fail .noProperties name)
  | fuel + 1, .set object name value => do
    match ← object.watch fuel with
    | .instance i =>
      let v ← value.watch fuel
      lift (Running.withStore fun s => ((), s.setField i name.lexeme v))
      return v
    | _ => lift (Running.fail .noFields name)
  | _ + 1, .this i keyword => referring i keyword (Running.read i keyword)

def Expr.watchAll : Nat → List Expr → Watching (List Value)
  | 0, _ => lift Running.outOfFuel
  | _ + 1, [] => return []
  | fuel + 1, e :: rest => do
    let v ← e.watch fuel
    return v :: (← Expr.watchAll fuel rest)

def Callee.watch : Nat → Callee → List Value → Watching Value
  | 0, _, _ => lift Running.outOfFuel
  | fuel + 1, callee, arguments => answering callee <| match callee with
    | .clock => lift Running.seconds
    | .function f => do
      let flow ← Routine.watch fuel (.function f) f.routine f.identity f.closure arguments
      if f.initializer then lift f.receiver else return flow.result
    | .lambda l => do
      let flow ← Routine.watch fuel (.lambda l) l.routine l.identity l.closure arguments
      return flow.result
    | .classes c => do
      let i ← lift (Running.withStore fun s => s.newInstance c)
      match c.initializer? with
      | none => return .instance i
      | some m =>
        let initializer ← m.watchAttach i
        let _ ← Callee.watch fuel (.function initializer) arguments
        return .instance i

-- The body of a callee runs around its home.
def Routine.watch : Nat → Callee → Routine → Identity → ScopeId → List Value → Watching Ending
  | 0, _, _, _, _, _ => lift Running.outOfFuel
  | fuel + 1, callee, routine, identity, closure, arguments => do
    let home ← homeOf identity
    returning callee <| opening (enterBody routine closure arguments) (.routine routine)
      (fun scope => ⟨scope :: home.display, some callee, []⟩)
      (Stmt.watchAll fuel routine.body)

def Stmt.watch : Nat → Stmt → Watching Ending
  | 0, _ => lift Running.outOfFuel
  | fuel + 1, s => Watching.ending s <| match s with
    | .expression value => do
      let _ ← value.watch fuel
      return .normal
    | .print keyword value => do
      let v ← value.watch fuel
      lift (Running.print keyword (v.text ++ "\n"))
      return .normal
    | .var name none => do
      binding name.lexeme .nil
      return .normal
    | .var name (some initial) => do
      beginning name.lexeme
      let v ← initial.watch fuel
      binding name.lexeme v
      return .normal
    | .block body => do
      let here ← read
      opening enterBlock (.block body) (here.nest (.block body)).enter (Stmt.watchAll fuel body)
    | .branch condition yes no => do
      let v ← condition.watch fuel
      if v.holds then nested (.branch condition yes no) (yes.watch fuel)
      else
        match no with
        | some other => nested (.branch condition yes no) (other.watch fuel)
        | none => return .normal
    | .loop condition body =>
      nested (.loop condition body) (Stmt.watchTurn fuel condition body)
    | .leave _ => return .leave
    | .function routine => do
      let f ← making (newFunction routine) []
      binding routine.name f
      return .normal
    | .giveBack _ none => return .giveBack .nil
    | .giveBack _ (some value) => do
      let v ← value.watch fuel
      return .giveBack v
    | .classes name methods => do
      binding name.lexeme .nil
      let made ← making (newClass name.lexeme methods) methods
      lift (Running.reassign name made)
      return .normal

def Stmt.watchAll : Nat → List Stmt → Watching Ending
  | 0, _ => lift Running.outOfFuel
  | _ + 1, [] => return .normal
  | fuel + 1, s :: rest => do
    match ← s.watch fuel with
    | .normal => Stmt.watchAll fuel rest
    | flow => return flow

def Stmt.watchTurn : Nat → Expr → Stmt → Watching Ending
  | 0, _, _ => lift Running.outOfFuel
  | fuel + 1, condition, body => do
    let v ← condition.watch fuel
    if v.holds then
      match ← body.watch fuel with
      | .normal => Stmt.watchTurn fuel condition body
      | .leave => return .normal
      | .giveBack value => return .giveBack value
    else return .normal

end

end ScopeScript
