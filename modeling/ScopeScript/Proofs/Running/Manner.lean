import ScopeScript.Running.Evaluate

namespace ScopeScript

open Running

-- How an evaluator applies an operator to values, and how it enters a body with them.
structure Manner where
  unary : Token → Value → Running Value
  binary : Token → Value → Value → Running Value
  decides : Token → Value → Bool
  enter : Routine → ScopeId → List Value → Running ScopeId

def Manner.usual : Manner where
  unary operator value := ofExcept (unaryResult operator value)
  binary operator a b := ofExcept (binaryResult operator a b)
  decides := ScopeScript.decides
  enter := enterBody

-- The evaluator with another manner in the four places where it has one.
mutual

def Expr.evaluateBy (M : Manner) : Nat → Expr → Running Value
  | 0, _ => outOfFuel
  | _ + 1, .literal value => return .ofLiteral value
  | fuel + 1, .grouping inner => inner.evaluateBy M fuel
  | fuel + 1, .unary operator operand => do
    let value ← operand.evaluateBy M fuel
    M.unary operator value
  | fuel + 1, .binary left operator right => do
    let a ← left.evaluateBy M fuel
    let b ← right.evaluateBy M fuel
    M.binary operator a b
  | fuel + 1, .logical left operator right => do
    let a ← left.evaluateBy M fuel
    if M.decides operator a then return a else right.evaluateBy M fuel
  | _ + 1, .variable i name => read i name
  | fuel + 1, .assign i name value => do
    let v ← value.evaluateBy M fuel
    write i name v
    return v
  | fuel + 1, .call callee close arguments => do
    let f ← callee.evaluateBy M fuel
    let values ← Expr.evaluateAllBy M fuel arguments
    let c ← checkedCall close f values
    c.callBy M fuel values
  | _ + 1, .lambda routine => newLambda routine
  | fuel + 1, .get object name => do
    match ← object.evaluateBy M fuel with
    | .instance i => i.get name
    | _ => fail .noProperties name
  | fuel + 1, .set object name value => do
    match ← object.evaluateBy M fuel with
    | .instance i =>
      let v ← value.evaluateBy M fuel
      withStore fun s => ((), s.setField i name.lexeme v)
      return v
    | _ => fail .noFields name
  | _ + 1, .this i keyword => read i keyword

def Expr.evaluateAllBy (M : Manner) : Nat → List Expr → Running (List Value)
  | 0, _ => outOfFuel
  | _ + 1, [] => return []
  | fuel + 1, e :: rest => do
    let v ← e.evaluateBy M fuel
    return v :: (← Expr.evaluateAllBy M fuel rest)

def Callee.callBy (M : Manner) : Nat → Callee → List Value → Running Value
  | 0, _, _ => outOfFuel
  | _ + 1, .clock, _ => seconds
  | fuel + 1, .function f, arguments => do
    let flow ← f.routine.runBy M fuel f.closure arguments
    if f.initializer then f.receiver else return flow.result
  | fuel + 1, .lambda l, arguments => do
    let flow ← l.routine.runBy M fuel l.closure arguments
    return flow.result
  | fuel + 1, .classes c, arguments => do
    let i ← withStore fun s => s.newInstance c
    match c.initializer? with
    | none => return .instance i
    | some m =>
      let initializer ← m.attach i
      let _ ← Callee.callBy M fuel (.function initializer) arguments
      return .instance i

def Routine.runBy (M : Manner) : Nat → Routine → ScopeId → List Value → Running Ending
  | 0, _, _, _ => outOfFuel
  | fuel + 1, routine, closure, arguments => do
    let scope ← M.enter routine closure arguments
    within scope (Stmt.executeAllBy M fuel routine.body)

def Stmt.executeBy (M : Manner) : Nat → Stmt → Running Ending
  | 0, _ => outOfFuel
  | fuel + 1, .expression value => do
    let _ ← value.evaluateBy M fuel
    return .normal
  | fuel + 1, .print keyword value => do
    let v ← value.evaluateBy M fuel
    print keyword (v.text ++ "\n")
    return .normal
  | _ + 1, .var name none => do
    bindHere name.lexeme .nil
    return .normal
  | fuel + 1, .var name (some initial) => do
    let v ← initial.evaluateBy M fuel
    bindHere name.lexeme v
    return .normal
  | fuel + 1, .block body => do
    let scope ← enterBlock
    within scope (Stmt.executeAllBy M fuel body)
  | fuel + 1, .branch condition yes no => do
    let v ← condition.evaluateBy M fuel
    if v.holds then yes.executeBy M fuel
    else
      match no with
      | some no => no.executeBy M fuel
      | none => return .normal
  | fuel + 1, .loop condition body => Stmt.turnBy M fuel condition body
  | _ + 1, .leave _ => return .leave
  | _ + 1, .function routine => do
    bindHere routine.name (← newFunction routine)
    return .normal
  | _ + 1, .giveBack _ none => return .giveBack .nil
  | fuel + 1, .giveBack _ (some value) => do
    let v ← value.evaluateBy M fuel
    return .giveBack v
  | _ + 1, .classes name methods => do
    bindHere name.lexeme .nil
    reassign name (← newClass name.lexeme methods)
    return .normal

def Stmt.executeAllBy (M : Manner) : Nat → List Stmt → Running Ending
  | 0, _ => outOfFuel
  | _ + 1, [] => return .normal
  | fuel + 1, s :: rest => do
    match ← s.executeBy M fuel with
    | .normal => Stmt.executeAllBy M fuel rest
    | flow => return flow

def Stmt.turnBy (M : Manner) : Nat → Expr → Stmt → Running Ending
  | 0, _, _ => outOfFuel
  | fuel + 1, condition, body => do
    let v ← condition.evaluateBy M fuel
    if v.holds then
      match ← body.executeBy M fuel with
      | .normal => Stmt.turnBy M fuel condition body
      | .leave => return .normal
      | .giveBack value => return .giveBack value
    else return .normal

end

-- With the usual manner it is the evaluator itself.
structure Usual (fuel : Nat) : Prop where
  expr : ∀ e : Expr, e.evaluateBy .usual fuel = e.evaluate fuel
  exprs : ∀ es, Expr.evaluateAllBy .usual fuel es = Expr.evaluateAll fuel es
  callee : ∀ (c : Callee) values, c.callBy .usual fuel values = c.call fuel values
  routine : ∀ (r : Routine) closure values, r.runBy .usual fuel closure values = r.run fuel closure values
  stmt : ∀ s : Stmt, s.executeBy .usual fuel = s.execute fuel
  stmts : ∀ ss, Stmt.executeAllBy .usual fuel ss = Stmt.executeAll fuel ss
  turn : ∀ condition body, Stmt.turnBy .usual fuel condition body = Stmt.turn fuel condition body

theorem usually (fuel : Nat) : Usual fuel := by
  induction fuel with
  | zero => constructor <;> intros <;> rfl
  | succ fuel ih =>
    constructor
    case expr =>
      intro e
      cases e <;> simp only [Expr.evaluateBy, Expr.evaluate, ih.expr, ih.exprs, ih.callee] <;> rfl
    case exprs =>
      intro es
      cases es <;> simp only [Expr.evaluateAllBy, Expr.evaluateAll, ih.expr, ih.exprs]
    case callee =>
      intro c values
      cases c <;> simp only [Callee.callBy, Callee.call, ih.callee, ih.routine] <;> rfl
    case routine =>
      intro r closure values
      simp only [Routine.runBy, Routine.run, ih.stmts]
      rfl
    case stmt =>
      intro s
      cases s with
      | var name initial | giveBack name initial =>
        cases initial <;> simp only [Stmt.executeBy, Stmt.execute, ih.expr]
      | _ => simp only [Stmt.executeBy, Stmt.execute, ih.expr, ih.stmt, ih.stmts, ih.turn] <;> rfl
    case stmts =>
      intro ss
      cases ss <;> simp only [Stmt.executeAllBy, Stmt.executeAll, ih.stmt, ih.stmts] <;> rfl
    case turn =>
      intro condition body
      simp only [Stmt.turnBy, Stmt.turn, ih.expr, ih.stmt, ih.turn] <;> rfl

end ScopeScript
