import ScopeScript.Scoping.Walk

namespace ScopeScript

mutual

def Expr.resolve : Expr → Walk → Walk
  | .literal _, w => w
  | .grouping inner, w => inner.resolve w
  | .unary _ operand, w => operand.resolve w
  | .binary left _ right, w => right.resolve (left.resolve w)
  | .logical left _ right, w => right.resolve (left.resolve w)
  | .variable id name, w =>
    let w := if w.initializing name.lexeme then w.fault .selfReferentialInitializer name else w
    w.refer id name
  | .assign id name value, w => (value.resolve w).refer id name
  | .call callee _ arguments, w => Expr.resolveAll arguments (callee.resolve w)
  | .lambda routine, w => routine.resolve .lambda w
  | .get object _, w => object.resolve w
  | .set object _ value, w => value.resolve (object.resolve w)
  | .this id keyword, w =>
    if w.inClass then w.refer id keyword else w.fault .thisOutsideClass keyword

def Expr.resolveAll : List Expr → Walk → Walk
  | [], w => w
  | e :: rest, w => Expr.resolveAll rest (e.resolve w)

def Stmt.resolve : Stmt → Walk → Walk
  | .expression value, w => value.resolve w
  | .print _ value, w => value.resolve w
  | .var name none, w => w.introduce name
  | .var name (some initial), w => (initial.resolve (w.declare name)).settle name
  | .block body, w => (Stmt.resolveAll body (w.enter [])).leave
  | .branch condition yes none, w => yes.resolve (condition.resolve w)
  | .branch condition yes (some no), w => no.resolve (yes.resolve (condition.resolve w))
  | .loop condition body, w =>
    let w := body.resolve (condition.resolve { w with loops := w.loops + 1 })
    { w with loops := w.loops - 1 }
  | .leave keyword, w => if w.loops = 0 then w.fault .breakOutsideLoop keyword else w
  -- A function's own name can be read inside it.
  | .function routine, w => routine.resolve .function (w.introduce routine.head)
  | .giveBack keyword none, w =>
    if w.body = .outside then w.fault .returnOutsideFunction keyword else w
  | .giveBack keyword (some value), w =>
    let w := if w.body = .outside then w.fault .returnOutsideFunction keyword else w
    let w := if w.body = .initializer then w.fault .valueFromInitializer keyword else w
    value.resolve w
  | .classes name methods, w =>
    let around := w.inClass
    let w := { w.introduce name with inClass := true }.enter [(receiverName, ⟨true, true, none⟩)]
    { (Routine.resolveMethods methods w).leave with inClass := around }

def Stmt.resolveAll : List Stmt → Walk → Walk
  | [], w => w
  | s :: rest, w => Stmt.resolveAll rest (s.resolve w)

def Routine.resolve (kind : BodyKind) : Routine → Walk → Walk
  | .mk _ parameters body, w =>
    let around := w.body
    let loops := w.loops
    let inside := Stmt.resolveAll body (w.enterRoutine kind parameters)
    (inside.flagUnreachable body).leaveRoutine around loops

def Routine.resolveMethods : List Routine → Walk → Walk
  | [], w => w
  | r :: rest, w =>
    let kind := if r.isInitializer then BodyKind.initializer else .method
    Routine.resolveMethods rest (r.resolve kind w)

end

-- Faults in the order of the walk, warnings in reading order.
structure Resolution where
  faults : List StaticFault
  warnings : List Warning
  notes : List Note

def Walk.resolution (w : Walk) : Resolution :=
  ⟨w.faults.toList,
    w.warnings.toList.mergeSort fun a b => a.token.position.before b.token.position,
    w.notes.toList⟩

def resolveProgram (program : List Stmt) : Resolution :=
  (Stmt.resolveAll program .start).resolution

def resolveExpression (e : Expr) : Resolution :=
  (e.resolve .start).resolution

end ScopeScript
