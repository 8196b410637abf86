import ScopeScript.Proofs.Running.Commute
import ScopeScript.Proofs.Running.Grow

namespace ScopeScript

-- Every scope there was is still there, inside the same scopes.
structure Store.Stays (s after : Store) : Prop where
  size : s.scopes.size ≤ after.scopes.size
  chain : ∀ scope < s.scopes.size, after.chain scope = s.chain scope

-- A run that leaves the machine in the scope in which it found it.
structure Machine.Returns (m after : Machine) : Prop where
  scope : after.scope = m.scope
  globals : after.globals = m.globals
  store : m.store.Stays after.store

namespace Store.Stays

theorem refl (s : Store) : s.Stays s := ⟨Nat.le_refl _, fun _ _ => rfl⟩

theorem trans {s middle after : Store} (first : s.Stays middle) (second : middle.Stays after) : s.Stays after where
  size := Nat.le_trans first.size second.size
  chain scope known :=
    (second.chain scope (Nat.lt_of_lt_of_le known first.size)).trans (first.chain scope known)

theorem put (s : Store) (scope : ScopeId) (name : String) (v : Value) : s.Stays (s.put scope name v) :=
  ⟨Nat.le_of_eq (s.size_put scope name v).symm, fun asked _ => s.chain_put scope asked name v⟩

theorem openScope (s : Store) (outer : List ScopeId) (bindings : Names Value) :
    s.Stays (s.openScope outer bindings).2 where
  size := by simp [Store.openScope]
  chain asked known := (s.chain_openScope asked outer bindings).trans (if_neg (Nat.ne_of_lt known))

-- Identities and fields lie outside of the scopes.
theorem aside {s after : Store} (same : after.scopes = s.scopes) : s.Stays after where
  size := Nat.le_of_eq (congrArg Array.size same).symm
  chain scope _ := by rw [Store.chain, same, Store.chain]

end Store.Stays

theorem Machine.Returns.refl (m : Machine) : m.Returns m := ⟨rfl, rfl, .refl _⟩

theorem Machine.Returns.trans {m middle after : Machine} (first : m.Returns middle) (second : middle.Returns after) :
    m.Returns after :=
  ⟨second.scope.trans first.scope, second.globals.trans first.globals, first.store.trans second.store⟩

namespace Running

-- However the action ends, with a result or without one.
def Returning (x : Running α) : Prop := ∀ m : Machine, m.Returns (last (x m))

namespace Returning

theorem pure (a : α) : Returning (Pure.pure a) := fun m => .refl m

theorem outOfFuel : Returning (outOfFuel : Running α) := fun m => .refl m

theorem fail (cause : RuntimeCause) (t : Token) : Returning (fail cause t : Running α) := fun m => .refl m

theorem bind {x : Running α} {k : α → Running β} (first : Returning x) (next : ∀ a, Returning (k a)) :
    Returning (x >>= k) := by
  intro m
  have given := first m
  show m.Returns (last (EStateM.bind x k m))
  unfold EStateM.bind
  cases ran : x m with
  | ok a middle =>
    rw [ran] at given
    exact given.trans (next a middle)
  | error halt after =>
    rw [ran] at given
    exact given

theorem withStore {step : Store → α × Store} (stays : ∀ s : Store, s.Stays (step s).2) :
    Returning (withStore step) := fun m => ⟨rfl, rfl, stays m.store⟩

-- The inner run comes back to the scope that it was sent into, and is then called back.
theorem within {x : Running α} (inner : Returning x) (scope : ScopeId) : Returning (within scope x) := by
  intro m
  have given := inner { m with scope := scope }
  unfold Running.within
  dsimp only
  cases ran : x { m with scope := scope } with
  | ok a after =>
    rw [ran] at given
    exact ⟨rfl, given.globals, given.store⟩
  | error halt after =>
    rw [ran] at given
    exact ⟨rfl, given.globals, given.store⟩

theorem currentScope : Returning currentScope := fun m => .refl m

theorem store : Returning store := fun m => .refl m

theorem bindHere (name : String) (v : Value) : Returning (bindHere name v) := fun m =>
  ⟨rfl, rfl, .put m.store m.scope name v⟩

theorem read (i : RefId) (name : Token) : Returning (read i name) := by
  intro m
  unfold Running.read
  split <;> exact .refl m

theorem rebind (target : Option ScopeId) (name : Token) (v : Value) : Returning (rebind target name v) := by
  intro m
  cases target with
  | none => exact .refl m
  | some scope => exact ⟨rfl, rfl, .put m.store scope name.lexeme v⟩

theorem write (i : RefId) (name : Token) (v : Value) : Returning (write i name v) := fun m => rebind _ name v m

theorem reassign (name : Token) (v : Value) : Returning (reassign name v) := fun m => rebind _ name v m

theorem print (keyword : Token) (text : String) : Returning (print keyword text) := by
  intro m
  unfold Running.print
  dsimp only
  split <;> exact ⟨rfl, rfl, .refl _⟩

theorem seconds : Returning seconds := fun _ => ⟨rfl, rfl, .refl _⟩

theorem flush : Returning flush := by
  intro m
  rw [last_flush]
  exact .refl m

theorem ofExcept (e : Except RuntimeFault α) : Returning (ofExcept e) := by
  cases e with
  | ok a => exact .pure a
  | error f => exact fun m => .refl m

theorem attach (m : Method) (receiver : Instance) : Returning (m.attach receiver) :=
  .withStore fun s => (Store.Stays.openScope s _ _).trans (.aside rfl)

theorem get (i : Instance) (name : Token) : Returning (i.get name) := by
  refine .bind .store fun store => ?_
  cases store.field? i name.lexeme with
  | some value => exact .pure _
  | none =>
    cases i.madeBy.methods.get? name.lexeme with
    | some m => exact .bind (.attach m i) fun _ => .pure _
    | none => exact .fail _ _

theorem receiver (f : Function) : Returning f.receiver := .bind .store fun _ => .pure _

-- What is made takes its closure from the current scope and stays outside of every scope.
theorem making {make : ScopeId → Identity → Value} : Returning (do
    let closure ← Running.currentScope
    let identity ← Running.withStore Store.identity
    return make closure identity) :=
  .bind .currentScope fun _ => .bind (.withStore fun _ => .aside rfl) fun _ => .pure _

theorem checkedCall (close : Token) (callee : Value) (arguments : List Value) :
    Returning (checkedCall close callee arguments) := by
  unfold ScopeScript.checkedCall
  split
  · exact .fail _ _
  · split
    · exact .pure _
    · exact .fail _ _

theorem enterBlock : Returning enterBlock := .bind .currentScope fun _ => .withStore fun s => .openScope s _ _

theorem enterBody (routine : Routine) (closure : ScopeId) (values : List Value) :
    Returning (enterBody routine closure values) := .withStore fun s => .openScope s _ _

end Returning

end Running

open Running (Returning)

structure Restoring (fuel : Nat) : Prop where
  expr : ∀ e : Expr, Returning (e.evaluate fuel)
  exprs : ∀ es, Returning (Expr.evaluateAll fuel es)
  callee : ∀ (c : Callee) values, Returning (c.call fuel values)
  routine : ∀ (r : Routine) closure values, Returning (r.run fuel closure values)
  stmt : ∀ s : Stmt, Returning (s.execute fuel)
  stmts : ∀ ss, Returning (Stmt.executeAll fuel ss)
  turn : ∀ condition body, Returning (Stmt.turn fuel condition body)

namespace Restoring

theorem zero : Restoring 0 where
  expr _ := .outOfFuel
  exprs _ := .outOfFuel
  callee _ _ := .outOfFuel
  routine _ _ _ := .outOfFuel
  stmt _ := .outOfFuel
  stmts _ := .outOfFuel
  turn _ _ := .outOfFuel

variable {fuel : Nat}

theorem expr_succ (h : Restoring fuel) (e : Expr) : Returning (e.evaluate (fuel + 1)) := by
  cases e with
  | literal value => exact .pure _
  | grouping inner => exact h.expr inner
  | unary operator operand => exact .bind (h.expr operand) fun _ => .ofExcept _
  | binary left operator right => exact .bind (h.expr left) fun _ => .bind (h.expr right) fun _ => .ofExcept _
  | logical left operator right =>
    refine .bind (h.expr left) fun a => ?_
    split
    · exact .pure _
    · exact h.expr right
  | assign i name value => exact .bind (h.expr value) fun v => .bind (.write i name v) fun _ => .pure _
  | call callee close arguments =>
    exact .bind (h.expr callee) fun f => .bind (h.exprs arguments) fun values =>
      .bind (.checkedCall close f values) fun c => h.callee c values
  | lambda routine => exact .making
  | get object name =>
    refine .bind (h.expr object) fun v => ?_
    cases v with
    | nil | bool | number | string | callee => exact .fail _ _
    | _ i => exact .get i name
  | set object name value =>
    refine .bind (h.expr object) fun v => ?_
    cases v with
    | nil | bool | number | string | callee => exact .fail _ _
    | _ i => exact .bind (h.expr value) fun _ => .bind (.withStore fun _ => .aside rfl) fun _ => .pure _
  | _ => exact .read _ _

theorem exprs_succ (h : Restoring fuel) (es : List Expr) : Returning (Expr.evaluateAll (fuel + 1) es) := by
  cases es with
  | nil => exact .pure _
  | cons e rest => exact .bind (h.expr e) fun _ => .bind (h.exprs rest) fun _ => .pure _

theorem callee_succ (h : Restoring fuel) (c : Callee) (values : List Value) : Returning (c.call (fuel + 1) values) := by
  cases c with
  | clock => exact .seconds
  | function f =>
    refine .bind (h.routine _ _ _) fun flow => ?_
    split
    · exact .receiver f
    · exact .pure _
  | lambda l => exact .bind (h.routine _ _ _) fun _ => .pure _
  | classes c =>
    refine .bind (.withStore fun _ => .aside rfl) fun i => ?_
    cases c.initializer? with
    | none => exact .pure _
    | some m => exact .bind (.attach m i) fun f => .bind (h.callee _ _) fun _ => .pure _

theorem routine_succ (h : Restoring fuel) (r : Routine) (closure : ScopeId) (values : List Value) :
    Returning (r.run (fuel + 1) closure values) :=
  .bind (.enterBody r closure values) fun scope => .within (h.stmts r.body) scope

theorem stmt_succ (h : Restoring fuel) (s : Stmt) : Returning (s.execute (fuel + 1)) := by
  cases s with
  | expression value => exact .bind (h.expr value) fun _ => .pure _
  | print keyword value => exact .bind (h.expr value) fun v => .bind (.print keyword _) fun _ => .pure _
  | var name initial =>
    cases initial with
    | none => exact .bind (.bindHere _ _) fun _ => .pure _
    | some e => exact .bind (h.expr e) fun v => .bind (.bindHere _ v) fun _ => .pure _
  | block body => exact .bind .enterBlock fun scope => .within (h.stmts body) scope
  | branch condition yes no =>
    refine .bind (h.expr condition) fun v => ?_
    split
    · exact h.stmt yes
    · cases no with
      | none => exact .pure _
      | some no => exact h.stmt no
  | loop condition body => exact h.turn condition body
  | leave keyword => exact .pure _
  | function routine => exact .bind .making fun f => .bind (.bindHere _ f) fun _ => .pure _
  | giveBack keyword value =>
    cases value with
    | none => exact .pure _
    | some e => exact .bind (h.expr e) fun _ => .pure _
  | classes name methods =>
    exact .bind (.bindHere _ _) fun _ => .bind .making fun made => .bind (.reassign name made) fun _ => .pure _

theorem stmts_succ (h : Restoring fuel) (ss : List Stmt) : Returning (Stmt.executeAll (fuel + 1) ss) := by
  cases ss with
  | nil => exact .pure _
  | cons s rest =>
    refine .bind (h.stmt s) fun flow => ?_
    cases flow with
    | normal => exact h.stmts rest
    | leave => exact .pure _
    | giveBack value => exact .pure _

theorem turn_succ (h : Restoring fuel) (condition : Expr) (body : Stmt) :
    Returning (Stmt.turn (fuel + 1) condition body) := by
  refine .bind (h.expr condition) fun v => ?_
  split
  · refine .bind (h.stmt body) fun flow => ?_
    cases flow with
    | normal => exact h.turn condition body
    | leave => exact .pure _
    | giveBack value => exact .pure _
  · exact .pure _

end Restoring

theorem restoring (fuel : Nat) : Restoring fuel := by
  induction fuel with
  | zero => exact .zero
  | succ fuel ih =>
    exact ⟨ih.expr_succ, ih.exprs_succ, ih.callee_succ, ih.routine_succ, ih.stmt_succ, ih.stmts_succ, ih.turn_succ⟩

theorem runProgram_returning (fuel : Nat) (program : List Stmt) : Returning (runProgram fuel program) :=
  .bind ((restoring fuel).stmts program) fun _ => .flush

theorem executeDetached_returning (fuel : Nat) (bindings : Names Value) (body : List Stmt) :
    Returning (executeDetached fuel bindings body) :=
  .bind (.withStore fun s => .openScope s _ _) fun scope => .within ((restoring fuel).stmts body) scope

end ScopeScript
