import ScopeScript.Proofs.Running.Return
import ScopeScript.Proofs.Session.Tidy

namespace ScopeScript

open Request

-- Anything that is asked of a session. Trees, bindings and callees may come from anywhere.
inductive Errand where
  | run (fuel : Nat) (source : String)
  | evaluate (fuel : Nat) (source : String)
  | parse (source : String)
  | parseExpression (source : String)
  | resolve (program : List Stmt)
  | resolveExpression (e : Expr)
  | carryOut (fuel : Nat) (program : List Stmt)
  | evaluateExpression (fuel : Nat) (e : Expr)
  | execute (fuel : Nat) (s : Stmt)
  | executeDetached (fuel : Nat) (bindings : Names Value) (body : List Stmt)
  | call (fuel : Nat) (c : Callee) (arguments : List Value)

def Errand.perform : Errand → Request Unit
  | run fuel source => (Session.run fuel source).void
  | evaluate fuel source => (Session.evaluate fuel source).void
  | parse source => (Session.parse source).void
  | parseExpression source => (Session.parseExpression source).void
  | resolve program => (Session.resolve program).void
  | resolveExpression e => (noting (ScopeScript.resolveExpression e)).void
  | carryOut fuel program => (Session.carryOut fuel program).void
  | evaluateExpression fuel e => (Session.evaluateExpression fuel e).void
  | execute fuel s => (running (s.execute fuel)).void
  | executeDetached fuel bindings body => (running (ScopeScript.executeDetached fuel bindings body)).void
  | call fuel c arguments => (running (c.call fuel arguments)).void

def Errand.performAll (errands : List Errand) (s : Session) : Session :=
  errands.foldl (fun s errand => (errand.perform s).2) s

-- Whatever the reply is.
def Request.Returning (r : Request α) : Prop := ∀ s : Session, s.machine.Returns (r s).2.machine

namespace Request.Returning

theorem reply (a : α) : Returning (reply a) := fun s => .refl s.machine

theorem ofExcept (wrap : ε → Problem) (e : Except (List ε) α) : Returning (ofExcept wrap e) := by
  cases e with
  | ok a => exact .reply a
  | error faults => exact fun s => .refl s.machine

theorem andThen {first : Request α} {second : α → Request β} (h : first.Returning)
    (next : ∀ a, (second a).Returning) : (first.andThen second).Returning := by
  intro s
  have given := h s
  unfold Request.andThen
  cases answered : first s with
  | mk answer after =>
    rw [answered] at given
    cases answer with
    | done a => exact given.trans (next a after)
    | rejected problems => exact given
    | unfinished => exact given

theorem void {r : Request α} (h : r.Returning) : r.void.Returning := h.andThen fun _ => .reply ()

theorem reading (reader : List Token → RefId → Except (List SyntaxFault) α × RefId) (ts : List Token) :
    (reading reader ts).Returning := fun s =>
  ofExcept .syntactic (reader ts s.nextRef).1 { s with nextRef := (reader ts s.nextRef).2 }

theorem running {action : Running α} (h : Running.Returning action) : (running action).Returning := by
  intro s
  rw [running_last]
  exact h s.machine

theorem noting (resolution : Resolution) : (noting resolution).Returning := fun _ => ⟨rfl, rfl, .refl _⟩

theorem accepting (resolution : Resolution) : (accepting resolution).Returning := by
  unfold Request.accepting
  split
  · exact .reply _
  · exact fun s => .refl s.machine

theorem parse (source : String) : (Session.parse source).Returning :=
  .andThen (.ofExcept _ _) fun ts => .reading _ ts

theorem parseExpression (source : String) : (Session.parseExpression source).Returning :=
  .andThen (.ofExcept _ _) fun ts => .reading _ ts

theorem resolve (program : List Stmt) : (Session.resolve program).Returning :=
  .andThen (.noting _) fun resolution => .accepting resolution

theorem carryOut (fuel : Nat) (program : List Stmt) : (Session.carryOut fuel program).Returning :=
  .running (runProgram_returning fuel program)

theorem evaluateExpression (fuel : Nat) (e : Expr) : (Session.evaluateExpression fuel e).Returning :=
  .running ((restoring fuel).expr e)

end Request.Returning

theorem Errand.perform_returning (errand : Errand) : errand.perform.Returning := by
  cases errand with
  | run fuel source =>
    exact .void (.andThen (.parse source) fun program => .andThen (.resolve program) fun _ =>
      .andThen (.carryOut fuel program) fun _ => .reply _)
  | evaluate fuel source =>
    exact .void (.andThen (.parseExpression source) fun e => .andThen (.noting _) fun resolution =>
      .andThen (.accepting resolution) fun _ => .evaluateExpression fuel e)
  | parse source => exact .void (.parse source)
  | parseExpression source => exact .void (.parseExpression source)
  | resolve program => exact .void (.resolve program)
  | resolveExpression e => exact .void (.noting _)
  | carryOut fuel program => exact .void (.carryOut fuel program)
  | evaluateExpression fuel e => exact .void (.evaluateExpression fuel e)
  | execute fuel s => exact .void (.running ((restoring fuel).stmt s))
  | executeDetached fuel bindings body => exact .void (.running (executeDetached_returning fuel bindings body))
  | call fuel c arguments => exact .void (.running ((restoring fuel).callee c arguments))

theorem Errand.performAll_returns (errands : List Errand) (s : Session) :
    s.machine.Returns (performAll errands s).machine := by
  induction errands generalizing s with
  | nil => exact .refl s.machine
  | cons errand rest ih => exact (errand.perform_returning s).trans (ih _)

-- From any state and however a run ends, it comes back to the scope in which it began, and that
-- scope still lies where it lay. So each errand of a session begins and ends in the globals.
theorem scopes_restored :
    (∀ fuel (m : Machine),
      (∀ e : Expr, m.Returns (Running.last (e.evaluate fuel m))) ∧
      (∀ es, m.Returns (Running.last (Expr.evaluateAll fuel es m))) ∧
      (∀ (c : Callee) values, m.Returns (Running.last (c.call fuel values m))) ∧
      (∀ (r : Routine) closure values, m.Returns (Running.last (r.run fuel closure values m))) ∧
      (∀ s : Stmt, m.Returns (Running.last (s.execute fuel m))) ∧
      (∀ ss, m.Returns (Running.last (Stmt.executeAll fuel ss m))) ∧
      (∀ scope ss, m.Returns (Running.last (Running.within scope (Stmt.executeAll fuel ss) m))) ∧
      (∀ bindings ss, m.Returns (Running.last (executeDetached fuel bindings ss m))) ∧
      ∀ program, m.Returns (Running.last (runProgram fuel program m))) ∧
    ∀ sink clock (errands : List Errand),
      let after := (Errand.performAll errands (.start sink clock)).machine
      after.scope = after.globals ∧ after.globals = (Machine.start sink clock).globals ∧
        after.store.chain after.scope = [after.globals] := by
  refine ⟨fun fuel m => ?_, fun sink clock errands => ?_⟩
  · have h := restoring fuel
    exact ⟨fun e => h.expr e m, fun es => h.exprs es m, fun c values => h.callee c values m,
      fun r closure values => h.routine r closure values m, fun s => h.stmt s m, fun ss => h.stmts ss m,
      fun scope ss => Running.Returning.within (h.stmts ss) scope m,
      fun bindings ss => executeDetached_returning fuel bindings ss m, fun program => runProgram_returning fuel program m⟩
  · intro after
    have back : (Session.start sink clock).machine.Returns after := Errand.performAll_returns errands _
    have home : after.scope = after.globals := back.scope.trans back.globals.symm
    have alone : after.store.chain (Machine.start sink clock).globals = [(Machine.start sink clock).globals] :=
      back.store.chain 0 Nat.zero_lt_one
    refine ⟨home, back.globals, ?_⟩
    rw [home, back.globals]
    exact alone

end ScopeScript
