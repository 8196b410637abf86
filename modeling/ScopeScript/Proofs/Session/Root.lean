import ScopeScript.Proofs.Running.Root
import ScopeScript.Proofs.Session.Return

namespace ScopeScript

open Request

-- An errand that brings no scopes, bindings or callees of its own.
def Errand.Ordinary : Errand → Prop
  | .executeDetached .. => False
  | .call .. => False
  | _ => True

-- Whatever the reply is.
def Request.Lasting (r : Request α) : Prop :=
  ∀ s : Session, s.machine.Rooted → s.machine.Retains (r s).2.machine ∧ (r s).2.machine.Rooted

theorem Running.Lasts.last {size : Nat} {x : Running α} {p : Nat → α → Prop} (h : Lasts size x p) {m : Machine}
    (rooted : m.Rooted) (known : size ≤ m.store.scopes.size) :
    m.Retains (Running.last (x m)) ∧ (Running.last (x m)).Rooted := by
  have given := h m rooted known
  cases ran : x m with
  | ok a after =>
    simp only [ran] at given
    exact ⟨given.1, given.2.1⟩
  | error halt after =>
    simp only [ran] at given
    exact given

namespace Request.Lasting

theorem reply (a : α) : Lasting (reply a) := fun s rooted => ⟨.refl s.machine, rooted⟩

theorem ofExcept (wrap : ε → Problem) (e : Except (List ε) α) : Lasting (ofExcept wrap e) := by
  cases e with
  | ok a => exact .reply a
  | error faults => exact fun s rooted => ⟨.refl s.machine, rooted⟩

theorem andThen {first : Request α} {second : α → Request β} (h : first.Lasting)
    (next : ∀ a, (second a).Lasting) : (first.andThen second).Lasting := by
  intro s rooted
  have given := h s rooted
  unfold Request.andThen
  cases answered : first s with
  | mk answer after =>
    rw [answered] at given
    obtain ⟨retains, still⟩ := given
    cases answer with
    | done a =>
      have behind := next a after still
      exact ⟨retains.trans behind.1, behind.2⟩
    | rejected problems => exact ⟨retains, still⟩
    | unfinished => exact ⟨retains, still⟩

theorem void {r : Request α} (h : r.Lasting) : r.void.Lasting := h.andThen fun _ => .reply ()

theorem reading (reader : List Token → RefId → Except (List SyntaxFault) α × RefId) (ts : List Token) :
    (reading reader ts).Lasting := fun s rooted =>
  ofExcept .syntactic (reader ts s.nextRef).1 { s with nextRef := (reader ts s.nextRef).2 } rooted

theorem running {action : Running α} {p : Nat → α → Prop} (h : Running.Lasts 0 action p) : (running action).Lasting := by
  intro s rooted
  rw [running_last]
  exact h.last rooted (Nat.zero_le _)

theorem noting (resolution : Resolution) : (noting resolution).Lasting :=
  fun _ rooted => ⟨⟨rfl, rfl, .refl _⟩, rooted.store, rooted.scope⟩

theorem accepting (resolution : Resolution) : (accepting resolution).Lasting := by
  unfold Request.accepting
  split
  · exact .reply _
  · exact fun s rooted => ⟨.refl s.machine, rooted⟩

theorem parse (source : String) : (Session.parse source).Lasting :=
  .andThen (.ofExcept _ _) fun ts => .reading _ ts

theorem parseExpression (source : String) : (Session.parseExpression source).Lasting :=
  .andThen (.ofExcept _ _) fun ts => .reading _ ts

theorem resolve (program : List Stmt) : (Session.resolve program).Lasting :=
  .andThen (.noting _) fun resolution => .accepting resolution

theorem carryOut (fuel : Nat) (program : List Stmt) : (Session.carryOut fuel program).Lasting :=
  .running (runProgram_lasts fuel 0 program)

theorem evaluateExpression (fuel : Nat) (e : Expr) : (Session.evaluateExpression fuel e).Lasting :=
  .running ((rooting fuel).expr 0 e)

end Request.Lasting

theorem Errand.Ordinary.lasting {errand : Errand} (ordinary : errand.Ordinary) : errand.perform.Lasting := by
  cases errand with
  | run fuel source =>
    exact .void (.andThen (.parse source) fun program => .andThen (.resolve program) fun _ =>
      .andThen (.carryOut fuel program) fun _ => .reply _)
  | evaluate fuel source =>
    exact .void (.andThen (.parseExpression source) fun e => .andThen (.noting _) fun resolution =>
      .andThen (.accepting resolution) fun _ => .evaluateExpression fuel e)
  | parse source => exact .void (.parse source)
  | parseExpression source => exact .void (.parseExpression source)
  | resolve program => exact .void (.resolve program)
  | resolveExpression e => exact .void (.noting _)
  | carryOut fuel program => exact .void (.carryOut fuel program)
  | evaluateExpression fuel e => exact .void (.evaluateExpression fuel e)
  | execute fuel s => exact .void (.running ((rooting fuel).stmt 0 s))
  | executeDetached fuel bindings body => exact ordinary.elim
  | call fuel c arguments => exact ordinary.elim

theorem Errand.performAll_rooted {errands : List Errand} (ordinary : ∀ errand ∈ errands, errand.Ordinary) {s : Session}
    (rooted : s.machine.Rooted) : s.machine.Retains (performAll errands s).machine ∧ (performAll errands s).machine.Rooted := by
  induction errands generalizing s with
  | nil => exact ⟨.refl s.machine, rooted⟩
  | cons errand rest ih =>
    obtain ⟨first, others⟩ := List.forall_mem_cons.mp ordinary
    obtain ⟨retains, still⟩ := first.lasting s rooted
    obtain ⟨behind, there⟩ := ih others still
    exact ⟨retains.trans behind, there⟩

-- A session's machine is rooted at any time, and from such a machine any code, however it ends, leads to such a machine
-- and takes away nothing. There the links end in the globals, and with them every look-up.
theorem scopes_outlive :
    (∀ sink clock (before after : List Errand), (∀ errand ∈ before ++ after, errand.Ordinary) →
      let m := (Errand.performAll before (.start sink clock)).machine
      m.Rooted ∧ m.Retains (Errand.performAll (before ++ after) (.start sink clock)).machine) ∧
    ∀ m : Machine, m.Rooted → m.store.Ends m.globals ∧ ∀ fuel,
      (∀ e : Expr, let after := Running.last (e.evaluate fuel m)
        m.Retains after ∧ after.Rooted ∧ after.store.Ends m.globals) ∧
      (∀ s : Stmt, let after := Running.last (s.execute fuel m)
        m.Retains after ∧ after.Rooted ∧ after.store.Ends m.globals) ∧
      (∀ ss, let after := Running.last (Stmt.executeAll fuel ss m)
        m.Retains after ∧ after.Rooted ∧ after.store.Ends m.globals) ∧
      ∀ program, let after := Running.last (runProgram fuel program m)
        m.Retains after ∧ after.Rooted ∧ after.store.Ends m.globals := by
  refine ⟨fun sink clock before after ordinary => ?_, fun m rooted => ⟨rooted.store.ends, fun fuel => ?_⟩⟩
  · obtain ⟨first, others⟩ := List.forall_mem_append.mp ordinary
    have reached := Errand.performAll_rooted first (s := .start sink clock) (Machine.start_rooted sink clock)
    refine ⟨reached.2, ?_⟩
    have further := Errand.performAll_rooted others reached.2
    have joined : Errand.performAll (before ++ after) (.start sink clock) =
        Errand.performAll after (Errand.performAll before (.start sink clock)) := List.foldl_append
    exact joined ▸ further.1
  · have lead : ∀ {after : Machine}, m.Retains after ∧ after.Rooted →
        m.Retains after ∧ after.Rooted ∧ after.store.Ends m.globals :=
      fun h => ⟨h.1, h.2, h.1.globals ▸ h.2.store.ends⟩
    have h := rooting fuel
    exact ⟨fun e => lead ((h.expr 0 e).last rooted (Nat.zero_le _)), fun s => lead ((h.stmt 0 s).last rooted (Nat.zero_le _)),
      fun ss => lead ((h.stmts 0 ss).last rooted (Nat.zero_le _)),
      fun program => lead ((runProgram_lasts fuel 0 program).last rooted (Nat.zero_le _))⟩

-- A method that hands out a function of its receiver. The receiver stands in a scope of its own, right in the globals.
def keptSource : String := "class A { m() { return fun () { return this; }; } } var f = A().m();"

def keptMachine : Machine := (Errand.performAll [.run 20 keptSource] (.start .unlimited 0)).machine

def keptLater : Machine := (Errand.performAll ([.run 20 keptSource] ++ [.evaluate 20 "f()"]) (.start .unlimited 0)).machine

theorem scopes_outlive_kept : (∀ errand ∈ [Errand.run 20 keptSource] ++ [.evaluate 20 "f()"], errand.Ordinary) ∧
    keptMachine.store.scopes.size = 3 ∧ keptLater.store.scopes.size = 4 ∧ keptMachine.Rooted ∧ keptMachine.Retains keptLater ∧
    keptLater.store.enclosing? 1 = some 0 ∧ keptLater.store.Ends 0 := by
  have ordinary : ∀ errand ∈ [Errand.run 20 keptSource] ++ [.evaluate 20 "f()"], errand.Ordinary := by
    simp [Errand.Ordinary]
  obtain ⟨rooted, retains⟩ := scopes_outlive.1 .unlimited 0 _ _ ordinary
  obtain ⟨later, -⟩ := scopes_outlive.1 .unlimited 0 ([.run 20 keptSource] ++ [.evaluate 20 "f()"]) [] (by simpa using ordinary)
  have globals : keptLater.globals = 0 := by decide +kernel
  have link : keptMachine.store.enclosing? 1 = some 0 := by decide +kernel
  have size : keptMachine.store.scopes.size = 3 := by decide +kernel
  refine ⟨ordinary, size, by decide +kernel, rooted, retains, ?_, globals ▸ (scopes_outlive.2 keptLater later).1⟩
  exact (retains.store.links 1 (size ▸ by decide)).trans link

end ScopeScript
