import ScopeScript.Running.Evaluate

namespace ScopeScript

namespace Running

def Exhausted (result : EStateM.Result Halt Machine α) : Prop := ∃ after, result = .error .outOfFuel after

-- The second action ends as the first one does, unless the first runs out of fuel.
def Outlasts (x y : Running α) : Prop := ∀ m, y m = x m ∨ Exhausted (x m)

namespace Outlasts

theorem refl (x : Running α) : Outlasts x x := fun _ => .inl rfl

theorem outOfFuel (y : Running α) : Outlasts outOfFuel y := fun m => .inr ⟨m, rfl⟩

theorem bind {x y : Running α} {k l : α → Running β} (first : Outlasts x y) (next : ∀ a, Outlasts (k a) (l a)) :
    Outlasts (x >>= k) (y >>= l) := by
  intro m
  show EStateM.bind y l m = EStateM.bind x k m ∨ Exhausted (EStateM.bind x k m)
  unfold EStateM.bind
  rcases first m with same | ⟨after, short⟩
  · rw [same]
    cases x m with
    | ok a middle => exact next a middle
    | error halt after => exact .inl rfl
  · rw [short]
    exact .inr ⟨after, rfl⟩

theorem after (x : Running α) {k l : α → Running β} (next : ∀ a, Outlasts (k a) (l a)) :
    Outlasts (x >>= k) (x >>= l) :=
  .bind (.refl x) next

theorem before {x y : Running α} (first : Outlasts x y) (k : α → Running β) : Outlasts (x >>= k) (y >>= k) :=
  .bind first fun a => .refl (k a)

theorem within {x y : Running α} (inner : Outlasts x y) (scope : ScopeId) :
    Outlasts (within scope x) (within scope y) := by
  intro m
  unfold Running.within
  dsimp only
  rcases inner { m with scope := scope } with same | ⟨after, short⟩
  · rw [same]
    exact .inl rfl
  · rw [short]
    exact .inr ⟨_, rfl⟩

end Outlasts

end Running

open Running (Outlasts Exhausted)

-- More fuel only lets more runs come to an end.
structure Lasting (fuel more : Nat) : Prop where
  expr : ∀ e : Expr, Outlasts (e.evaluate fuel) (e.evaluate more)
  exprs : ∀ es, Outlasts (Expr.evaluateAll fuel es) (Expr.evaluateAll more es)
  callee : ∀ (c : Callee) values, Outlasts (c.call fuel values) (c.call more values)
  routine : ∀ (r : Routine) closure values, Outlasts (r.run fuel closure values) (r.run more closure values)
  stmt : ∀ s : Stmt, Outlasts (s.execute fuel) (s.execute more)
  stmts : ∀ ss, Outlasts (Stmt.executeAll fuel ss) (Stmt.executeAll more ss)
  turn : ∀ condition body, Outlasts (Stmt.turn fuel condition body) (Stmt.turn more condition body)

namespace Lasting

theorem zero (more : Nat) : Lasting 0 more where
  expr _ := .outOfFuel _
  exprs _ := .outOfFuel _
  callee _ _ := .outOfFuel _
  routine _ _ _ := .outOfFuel _
  stmt _ := .outOfFuel _
  stmts _ := .outOfFuel _
  turn _ _ := .outOfFuel _

variable {fuel more : Nat}

theorem expr_succ (h : Lasting fuel more) (e : Expr) :
    Outlasts (e.evaluate (fuel + 1)) (e.evaluate (more + 1)) := by
  cases e with
  | grouping inner => exact h.expr inner
  | unary operator operand => exact .before (h.expr operand) _
  | binary left operator right => exact .bind (h.expr left) fun _ => .before (h.expr right) _
  | logical left operator right =>
    refine .bind (h.expr left) fun a => ?_
    split
    · exact .refl _
    · exact h.expr right
  | assign i name value => exact .before (h.expr value) _
  | call callee close arguments =>
    exact .bind (h.expr callee) fun _ => .bind (h.exprs arguments) fun values => .after _ fun c => h.callee c values
  | get object name => exact .before (h.expr object) _
  | set object name value =>
    refine .bind (h.expr object) fun v => ?_
    cases v with
    | nil | bool | number | string | callee => exact .refl _
    | _ i => exact .before (h.expr value) _
  | _ => exact .refl _

theorem exprs_succ (h : Lasting fuel more) (es : List Expr) :
    Outlasts (Expr.evaluateAll (fuel + 1) es) (Expr.evaluateAll (more + 1) es) := by
  cases es with
  | nil => exact .refl _
  | cons e rest => exact .bind (h.expr e) fun _ => .before (h.exprs rest) _

theorem callee_succ (h : Lasting fuel more) (c : Callee) (values : List Value) :
    Outlasts (c.call (fuel + 1) values) (c.call (more + 1) values) := by
  cases c with
  | clock => exact .refl _
  | function f => exact .before (h.routine _ _ _) _
  | lambda l => exact .before (h.routine _ _ _) _
  | classes c =>
    refine .after _ fun i => ?_
    cases c.initializer? with
    | none => exact .refl _
    | some m => exact .after _ fun f => .before (h.callee _ _) _

theorem routine_succ (h : Lasting fuel more) (r : Routine) (closure : ScopeId) (values : List Value) :
    Outlasts (r.run (fuel + 1) closure values) (r.run (more + 1) closure values) :=
  .after _ fun scope => .within (h.stmts r.body) scope

theorem stmt_succ (h : Lasting fuel more) (s : Stmt) :
    Outlasts (s.execute (fuel + 1)) (s.execute (more + 1)) := by
  cases s with
  | expression value => exact .before (h.expr value) _
  | print keyword value => exact .before (h.expr value) _
  | var name initial =>
    cases initial with
    | none => exact .refl _
    | some e => exact .before (h.expr e) _
  | block body => exact .after _ fun scope => .within (h.stmts body) scope
  | branch condition yes no =>
    refine .bind (h.expr condition) fun v => ?_
    split
    · exact h.stmt yes
    · cases no with
      | none => exact .refl _
      | some no => exact h.stmt no
  | loop condition body => exact h.turn condition body
  | giveBack keyword value =>
    cases value with
    | none => exact .refl _
    | some e => exact .before (h.expr e) _
  | _ => exact .refl _

theorem stmts_succ (h : Lasting fuel more) (ss : List Stmt) :
    Outlasts (Stmt.executeAll (fuel + 1) ss) (Stmt.executeAll (more + 1) ss) := by
  cases ss with
  | nil => exact .refl _
  | cons s rest =>
    refine .bind (h.stmt s) fun flow => ?_
    cases flow with
    | normal => exact h.stmts rest
    | _ => exact .refl _

theorem turn_succ (h : Lasting fuel more) (condition : Expr) (body : Stmt) :
    Outlasts (Stmt.turn (fuel + 1) condition body) (Stmt.turn (more + 1) condition body) := by
  refine .bind (h.expr condition) fun v => ?_
  split
  · refine .bind (h.stmt body) fun flow => ?_
    cases flow with
    | normal => exact h.turn condition body
    | _ => exact .refl _
  · exact .refl _

end Lasting

theorem lasting {fuel more : Nat} (enough : fuel ≤ more) : Lasting fuel more := by
  induction fuel generalizing more with
  | zero => exact .zero more
  | succ fuel ih =>
    obtain ⟨more, rfl⟩ := Nat.exists_eq_add_of_lt enough
    have h : Lasting fuel (fuel + more) := ih (Nat.le_add_right _ _)
    exact ⟨h.expr_succ, h.exprs_succ, h.callee_succ, h.routine_succ, h.stmt_succ, h.stmts_succ, h.turn_succ⟩

-- What a run comes to does not depend on the fuel.
theorem Expr.evaluate_settled {fuel other : Nat} {e : Expr} {m : Machine} (ended : ¬ Exhausted (e.evaluate fuel m))
    (ended' : ¬ Exhausted (e.evaluate other m)) : e.evaluate fuel m = e.evaluate other m := by
  rcases Nat.le_total fuel other with more | more
  · exact (((lasting more).expr e m).resolve_right ended).symm
  · exact ((lasting more).expr e m).resolve_right ended'

theorem Stmt.executeAll_settled {fuel other : Nat} {ss : List Stmt} {m : Machine}
    (ended : ¬ Exhausted (Stmt.executeAll fuel ss m)) (ended' : ¬ Exhausted (Stmt.executeAll other ss m)) :
    Stmt.executeAll fuel ss m = Stmt.executeAll other ss m := by
  rcases Nat.le_total fuel other with more | more
  · exact (((lasting more).stmts ss m).resolve_right ended).symm
  · exact ((lasting more).stmts ss m).resolve_right ended'

theorem Stmt.executeAll_cons (fuel : Nat) (s : Stmt) (rest : List Stmt) :
    Stmt.executeAll (fuel + 1) (s :: rest) = s.execute fuel >>= fun
      | .normal => Stmt.executeAll fuel rest
      | flow => pure flow :=
  rfl

-- Statements and others behind them.
theorem Stmt.executeAll_append (fuel : Nat) (ss more : List Stmt) :
    Stmt.executeAll fuel (ss ++ more) = Stmt.executeAll fuel ss >>= fun
      | .normal => Stmt.executeAll (fuel - ss.length) more
      | flow => pure flow := by
  induction ss generalizing fuel with
  | nil => cases fuel <;> rfl
  | cons s rest ih =>
    cases fuel with
    | zero => rfl
    | succ fuel =>
      rw [List.cons_append, executeAll_cons, executeAll_cons, bind_assoc, List.length_cons, Nat.add_sub_add_right]
      congr 1
      funext flow
      cases flow with
      | normal => exact ih fuel
      | _ => rfl

-- Behind a beginning that ends normally come the other statements.
theorem Stmt.executeAll_behind {fuel : Nat} {ss : List Stmt} {m after : Machine}
    (ran : Stmt.executeAll fuel ss m = .ok .normal after) (more : List Stmt) :
    Stmt.executeAll fuel (ss ++ more) m = Stmt.executeAll (fuel - ss.length) more after := by
  rw [Stmt.executeAll_append]
  show EStateM.bind _ _ m = _
  unfold EStateM.bind
  rw [ran]

theorem Stmt.executeAll_stopped {fuel : Nat} {ss : List Stmt} {m after : Machine} {halt : Halt}
    (ran : Stmt.executeAll fuel ss m = .error halt after) (more : List Stmt) :
    Stmt.executeAll fuel (ss ++ more) m = .error halt after := by
  rw [Stmt.executeAll_append]
  show EStateM.bind _ _ m = _
  unfold EStateM.bind
  rw [ran]

end ScopeScript
