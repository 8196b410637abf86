import ScopeScript.Proofs.Running.Watch

namespace ScopeScript

open Watching

def forget : EStateM.Result Halt Record α → EStateM.Result Halt Machine α
  | .ok result r => .ok result r.scene.machine
  | .error halt r => .error halt r.scene.machine

-- Watching a run changes nothing about it.
def Erases (x : Watching α) (y : Running α) : Prop :=
  ∀ here r, forget (x here r) = y r.scene.machine

-- Only the record changes.
def Quiet (x : Watching α) : Prop :=
  ∀ here r, ∃ result r', x here r = .ok result r' ∧ r'.scene.machine = r.scene.machine

namespace Erases

theorem pure (result : α) : Erases (pure result) (pure result) := fun _ _ => rfl

theorem lift (y : Running α) : Erases (Watching.lift y) y := by
  intro here r
  unfold Watching.lift
  cases y r.scene.machine with
  | ok result machine => rfl
  | error halt machine => rfl

theorem bind {x : Watching α} {y : Running α} {k : α → Watching β} {l : α → Running β}
    (first : Erases x y) (next : ∀ result, Erases (k result) (l result)) :
    Erases (x >>= k) (y >>= l) := by
  intro here r
  have same := first here r
  show forget (EStateM.bind (x here) (fun result => k result here) r) = EStateM.bind y l _
  unfold EStateM.bind
  rw [← same]
  cases x here r with
  | ok result r' => exact next result here r'
  | error halt r' => rfl

-- A look at the record goes before a run without a trace in it.
theorem after {x : Watching α} {k : α → Watching β} {y : Running β} (quiet : Quiet x)
    (next : ∀ result, Erases (k result) y) : Erases (x >>= k) y := by
  intro here r
  obtain ⟨result, r', run, same⟩ := quiet here r
  show forget (EStateM.bind (x here) (fun result => k result here) r) = _
  unfold EStateM.bind
  rw [run, ← same]
  exact next result here r'

theorem before {x : Watching α} {y : Running α} {k : α → Watching α} (first : Erases x y)
    (quiet : ∀ result here r, ∃ r', k result here r = .ok result r' ∧
      r'.scene.machine = r.scene.machine) : Erases (x >>= k) y := by
  intro here r
  have same := first here r
  show forget (EStateM.bind (x here) (fun result => k result here) r) = _
  unfold EStateM.bind
  rw [← same]
  cases x here r with
  | ok result r' =>
    obtain ⟨last, run, kept⟩ := quiet result here r'
    show forget (k result here r') = _
    rw [run]
    exact congrArg (EStateM.Result.ok result) kept
  | error halt r' => rfl

theorem nested {x : Watching α} {y : Running α} (s : Stmt) (inner : Erases x y) :
    Erases (Watching.nested s x) y := fun here r => inner (here.nest s) r

theorem inside {x : Watching α} {y : Running α} (there : Standpoint) (scope : ScopeId)
    (inner : Erases x y) : Erases (Watching.inside there scope x) (Running.within scope y) := by
  intro here r
  have same := inner there { r with scene := r.scene.move scope }
  unfold Watching.inside Running.within
  rw [show y { r.scene.machine with scope := scope } = _ from same.symm]
  dsimp only
  cases x there { r with scene := r.scene.move scope } with
  | ok result r' => rfl
  | error halt r' => rfl

theorem opening {x : Watching α} {y : Running α} (enter : Running ScopeId) (region : Region)
    (there : ScopeId → Standpoint) (inner : Erases x y) :
    Erases (Watching.opening enter region there x) (enter >>= fun scope => Running.within scope y) :=
  .bind (.lift enter) fun scope => .after (fun _ _ => ⟨_, _, rfl, rfl⟩) fun _ =>
    .inside (there scope) scope inner

theorem binding (name : String) (v : Value) : Erases (Watching.binding name v) (Running.bindHere name v) :=
  (Erases.lift _).before fun _ _ _ => ⟨_, rfl, rfl⟩

end Erases

theorem quiet_mark (event : Event) : Quiet (mark event) := fun _ _ => ⟨_, _, rfl, rfl⟩

theorem quiet_homeOf (identity : Identity) : Quiet (homeOf identity) := fun _ _ => ⟨_, _, rfl, rfl⟩

theorem quiet_beginning (name : String) : Quiet (beginning name) := by
  intro here r
  by_cases outside : here.display = []
  · exact ⟨_, _, beginning_global r name outside, rfl⟩
  · exact ⟨_, _, beginning_local r name outside, rfl⟩

theorem making_erases (make : Running α) (methods : List Routine) :
    Erases (making make methods) make :=
  (Erases.lift make).before fun _ _ _ => ⟨_, rfl, rfl⟩

theorem referring_erases (i : RefId) (name : Token) (look : Running α) :
    Erases (referring i name look) look :=
  Erases.after (quiet_mark _) fun _ => .lift look

theorem ending_erases (s : Stmt) {x : Watching Ending} {y : Running Ending} (h : Erases x y) :
    Erases (ending s x) y :=
  h.before fun _ _ _ => ⟨_, rfl, rfl⟩

theorem returning_erases (c : Callee) {x : Watching Ending} {y : Running Ending} (h : Erases x y) :
    Erases (returning c x) y :=
  h.before fun _ _ _ => ⟨_, rfl, rfl⟩

theorem answering_erases (c : Callee) {x : Watching Value} {y : Running Value} (h : Erases x y) :
    Erases (answering c x) y :=
  Erases.after (fun _ _ => ⟨_, _, rfl, rfl⟩) fun _ => h.before fun _ _ _ => ⟨_, rfl, rfl⟩

theorem Method.attach_erases (m : Method) (receiver : Instance) :
    Erases (m.watchAttach receiver) (m.attach receiver) :=
  (Erases.lift _).before fun _ _ _ => ⟨_, rfl, rfl⟩

theorem Instance.get_erases (i : Instance) (name : Token) :
    Erases (i.watchGet name) (i.get name) := by
  refine .bind (.lift _) fun store => ?_
  cases store.field? i name.lexeme with
  | some value => exact .pure _
  | none =>
    cases i.madeBy.methods.get? name.lexeme with
    | some m => exact .bind (Method.attach_erases m i) fun f => .pure _
    | none => exact .lift _

structure Erasing (fuel : Nat) : Prop where
  expr : ∀ e : Expr, Erases (e.watch fuel) (e.evaluate fuel)
  exprs : ∀ es, Erases (Expr.watchAll fuel es) (Expr.evaluateAll fuel es)
  callee : ∀ (c : Callee) values, Erases (c.watch fuel values) (c.call fuel values)
  routine : ∀ c (r : Routine) identity closure values,
    Erases (Routine.watch fuel c r identity closure values) (r.run fuel closure values)
  stmt : ∀ s : Stmt, Erases (s.watch fuel) (s.execute fuel)
  stmts : ∀ ss, Erases (Stmt.watchAll fuel ss) (Stmt.executeAll fuel ss)
  turn : ∀ condition body, Erases (Stmt.watchTurn fuel condition body) (Stmt.turn fuel condition body)

namespace Erasing

theorem zero : Erasing 0 where
  expr _ := .lift _
  exprs _ := .lift _
  callee _ _ := .lift _
  routine _ _ _ _ _ := .lift Running.outOfFuel
  stmt _ := .lift _
  stmts _ := .lift _
  turn _ _ := .lift _

variable {fuel : Nat}

theorem expr_succ (h : Erasing fuel) (e : Expr) :
    Erases (e.watch (fuel + 1)) (e.evaluate (fuel + 1)) := by
  cases e with
  | literal value => exact .pure _
  | grouping inner => exact h.expr inner
  | unary operator operand => exact .bind (h.expr operand) fun _ => .lift _
  | binary left operator right =>
    exact .bind (h.expr left) fun _ => .bind (h.expr right) fun _ => .lift _
  | logical left operator right =>
    refine .bind (h.expr left) fun a => ?_
    split
    · exact .pure _
    · exact h.expr right
  | assign i name value =>
    exact .bind (h.expr value) fun v => .bind (referring_erases i name _) fun _ => .pure _
  | call callee close arguments =>
    exact .bind (h.expr callee) fun f => .bind (h.exprs arguments) fun values =>
      .bind (.lift _) fun c => h.callee c values
  | lambda routine => exact making_erases _ _
  | get object name =>
    refine .bind (h.expr object) fun v => ?_
    cases v with
    | nil | bool | number | string | callee => exact .lift _
    | _ => exact Instance.get_erases _ name
  | set object name value =>
    refine .bind (h.expr object) fun v => ?_
    cases v with
    | nil | bool | number | string | callee => exact .lift _
    | _ => exact .bind (h.expr value) fun _ => .bind (.lift _) fun _ => .pure _
  | _ => exact referring_erases _ _ _

theorem exprs_succ (h : Erasing fuel) (es : List Expr) :
    Erases (Expr.watchAll (fuel + 1) es) (Expr.evaluateAll (fuel + 1) es) := by
  cases es with
  | nil => exact .pure _
  | cons e rest => exact .bind (h.expr e) fun _ => .bind (h.exprs rest) fun _ => .pure _

theorem callee_succ (h : Erasing fuel) (c : Callee) (values : List Value) :
    Erases (c.watch (fuel + 1) values) (c.call (fuel + 1) values) := by
  refine answering_erases c ?_
  cases c with
  | clock => exact .lift _
  | function f =>
    refine .bind (h.routine _ _ _ _ _) fun flow => ?_
    split
    · exact .lift _
    · exact .pure _
  | lambda l => exact .bind (h.routine _ _ _ _ _) fun _ => .pure _
  | classes c =>
    refine .bind (.lift _) fun i => ?_
    cases c.initializer? with
    | none => exact .pure _
    | some m => exact .bind (Method.attach_erases m i) fun f => .bind (h.callee _ _) fun _ => .pure _

theorem routine_succ (h : Erasing fuel) (c : Callee) (r : Routine) (identity : Identity)
    (closure : ScopeId) (values : List Value) :
    Erases (Routine.watch (fuel + 1) c r identity closure values) (r.run (fuel + 1) closure values) :=
  Erases.after (quiet_homeOf identity) fun _ => returning_erases c (.opening _ _ _ (h.stmts r.body))

theorem stmt_succ (h : Erasing fuel) (s : Stmt) :
    Erases (s.watch (fuel + 1)) (s.execute (fuel + 1)) := by
  refine ending_erases s ?_
  cases s with
  | expression value => exact .bind (h.expr value) fun _ => .pure _
  | print keyword value => exact .bind (h.expr value) fun _ => .bind (.lift _) fun _ => .pure _
  | block body =>
    exact .after (fun _ _ => ⟨_, _, rfl, rfl⟩) fun _ => .opening _ _ _ (h.stmts body)
  | branch condition yes no =>
    refine .bind (h.expr condition) fun v => ?_
    split
    · exact .nested _ (h.stmt yes)
    · cases no with
      | none => exact .pure _
      | some other => exact .nested _ (h.stmt other)
  | loop condition body => exact .nested _ (h.turn condition body)
  | leave keyword => exact .pure _
  | function routine => exact .bind (making_erases _ _) fun _ => .bind (.binding _ _) fun _ => .pure _
  | giveBack keyword value =>
    cases value with
    | none => exact .pure _
    | some value => exact .bind (h.expr value) fun _ => .pure _
  | classes name methods =>
    exact .bind (.binding _ _) fun _ => .bind (making_erases _ _) fun _ => .bind (.lift _) fun _ =>
      .pure _
  | var name initial =>
    cases initial with
    | none => exact .bind (.binding _ _) fun _ => .pure _
    | some initial =>
      refine .after (quiet_beginning name.lexeme) fun _ => .bind (h.expr initial) fun v => ?_
      exact .bind (.binding _ _) fun _ => .pure _

theorem stmts_succ (h : Erasing fuel) (ss : List Stmt) :
    Erases (Stmt.watchAll (fuel + 1) ss) (Stmt.executeAll (fuel + 1) ss) := by
  cases ss with
  | nil => exact .pure _
  | cons s rest =>
    refine .bind (h.stmt s) fun ending => ?_
    cases ending with
    | normal => exact h.stmts rest
    | leave => exact .pure _
    | giveBack value => exact .pure _

theorem turn_succ (h : Erasing fuel) (condition : Expr) (body : Stmt) :
    Erases (Stmt.watchTurn (fuel + 1) condition body) (Stmt.turn (fuel + 1) condition body) := by
  refine .bind (h.expr condition) fun v => ?_
  split
  · refine .bind (h.stmt body) fun ending => ?_
    cases ending with
    | normal => exact h.turn condition body
    | leave => exact .pure _
    | giveBack value => exact .pure _
  · exact .pure _

end Erasing

theorem erasing (fuel : Nat) : Erasing fuel := by
  induction fuel with
  | zero => exact .zero
  | succ fuel ih =>
    exact ⟨ih.expr_succ, ih.exprs_succ, ih.callee_succ, ih.routine_succ, ih.stmt_succ, ih.stmts_succ,
      ih.turn_succ⟩

end ScopeScript
