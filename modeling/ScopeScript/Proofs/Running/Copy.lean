import ScopeScript.Proofs.Running.Bear
import ScopeScript.Proofs.Running.Manner

namespace ScopeScript

variable {owned : Code → Prop}

-- The manner is the usual one wherever owned code makes use of it.
structure Manner.Fits (M : Manner) (owned : Code → Prop) : Prop where
  unary : ∀ {operator operand}, owned (.expr (.unary operator operand)) → M.unary operator = usual.unary operator
  binary : ∀ {left operator right}, owned (.expr (.binary left operator right)) →
    M.binary operator = usual.binary operator
  decides : ∀ {left operator right}, owned (.expr (.logical left operator right)) →
    M.decides operator = usual.decides operator
  enter : ∀ {r : Routine} {closure values}, r.Owned owned → values.length = r.arity →
    M.enter r closure values = usual.enter r closure values

namespace Running

-- On a store that bears owned code only, the first action does what the second one does.
def Copies (owned : Code → Prop) (x y : Running α) : Prop := ∀ m : Machine, m.store.Bears owned → x m = y m

namespace Copies

theorem refl (x : Running α) : Copies owned x x := fun _ _ => rfl

theorem bind {x y : Running α} {k l : α → Running β} {p : α → Prop} (first : Copies owned x y)
    (bears : Bears owned y p)
    (next : ∀ a, p a → Copies owned (k a) (l a)) : Copies owned (x >>= k) (y >>= l) := by
  intro m held
  have given := bears m held
  show EStateM.bind x k m = EStateM.bind y l m
  unfold EStateM.bind
  rw [first m held]
  cases ran : y m with
  | ok a middle =>
    simp only [ran] at given
    exact next a given.2 middle given.1
  | error halt after => rfl

theorem within {x y : Running α} (inner : Copies owned x y) (scope : ScopeId) :
    Copies owned (within scope x) (Running.within scope y) := by
  intro m held
  unfold Running.within
  dsimp only
  rw [inner { m with scope := scope } held]

end Copies

end Running

open Running (Bears Copies)

structure RunsCopy (M : Manner) (owned : Code → Prop) (fuel : Nat) : Prop where
  expr : ∀ {e : Expr}, owned (.expr e) → Copies owned (e.evaluateBy M fuel) (e.evaluate fuel)
  exprs : ∀ {es}, (∀ e ∈ es, owned (.expr e)) → Copies owned (Expr.evaluateAllBy M fuel es) (Expr.evaluateAll fuel es)
  callee : ∀ {c : Callee} {values : List Value}, c.Bears owned → (∀ v ∈ values, v.Bears owned) →
    values.length = c.arity → Copies owned (c.callBy M fuel values) (c.call fuel values)
  routine : ∀ {r : Routine} {values : List Value} closure, r.Owned owned → (∀ v ∈ values, v.Bears owned) →
    values.length = r.arity → Copies owned (r.runBy M fuel closure values) (r.run fuel closure values)
  stmt : ∀ {s : Stmt}, owned (.stmt s) → Copies owned (s.executeBy M fuel) (s.execute fuel)
  stmts : ∀ {ss}, owned (.stmts ss) → Copies owned (Stmt.executeAllBy M fuel ss) (Stmt.executeAll fuel ss)
  turn : ∀ {condition : Expr} {body : Stmt}, owned (.expr condition) → owned (.stmt body) →
    Copies owned (Stmt.turnBy M fuel condition body) (Stmt.turn fuel condition body)

namespace RunsCopy

variable {M : Manner} {fuel : Nat}

theorem zero : RunsCopy M owned 0 where
  expr _ := .refl _
  exprs _ := .refl _
  callee _ _ _ := .refl _
  routine _ _ _ _ := .refl _
  stmt _ := .refl _
  stmts _ := .refl _
  turn _ _ := .refl _

theorem expr_succ (h : RunsCopy M owned fuel) (fits : M.Fits owned) (inherits : Code.Inherits owned) {e : Expr}
    (own : owned (.expr e)) : Copies owned (e.evaluateBy M (fuel + 1)) (e.evaluate (fuel + 1)) := by
  have inner := inherits.expr own
  have bear := runs_bear inherits fuel
  cases e with
  | literal value => exact .refl _
  | grouping e => exact h.expr (e := e) (inner _ List.mem_cons_self)
  | unary operator operand =>
    have first : owned (.expr operand) := inner _ List.mem_cons_self
    refine .bind (h.expr first) (bear.expr first) fun v _ => ?_
    rw [fits.unary own]
    exact .refl _
  | binary left operator right =>
    obtain ⟨first, second⟩ : owned (.expr left) ∧ owned (.expr right) := by simpa [Expr.parts] using inner
    refine .bind (h.expr first) (bear.expr first) fun a _ => .bind (h.expr second) (bear.expr second) fun b _ => ?_
    rw [fits.binary own]
    exact .refl _
  | logical left operator right =>
    obtain ⟨first, second⟩ : owned (.expr left) ∧ owned (.expr right) := by simpa [Expr.parts] using inner
    refine .bind (h.expr first) (bear.expr first) fun a _ => ?_
    rw [fits.decides own]
    show Copies owned (if decides operator a then _ else _) (if decides operator a then _ else _)
    split
    · exact .refl _
    · exact h.expr second
  | assign i name value =>
    have first : owned (.expr value) := inner _ List.mem_cons_self
    exact .bind (h.expr first) (bear.expr first) fun v _ => .refl _
  | call callee close es =>
    have first : owned (.expr callee) := inner _ List.mem_cons_self
    have each : ∀ e ∈ es, owned (.expr e) := fun e member => inner _ (List.mem_cons_of_mem _ (List.mem_map_of_mem member))
    exact .bind (h.expr first) (bear.expr first) fun f called => .bind (h.exprs each) (bear.exprs each) fun values all =>
      .bind (.refl _) (.checkedCall own called values) fun c checked => h.callee checked.1 all checked.2
  | get object name =>
    have first : owned (.expr object) := inner _ List.mem_cons_self
    exact .bind (h.expr first) (bear.expr first) fun v _ => .refl _
  | set object name value =>
    obtain ⟨first, second⟩ : owned (.expr object) ∧ owned (.expr value) := by simpa [Expr.parts] using inner
    refine .bind (h.expr first) (bear.expr first) fun v _ => ?_
    cases v with
    | nil | bool | number | string | callee => exact .refl _
    | _ i => exact .bind (h.expr second) (bear.expr second) fun v _ => .refl _
  | «variable» | lambda | this => exact .refl _

theorem exprs_succ (h : RunsCopy M owned fuel) (inherits : Code.Inherits owned) {es : List Expr}
    (each : ∀ e ∈ es, owned (.expr e)) :
    Copies owned (Expr.evaluateAllBy M (fuel + 1) es) (Expr.evaluateAll (fuel + 1) es) := by
  have bear := runs_bear inherits fuel
  cases es with
  | nil => exact .refl _
  | cons e rest =>
    obtain ⟨first, others⟩ := List.forall_mem_cons.mp each
    exact .bind (h.expr first) (bear.expr first) fun v _ => .bind (h.exprs others) (bear.exprs others) fun vs _ => .refl _

-- An initializer takes as many values as its class.
theorem callee_succ (h : RunsCopy M owned fuel) (inherits : Code.Inherits owned) {c : Callee} {values : List Value}
    (bears : c.Bears owned) (all : ∀ v ∈ values, v.Bears owned) (counted : values.length = c.arity) :
    Copies owned (c.callBy M (fuel + 1) values) (c.call (fuel + 1) values) := by
  have bear := runs_bear inherits fuel
  cases c with
  | clock => exact .refl _
  | function f => exact .bind (h.routine _ bears all counted) (bear.routine _ bears all) fun flow _ => .refl _
  | lambda l => exact .bind (h.routine _ bears all counted) (bear.routine _ bears all) fun flow _ => .refl _
  | classes c =>
    have made : Bears owned (Running.withStore fun s => s.newInstance c) fun i => i.madeBy.Bears owned :=
      .withStore fun s held => ⟨held.newInstance c, bears⟩
    refine .bind (.refl _) made fun i cited => ?_
    simp only [Callee.arity] at counted
    cases found : c.initializer? with
    | none => exact .refl _
    | some m =>
      rw [found] at counted
      have runs : m.routine.Owned owned := Names.get?_all (p := fun m : Method => m.routine.Owned owned) bears found
      refine .bind (.refl _) (.attach m cited) fun f same => ?_
      have bound : f.routine.Owned owned := same ▸ runs
      have enough : values.length = f.routine.arity := by
        rw [same]
        exact counted
      exact .bind (h.callee (c := .function f) bound all enough) (bear.callee (c := .function f) bound all) fun _ _ => .refl _

theorem routine_succ (h : RunsCopy M owned fuel) (fits : M.Fits owned) (inherits : Code.Inherits owned) {r : Routine}
    {values : List Value} (closure : ScopeId) (own : r.Owned owned) (all : ∀ v ∈ values, v.Bears owned)
    (counted : values.length = r.arity) :
    Copies owned (r.runBy M (fuel + 1) closure values) (r.run (fuel + 1) closure values) := by
  have entered : M.enter r closure values = enterBody r closure values := fits.enter own counted
  obtain ⟨kind, here⟩ := own
  unfold Routine.runBy
  rw [entered]
  exact .bind (.refl _) (.enterBody r closure all) fun scope _ =>
    .within (h.stmts (inherits here _ List.mem_cons_self)) scope

theorem stmt_succ (h : RunsCopy M owned fuel) (inherits : Code.Inherits owned) {s : Stmt} (own : owned (.stmt s)) :
    Copies owned (s.executeBy M (fuel + 1)) (s.execute (fuel + 1)) := by
  have inner := inherits.stmt own
  have bear := runs_bear inherits fuel
  cases s with
  | expression value | print keyword value =>
    have first : owned (.expr value) := inner _ List.mem_cons_self
    exact .bind (h.expr first) (bear.expr first) fun v _ => .refl _
  | var name initial | giveBack keyword initial =>
    cases initial with
    | none => exact .refl _
    | some e =>
      have first : owned (.expr e) := inner _ List.mem_cons_self
      exact .bind (h.expr first) (bear.expr first) fun v _ => .refl _
  | block body => exact .bind (.refl _) .enterBlock fun scope _ => .within (h.stmts (inner _ List.mem_cons_self)) scope
  | branch condition yes no =>
    cases no with
    | none =>
      obtain ⟨asked, one⟩ : owned (.expr condition) ∧ owned (.stmt yes) := by simpa [Stmt.parts] using inner
      refine .bind (h.expr asked) (bear.expr asked) fun v _ => ?_
      split
      · exact h.stmt one
      · exact .refl _
    | some no =>
      obtain ⟨asked, one, other⟩ : owned (.expr condition) ∧ owned (.stmt yes) ∧ owned (.stmt no) := by
        simpa [Stmt.parts] using inner
      refine .bind (h.expr asked) (bear.expr asked) fun v _ => ?_
      split
      · exact h.stmt one
      · exact h.stmt other
  | loop condition body =>
    obtain ⟨asked, turns⟩ : owned (.expr condition) ∧ owned (.stmt body) := by simpa [Stmt.parts] using inner
    exact h.turn asked turns
  | leave | function | classes => exact .refl _

theorem stmts_succ (h : RunsCopy M owned fuel) (inherits : Code.Inherits owned) {ss : List Stmt} (own : owned (.stmts ss)) :
    Copies owned (Stmt.executeAllBy M (fuel + 1) ss) (Stmt.executeAll (fuel + 1) ss) := by
  cases ss with
  | nil => exact .refl _
  | cons s rest =>
    have first : owned (.stmt s) := inherits own _ List.mem_cons_self
    have others : owned (.stmts rest) := inherits own _ (List.mem_cons_of_mem _ List.mem_cons_self)
    refine .bind (h.stmt first) ((runs_bear inherits fuel).stmt first) fun flow _ => ?_
    cases flow with
    | normal => exact h.stmts others
    | leave | giveBack => exact .refl _

theorem turn_succ (h : RunsCopy M owned fuel) (inherits : Code.Inherits owned) {condition : Expr} {body : Stmt}
    (asked : owned (.expr condition)) (inner : owned (.stmt body)) :
    Copies owned (Stmt.turnBy M (fuel + 1) condition body) (Stmt.turn (fuel + 1) condition body) := by
  have bear := runs_bear inherits fuel
  refine .bind (h.expr asked) (bear.expr asked) fun v _ => ?_
  split
  · refine .bind (h.stmt inner) (bear.stmt inner) fun flow _ => ?_
    cases flow with
    | normal => exact h.turn asked inner
    | leave | giveBack => exact .refl _
  · exact .refl _

end RunsCopy

-- Where only owned code runs, a manner that fits it makes no difference.
theorem runs_copy {M : Manner} (fits : M.Fits owned) (inherits : Code.Inherits owned) (fuel : Nat) :
    RunsCopy M owned fuel := by
  induction fuel with
  | zero => exact .zero
  | succ fuel ih =>
    exact ⟨ih.expr_succ fits inherits, ih.exprs_succ inherits, ih.callee_succ inherits, ih.routine_succ fits inherits,
      ih.stmt_succ inherits, ih.stmts_succ inherits, ih.turn_succ inherits⟩

end ScopeScript
