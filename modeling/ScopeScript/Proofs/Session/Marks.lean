import ScopeScript.Proofs.Session.Origin

namespace ScopeScript

open Running (Exhausted Renames)

namespace Running.Renames

variable {ρ : Renaming} {old new : Depths} {f : α → β} {x : Running α} {y : Running β} {m after : Machine}
  {reported : RuntimeFault}

theorem fault (h : Renames ρ old new f x y) (kept : m.depths = old) (ran : x m = .error (.fault reported) after) :
    y (m.rename ρ new) = .error (.fault (reported.rename ρ)) (after.rename ρ new) := by
  have given := h m kept
  rw [ran] at given
  exact given.2

theorem of_fault (h : Renames ρ old new f x y) (kept : m.depths = old)
    (ran : y (m.rename ρ new) = .error (.fault reported) after) :
    ∃ first last, x m = .error (.fault first) last ∧ reported = first.rename ρ := by
  have given := h m kept
  cases went : x m with
  | ok a last =>
    rw [went, ran] at given
    cases given.2
  | error halt last =>
    rw [went, ran] at given
    cases halt with
    | fault first =>
      cases given.2
      exact ⟨first, last, rfl, rfl⟩
    | outOfFuel => cases given.2

end Running.Renames

namespace Position

-- Even lines mark what was there before, odd lines what is new.
def asOld (p : Position) : Position := ⟨2 * p.line, p.column⟩

def asNew (p : Position) : Position := ⟨2 * p.line + 1, p.column⟩

-- Back to where a marked place was, with everything new moved.
def unmark (move : Position → Position) (p : Position) : Position :=
  if p.line % 2 = 0 then ⟨p.line / 2, p.column⟩ else move ⟨p.line / 2, p.column⟩

variable (move : Position → Position) (p : Position)

theorem unmark_asOld : p.asOld.unmark move = p := by
  unfold unmark asOld
  rw [if_pos (Nat.mul_mod_right 2 p.line)]
  exact congrArg (Position.mk · p.column) (Nat.mul_div_cancel_left p.line Nat.two_pos)

theorem unmark_asNew : p.asNew.unmark move = move p := by
  unfold unmark asNew
  dsimp only
  rw [if_neg (by omega), show (2 * p.line + 1) / 2 = p.line by omega]

end Position

-- The code of a machine on even lines, and an expression on odd ones.
def Machine.marked (m : Machine) : Machine := m.rename ⟨id, Position.asOld⟩ m.depths

def Expr.marked (e : Expr) : Expr := e.rename ⟨id, Position.asNew⟩

-- What the expression faults with on the machine, where the line tells which of the two the token is in.
def Machine.Blames (m : Machine) (e : Expr) (f : RuntimeFault) : Prop :=
  ∃ fuel after, e.marked.evaluate fuel m.marked = .error (.fault f) after

section

variable {m n : Machine} {before own : Position → Prop} {e e' : Expr} {fuel : Nat} {table : Depths}

theorem Machine.Blames.unique {f g : RuntimeFault} (one : m.Blames e f) (other : m.Blames e g) : f = g := by
  obtain ⟨fuel, after, ran⟩ := one
  obtain ⟨more, after', ran'⟩ := other
  have ended : ∀ {fuel f after}, e.marked.evaluate fuel m.marked = .error (.fault f) after →
      ¬ Exhausted (e.marked.evaluate fuel m.marked) := by
    intro fuel f after ran ⟨last, short⟩
    rw [ran] at short
    cases short
  have same := Expr.evaluate_settled (ended ran) (ended ran')
  rw [ran, ran'] at same
  exact Halt.fault.inj (EStateM.Result.error.inj same).1

theorem Machine.rename_marked (m : Machine) (place : Position → Position) (table : Depths) :
    m.marked.rename ⟨m.depths.code, place⟩ table = m.rename ⟨m.depths.code, place ∘ Position.asOld⟩ table :=
  Machine.rename_rename _ _ _ _ m

theorem Expr.rename_marked (e : Expr) (ρ : Renaming) :
    e.marked.rename ρ = e.rename ⟨ρ.ref, ρ.place ∘ Position.asNew⟩ :=
  e.rename_rename _ _

-- A fault on the marked machine is in what was there before or in the expression.
theorem Machine.From.marked_place (stands : m.From before) (inner : (Code.expr e).From own m.depths)
    {fault : RuntimeFault} {after : Machine} (ran : e.marked.evaluate fuel m.marked = .error (.fault fault) after) :
    (∃ p, before p ∧ fault.token.position = p.asOld) ∨ ∃ p, own p ∧ fault.token.position = p.asNew := by
  classical
  -- Every place but the marked ones moves away.
  let away (q : Position) : Position :=
    if (∃ p, before p ∧ q = p.asOld) ∨ ∃ p, own p ∧ q = p.asNew then q else ⟨q.line, q.column + 1⟩
  obtain ⟨table, agrees, -⟩ := m.depths.common m.depths id
  have agrees' : Renaming.Agrees ⟨m.depths.code, away⟩ m.depths table := agrees
  have machine : m.marked.rename ⟨m.depths.code, away⟩ table = m.marked.rename ⟨m.depths.code, id⟩ table := by
    rw [Machine.rename_marked, Machine.rename_marked]
    exact stands.renamed (fun p inside => if_pos (.inl ⟨p, inside, rfl⟩)) table
  have code : e.marked.rename ⟨m.depths.code, away⟩ = e.marked.rename ⟨m.depths.code, id⟩ := by
    rw [Expr.rename_marked, Expr.rename_marked]
    exact Code.expr.inj (inner _ _ fun p inside => if_pos (.inr ⟨p, inside, rfl⟩))
  have one := ((commuting agrees fuel).expr _).fault (m := m.marked) rfl ran
  have other := ((commuting agrees' fuel).expr _).fault (m := m.marked) rfl ran
  rw [machine, code, one] at other
  have stays : fault.token.position = away fault.token.position := by
    have same := Halt.fault.inj (EStateM.Result.error.inj other).1
    exact congrArg (fun f => f.token.position) same
  by_contra elsewhere
  rw [show away fault.token.position = _ from if_neg elsewhere] at stays
  exact absurd (congrArg Position.column stays.symm) (Nat.succ_ne_self _)

-- A fault of the expression, with its tokens moved, is one on the marked machine.
theorem Machine.marked_fault (agrees : Renaming.Agrees ⟨m.depths.code, id⟩ m.depths table) (move : Position → Position)
    {fault : RuntimeFault} {after : Machine}
    (ran : (e.rename ⟨m.depths.code, move⟩).evaluate fuel (m.rename ⟨m.depths.code, id⟩ table) =
      .error (.fault fault) after) :
    ∃ first last, e.marked.evaluate fuel m.marked = .error (.fault first) last ∧
      fault = first.rename ⟨m.depths.code, Position.unmark move⟩ := by
  have agrees' : Renaming.Agrees ⟨m.depths.code, Position.unmark move⟩ m.depths table := agrees
  have machine : m.marked.rename ⟨m.depths.code, Position.unmark move⟩ table = m.rename ⟨m.depths.code, id⟩ table := by
    rw [Machine.rename_marked]
    exact congrArg (fun place => m.rename ⟨m.depths.code, place⟩ table) (funext (Position.unmark_asOld move))
  have code : e.marked.rename ⟨m.depths.code, Position.unmark move⟩ = e.rename ⟨m.depths.code, move⟩ := by
    rw [Expr.rename_marked]
    exact congrArg (fun place => e.rename ⟨m.depths.code, place⟩) (funext (Position.unmark_asNew move))
  rw [← machine, ← code] at ran
  exact ((commuting agrees' fuel).expr _).of_fault (m := m.marked) rfl ran

-- Where the tokens of an expression move, a fault in it moves along. A fault in what was there before stays.
theorem Machine.From.moved_fault (stands : m.From before) (inner : (Code.expr e).From own m.depths)
    (alike : m.Alike id n) {move : Position → Position}
    (moved : e'.rename ⟨n.depths.code, id⟩ = e.rename ⟨m.depths.code, move⟩) {f g : RuntimeFault}
    {after after' : Machine} (ran : e.evaluate fuel m = .error (.fault f) after)
    (ran' : e'.evaluate fuel n = .error (.fault g) after') :
    (before f.token.position ∧ m.Blames e (f.rename ⟨id, Position.asOld⟩) ∧ g = f) ∨
      (own f.token.position ∧ m.Blames e (f.rename ⟨id, Position.asNew⟩) ∧ g = f.rename ⟨id, move⟩) := by
  obtain ⟨table, agrees, agrees'⟩ := m.depths.common n.depths id
  have one := ((commuting agrees fuel).expr e).fault rfl ran
  have other := ((commuting agrees' fuel).expr e').fault rfl ran'
  rw [moved, ← alike.renamed table] at other
  obtain ⟨first, last, marked, same⟩ := Machine.marked_fault agrees id one
  obtain ⟨first', last', marked', same'⟩ := Machine.marked_fault agrees move other
  obtain rfl : first = first' := Halt.fault.inj (EStateM.Result.error.inj (marked.symm.trans marked')).1
  obtain ⟨cause, ⟨kind, lexeme, place⟩⟩ := first
  have blamed : m.Blames e ⟨cause, ⟨kind, lexeme, place⟩⟩ := ⟨fuel, last, marked⟩
  -- Both faults are the marked one, at another place.
  have here : f = ⟨cause, ⟨kind, lexeme, place.unmark id⟩⟩ := same
  have there : g = ⟨cause, ⟨kind, lexeme, place.unmark move⟩⟩ := same'
  rcases stands.marked_place inner marked with ⟨p, inside, rfl : place = _⟩ | ⟨p, inside, rfl : place = _⟩
  · rw [Position.unmark_asOld] at here there
    subst here
    exact .inl ⟨inside, blamed, there⟩
  · rw [Position.unmark_asNew] at here there
    subst here
    exact .inr ⟨inside, blamed, there⟩

end

end ScopeScript
