import ScopeScript.Running.Evaluate
import ScopeScript.Proofs.Scoping.Rename

namespace ScopeScript

-- Other routines in place of those that values run.
section

variable (g : Routine → Routine)

def Function.recast (f : Function) : Function := { f with routine := g f.routine }

def Lambda.recast (l : Lambda) : Lambda := { l with routine := g l.routine }

def Method.recast (m : Method) : Method := { m with routine := g m.routine }

def Class.recast (c : Class) : Class := { c with methods := c.methods.mapThings (Method.recast g) }

def Instance.recast (i : Instance) : Instance := { i with madeBy := i.madeBy.recast g }

def Callee.recast : Callee → Callee
  | .clock => .clock
  | .function f => .function (f.recast g)
  | .lambda l => .lambda (l.recast g)
  | .classes c => .classes (c.recast g)

def Value.recast : Value → Value
  | .callee c => .callee (c.recast g)
  | .instance i => .instance (i.recast g)
  | plain => plain

def Ending.recast : Ending → Ending
  | .giveBack v => .giveBack (v.recast g)
  | other => other

end

-- All that a value shows of a routine.
structure Routine.Alike (g : Routine → Routine) : Prop where
  name : ∀ r, (g r).name = r.name
  arity : ∀ r, (g r).arity = r.arity

section

variable {g : Routine → Routine}

theorem Routine.Alike.isInitializer (h : Routine.Alike g) (r : Routine) : (g r).isInitializer = r.isInitializer := by
  unfold Routine.isInitializer
  rw [h.name]

theorem Class.recast_initializer? (g : Routine → Routine) (c : Class) :
    (c.recast g).initializer? = c.initializer?.map (Method.recast g) :=
  Names.get?_mapThings _ _ _

theorem Callee.recast_arity (h : Routine.Alike g) (c : Callee) : (c.recast g).arity = c.arity := by
  cases c with
  | clock => rfl
  | function f => exact h.arity f.routine
  | lambda l => exact h.arity l.routine
  | classes c =>
    unfold recast arity
    dsimp only
    rw [Class.recast_initializer?]
    cases c.initializer? with
    | none => rfl
    | some m => exact h.arity m.routine

theorem Callee.recast_text (h : Routine.Alike g) (c : Callee) : (c.recast g).text = c.text := by
  cases c with
  | function f => exact congrArg (fun name => "<fn " ++ name ++ ">") (h.name f.routine)
  | _ => rfl

theorem Callee.recast_same (a b : Callee) : (a.recast g).same (b.recast g) = a.same b := by
  cases a <;> cases b <;> rfl

theorem Value.recast_holds (v : Value) : (v.recast g).holds = v.holds := by
  cases v <;> rfl

theorem Value.recast_text (h : Routine.Alike g) (v : Value) : (v.recast g).text = v.text := by
  cases v with
  | callee c => exact c.recast_text h
  | bool b => cases b <;> rfl
  | _ => rfl

theorem Value.recast_same (a b : Value) : (a.recast g).same (b.recast g) = a.same b := by
  cases a with
  | callee c =>
    cases b with
    | callee d => exact c.recast_same d
    | _ => rfl
  | _ => cases b <;> rfl

theorem Value.recast_callee? (v : Value) : (v.recast g).callee? = v.callee?.map (Callee.recast g) := by
  cases v <;> rfl

theorem Value.recast_ofLiteral (l : Literal) : (Value.ofLiteral l).recast g = .ofLiteral l := by
  cases l <;> rfl

theorem Ending.recast_result (e : Ending) : (e.recast g).result = e.result.recast g := by
  cases e <;> rfl

-- Operators look at no routine.

theorem unaryResult_recast (operator : Token) (v : Value) :
    unaryResult operator (v.recast g) = (unaryResult operator v).map (Value.recast g) := by
  unfold unaryResult
  rw [Value.recast_holds]
  split
  · cases v <;> rfl
  · split <;> rfl

theorem arithmetic_recast (operator : Token) (a b : Float) :
    arithmetic operator a b = (arithmetic operator a b).map (Value.recast g) := by
  unfold arithmetic
  split
  any_goals rfl
  split <;> rfl

theorem binaryResult_recast (operator : Token) (a b : Value) :
    binaryResult operator (a.recast g) (b.recast g) = (binaryResult operator a b).map (Value.recast g) := by
  unfold binaryResult
  split
  · exact congrArg (fun same => Except.ok (Value.bool same)) (Value.recast_same a b)
  · exact congrArg (fun same => Except.ok (Value.bool !same)) (Value.recast_same a b)
  · cases a <;> cases b <;> rfl
  · cases a <;> cases b <;> first | rfl | exact arithmetic_recast operator _ _

theorem decides_recast (operator : Token) (v : Value) : decides operator (v.recast g) = decides operator v := by
  unfold decides
  rw [Value.recast_holds]

-- The table of a class with other methods of the same names.
theorem methodTable_recast (h : Routine.Alike g) (closure : ScopeId) (methods : List Routine) (table : Names Method) :
    (methods.map g).foldl (fun table r => Names.put r.name (Method.mk r closure) table)
        (table.mapThings (Method.recast g)) =
      (methods.foldl (fun table r => Names.put r.name (Method.mk r closure) table) table).mapThings (Method.recast g) := by
  induction methods generalizing table with
  | nil => rfl
  | cons r rest ih =>
    rw [List.map_cons, List.foldl_cons, List.foldl_cons, h.name, ← ih, ← Names.put_mapThings (Method.recast g)]
    rfl

end

end ScopeScript
