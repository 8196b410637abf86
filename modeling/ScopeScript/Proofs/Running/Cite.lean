import ScopeScript.Proofs.Running.Bear

namespace ScopeScript

variable {known : Token → Prop}

def Class.Cites (known : Token → Prop) (c : Class) : Prop := ∀ row ∈ c.methods, row.2.routine.Cites known

def Callee.Cites (known : Token → Prop) : Callee → Prop
  | .clock => True
  | .function f => f.routine.Cites known
  | .lambda l => l.routine.Cites known
  | .classes c => c.Cites known

-- Whatever a value can be made to run consists of known tokens.
def Value.Cites (known : Token → Prop) : Value → Prop
  | .callee c => c.Cites known
  | .instance i => i.madeBy.Cites known
  | _ => True

structure Store.Cites (known : Token → Prop) (s : Store) : Prop where
  scopes : ∀ {scope name v}, s.own? scope name = some v → v.Cites known
  fields : ∀ {i name v}, s.field? i name = some v → v.Cites known

def Ending.Cites (known : Token → Prop) : Ending → Prop
  | .giveBack v => v.Cites known
  | _ => True

def Halt.Cites (known : Token → Prop) : Halt → Prop
  | .fault f => known f.token
  | .outOfFuel => True

def Code.Cites (known : Token → Prop) : Code → Prop
  | .expr e => e.Cites known
  | .stmt s => s.Cites known
  | .stmts ss => Stmt.CitesAll known ss
  | .routine _ r => r.Cites known

-- To consist of known tokens is to bear code that does.
theorem Routine.owned_cites {r : Routine} : r.Owned (Code.Cites known) ↔ r.Cites known :=
  ⟨fun ⟨_, cites⟩ => cites, fun cites => ⟨.function, cites⟩⟩

theorem Class.bears_cites {c : Class} : c.Bears (Code.Cites known) ↔ c.Cites known :=
  forall₂_congr fun _ _ => Routine.owned_cites

theorem Callee.bears_cites {c : Callee} : c.Bears (Code.Cites known) ↔ c.Cites known := by
  cases c with
  | clock => exact .rfl
  | function f => exact Routine.owned_cites
  | lambda l => exact Routine.owned_cites
  | classes c => exact Class.bears_cites

theorem Value.bears_cites {v : Value} : v.Bears (Code.Cites known) ↔ v.Cites known := by
  cases v with
  | callee c => exact Callee.bears_cites
  | nil | bool | number | string => exact .rfl
  | _ i => exact Class.bears_cites

theorem Ending.bears_cites {flow : Ending} : flow.Bears (Code.Cites known) ↔ flow.Cites known := by
  cases flow with
  | giveBack v => exact Value.bears_cites
  | normal | leave => exact .rfl

theorem Store.bears_cites {s : Store} : s.Bears (Code.Cites known) ↔ s.Cites known :=
  ⟨fun h => ⟨fun found => Value.bears_cites.mp (h.scopes found), fun found => Value.bears_cites.mp (h.fields found)⟩,
    fun h => ⟨fun found => Value.bears_cites.mpr (h.scopes found), fun found => Value.bears_cites.mpr (h.fields found)⟩⟩

theorem Expr.citesAll_iff (es : List Expr) : Expr.CitesAll known es ↔ ∀ e ∈ es, e.Cites known := by
  induction es with
  | nil => simp [Expr.CitesAll]
  | cons e rest ih => simp [Expr.CitesAll, ih]

theorem Expr.parts_cite {e : Expr} (cites : e.Cites known) : ∀ part ∈ e.parts, part.Cites known := by
  cases e with
  | literal | «variable» | this => exact nofun
  | grouping inner | lambda inner => exact List.forall_mem_singleton.mpr cites
  | unary _ inner | assign _ _ inner => exact List.forall_mem_singleton.mpr cites.2
  | get object name => exact List.forall_mem_singleton.mpr cites.1
  | binary left _ right | logical left _ right =>
    exact List.forall_mem_cons.mpr ⟨cites.1, List.forall_mem_singleton.mpr cites.2.2⟩
  | set object name value => exact List.forall_mem_cons.mpr ⟨cites.1.1, List.forall_mem_singleton.mpr cites.2⟩
  | call callee close es =>
    exact List.forall_mem_cons.mpr ⟨cites.1, List.forall_mem_map.mpr ((Expr.citesAll_iff es).mp cites.2.2)⟩

theorem Stmt.parts_cite {s : Stmt} (σ : Setting) (cites : s.Cites known) : ∀ T ∈ s.parts σ, T.code.Cites known := by
  cases s with
  | leave => exact nofun
  | expression inner | block inner | function inner => exact List.forall_mem_singleton.mpr cites
  | print keyword value => exact List.forall_mem_singleton.mpr cites.2
  | var name initial | giveBack name initial =>
    cases initial with
    | none => exact nofun
    | some e => exact List.forall_mem_singleton.mpr cites.2
  | loop condition body => exact List.forall_mem_cons.mpr ⟨cites.1, List.forall_mem_singleton.mpr cites.2⟩
  | branch condition yes no =>
    cases no with
    | none => exact List.forall_mem_cons.mpr ⟨cites.1, List.forall_mem_singleton.mpr cites.2⟩
    | some no =>
      exact List.forall_mem_cons.mpr ⟨cites.1, List.forall_mem_cons.mpr ⟨cites.2.1, List.forall_mem_singleton.mpr cites.2.2⟩⟩
  | classes name methods => exact List.forall_mem_map.mpr ((Routine.citesAll_iff known methods).mp cites.2)

theorem Code.cites_inherits : Code.Inherits (Code.Cites known) := by
  intro code cites
  refine List.forall_mem_map.mpr ?_
  cases code with
  | expr e => exact List.forall_mem_map.mpr (Expr.parts_cite cites)
  | stmt s => exact Stmt.parts_cite .outermost cites
  | stmts ss =>
    cases ss with
    | nil => exact nofun
    | cons s rest => exact List.forall_mem_cons.mpr ⟨cites.1, List.forall_mem_singleton.mpr cites.2⟩
  | routine kind r =>
    cases r with
    | mk head parameters body => exact List.forall_mem_singleton.mpr cites.2.2

theorem unaryResult_token {operator : Token} {v : Value} {f : RuntimeFault} (failed : unaryResult operator v = .error f) :
    f.token = operator := by
  unfold unaryResult at failed
  repeat' split at failed
  all_goals cases failed
  all_goals rfl

theorem arithmetic_token {operator : Token} {x y : Float} {f : RuntimeFault}
    (failed : arithmetic operator x y = .error f) : f.token = operator := by
  unfold arithmetic at failed
  repeat' split at failed
  all_goals cases failed
  all_goals rfl

theorem binaryResult_token {operator : Token} {a b : Value} {f : RuntimeFault}
    (failed : binaryResult operator a b = .error f) : f.token = operator := by
  unfold binaryResult at failed
  repeat' split at failed
  all_goals first | exact arithmetic_token failed | cases failed
  all_goals rfl

-- What code can be blamed for is said of a token of its own.
theorem Code.Cites.raises {code : Code} {f : RuntimeFault} (cites : code.Cites known) (raises : code.Raises f) :
    known f.token := by
  cases raises with
  | unary failed => exact unaryResult_token failed ▸ cites.1
  | binary failed => exact binaryResult_token failed ▸ cites.2.1
  | «variable» | this => exact cites
  | assign | print | classes => exact cites.1
  | callee | arity => exact cites.2.1
  | property | noProperties => exact cites.2
  | noFields => exact cites.1.2

theorem Halt.Raised.cites {halt : Halt} (h : halt.Raised (Code.Cites known)) : halt.Cites known := by
  cases halt with
  | outOfFuel => trivial
  | fault f =>
    obtain ⟨code, cites, raises⟩ := h
    exact cites.raises raises

-- From code of known tokens an action comes to such code, and it blames a known token if any.
def Running.Cites (known : Token → Prop) (x : Running α) (p : α → Prop) : Prop :=
  ∀ m : Machine, m.store.Cites known → match x m with
    | .ok a after => after.store.Cites known ∧ p a
    | .error halt after => after.store.Cites known ∧ halt.Cites known

theorem Running.Bears.cites {x : Running α} {p q : α → Prop} (h : Bears (Code.Cites known) x p) (same : ∀ a, p a → q a) :
    Cites known x q := by
  intro m held
  have given := h m (Store.bears_cites.mpr held)
  cases ran : x m with
  | ok a after =>
    simp only [ran] at given
    exact ⟨Store.bears_cites.mp given.1, same a given.2⟩
  | error halt after =>
    simp only [ran] at given
    exact ⟨Store.bears_cites.mp given.1, given.2.cites⟩

open Running (Cites)

structure RunsCite (known : Token → Prop) (fuel : Nat) : Prop where
  expr : ∀ {e : Expr}, e.Cites known → Cites known (e.evaluate fuel) (·.Cites known)
  exprs : ∀ {es}, Expr.CitesAll known es → Cites known (Expr.evaluateAll fuel es) fun vs => ∀ v ∈ vs, v.Cites known
  callee : ∀ {c : Callee} {values : List Value}, c.Cites known → (∀ v ∈ values, v.Cites known) →
    Cites known (c.call fuel values) (·.Cites known)
  routine : ∀ {r : Routine} {values : List Value} closure, r.Cites known → (∀ v ∈ values, v.Cites known) →
    Cites known (r.run fuel closure values) (·.Cites known)
  stmt : ∀ {s : Stmt}, s.Cites known → Cites known (s.execute fuel) (·.Cites known)
  stmts : ∀ {ss}, Stmt.CitesAll known ss → Cites known (Stmt.executeAll fuel ss) (·.Cites known)
  turn : ∀ {condition : Expr} {body : Stmt}, condition.Cites known → body.Cites known →
    Cites known (Stmt.turn fuel condition body) (·.Cites known)

theorem runs_cite (known : Token → Prop) (fuel : Nat) : RunsCite known fuel := by
  have h : RunsBear (Code.Cites known) fuel := runs_bear Code.cites_inherits fuel
  have value : ∀ v : Value, v.Bears (Code.Cites known) → v.Cites known := fun _ => Value.bears_cites.mp
  have ending : ∀ flow : Ending, flow.Bears (Code.Cites known) → flow.Cites known := fun _ => Ending.bears_cites.mp
  have bears : ∀ {values : List Value}, (∀ v ∈ values, v.Cites known) → ∀ v ∈ values, v.Bears (Code.Cites known) :=
    fun all v member => Value.bears_cites.mpr (all v member)
  exact {
    expr := fun cites => (h.expr cites).cites value
    exprs := fun {es} cites => (h.exprs ((Expr.citesAll_iff es).mp cites)).cites fun vs all v member => value v (all v member)
    callee := fun cites all => (h.callee (Callee.bears_cites.mpr cites) (bears all)).cites value
    routine := fun closure cites all => (h.routine closure (Routine.owned_cites.mpr cites) (bears all)).cites ending
    stmt := fun cites => (h.stmt cites).cites ending
    stmts := fun cites => (h.stmts cites).cites ending
    turn := fun asked inner => (h.turn asked inner).cites ending }

end ScopeScript
