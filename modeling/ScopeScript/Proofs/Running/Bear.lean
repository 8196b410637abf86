import ScopeScript.Running.Evaluate
import ScopeScript.Proofs.Running.Grow
import ScopeScript.Proofs.Scoping.Apt
import ScopeScript.Proofs.Scoping.Cite

namespace ScopeScript

-- What a single piece of code can be blamed for when it runs.
inductive Code.Raises : Code → RuntimeFault → Prop where
  | unary {operand : Expr} (failed : unaryResult operator v = .error f) : Raises (.expr (.unary operator operand)) f
  | binary (failed : binaryResult operator a b = .error f) : Raises (.expr (.binary left operator right)) f
  | variable : Raises (.expr (.variable i name)) ⟨.undefinedVariable, name⟩
  | assign : Raises (.expr (.assign i name value)) ⟨.undefinedVariable, name⟩
  | this : Raises (.expr (.this i keyword)) ⟨.undefinedVariable, keyword⟩
  | callee {es : List Expr} : Raises (.expr (.call called close es)) ⟨.notCallable, close⟩
  | arity {es : List Expr} : Raises (.expr (.call called close es)) ⟨.wrongArity expected given, close⟩
  | property : Raises (.expr (.get object name)) ⟨.undefinedProperty, name⟩
  | noProperties : Raises (.expr (.get object name)) ⟨.noProperties, name⟩
  | noFields : Raises (.expr (.set object name value)) ⟨.noFields, name⟩
  | print {failure : SinkFailure} : Raises (.stmt (.print keyword value)) ⟨.output failure, keyword⟩
  | classes {rs : List Routine} : Raises (.stmt (.classes name rs)) ⟨.undefinedVariable, name⟩

variable {owned : Code → Prop}

def Routine.Owned (owned : Code → Prop) (r : Routine) : Prop := ∃ kind, owned (.routine kind r)

def Class.Bears (owned : Code → Prop) (c : Class) : Prop := ∀ row ∈ c.methods, row.2.routine.Owned owned

def Callee.Bears (owned : Code → Prop) : Callee → Prop
  | .clock => True
  | .function f => f.routine.Owned owned
  | .lambda l => l.routine.Owned owned
  | .classes c => c.Bears owned

-- Whatever a value can be made to run is owned.
def Value.Bears (owned : Code → Prop) : Value → Prop
  | .callee c => c.Bears owned
  | .instance i => i.madeBy.Bears owned
  | _ => True

structure Store.Bears (owned : Code → Prop) (s : Store) : Prop where
  scopes : ∀ {scope name v}, s.own? scope name = some v → v.Bears owned
  fields : ∀ {i name v}, s.field? i name = some v → v.Bears owned

def Ending.Bears (owned : Code → Prop) : Ending → Prop
  | .giveBack v => v.Bears owned
  | _ => True

def Halt.Raised (owned : Code → Prop) : Halt → Prop
  | .fault f => ∃ code, owned code ∧ code.Raises f
  | .outOfFuel => True

theorem Ending.Bears.result {flow : Ending} (h : flow.Bears owned) : flow.result.Bears owned := by
  cases flow with
  | giveBack v => exact h
  | _ => trivial

theorem Value.Bears.ofLiteral (value : Literal) : (Value.ofLiteral value).Bears owned := by
  cases value <;> trivial

theorem Names.putAll_all {p : α → Prop} (key : β → String) (thing : β → α) {list : List β} {names : Names α}
    (h : ∀ row ∈ names, p row.2) (new : ∀ b ∈ list, p (thing b)) :
    ∀ row ∈ list.foldl (fun names b => names.put (key b) (thing b)) names, p row.2 := by
  induction list generalizing names with
  | nil => exact h
  | cons b rest ih =>
    obtain ⟨first, others⟩ := List.forall_mem_cons.mp new
    exact ih (Names.put_all h (key b) first) others

theorem parameterBindings_bear (ps : List Token) {values : List Value} (all : ∀ v ∈ values, v.Bears owned) :
    ∀ row ∈ parameterBindings ps values, row.2.Bears owned :=
  Names.putAll_all (fun pair : Token × Value => pair.1.lexeme) Prod.snd (fun _ absent => absurd absent List.not_mem_nil)
    fun pair member => all pair.2 (List.of_mem_zip member).2

namespace Store.Bears

variable {s : Store}

theorem empty : Store.empty.Bears owned := ⟨fun found => by simp [Store.own?, Store.empty] at found,
  fun found => by simp [Store.field?, Store.empty] at found⟩

theorem put (h : s.Bears owned) (scope : ScopeId) (name : String) {v : Value} (bears : v.Bears owned) :
    (s.put scope name v).Bears owned where
  scopes found := by
    rw [Store.own?_put] at found
    split at found
    · exact Option.some.inj found ▸ bears
    · exact h.scopes found
  fields found := h.fields found

theorem openScope (h : s.Bears owned) (outer : List ScopeId) {bindings : Names Value}
    (all : ∀ row ∈ bindings, row.2.Bears owned) : (s.openScope outer bindings).2.Bears owned where
  scopes found := by
    rw [Store.own?_openScope] at found
    split at found
    · exact Names.get?_all all found
    · exact h.scopes found
  fields found := h.fields found

theorem identity (h : s.Bears owned) : s.identity.2.Bears owned := ⟨h.scopes, h.fields⟩

theorem setField (h : s.Bears owned) (i : Instance) (name : String) {v : Value} (bears : v.Bears owned) :
    (s.setField i name v).Bears owned where
  scopes found := h.scopes found
  fields there := by
    rcases Store.field?_setField s name _ v there with rfl | before
    · exact bears
    · exact h.fields before

theorem newInstance (h : s.Bears owned) (c : Class) : (s.newInstance c).2.Bears owned where
  scopes found := h.scopes found
  fields there := h.fields (s.field?_newInstance _ there)

end Store.Bears

theorem Machine.start_bears (owned : Code → Prop) (sink : Sink) (clock : Nat) :
    (Machine.start sink clock).store.Bears owned :=
  Store.Bears.empty.openScope [] fun row member => by
    rw [List.mem_singleton.mp member]
    trivial

-- Plain data run nothing.
def Value.Simple : Value → Prop
  | .callee _ | .instance _ => False
  | _ => True

theorem Value.Simple.bears {v : Value} (simple : v.Simple) : v.Bears owned := by
  cases v with
  | callee | «instance» => exact simple.elim
  | _ => trivial

-- Operators make plain data.
def Simply : Except RuntimeFault Value → Prop
  | .ok v => v.Simple
  | .error _ => True

theorem unaryResult_simply (operator : Token) (v : Value) : Simply (unaryResult operator v) := by
  unfold unaryResult
  repeat' split
  all_goals trivial

theorem arithmetic_simply (operator : Token) (x y : Float) : Simply (arithmetic operator x y) := by
  unfold arithmetic
  repeat' split
  all_goals trivial

theorem binaryResult_simply (operator : Token) (a b : Value) : Simply (binaryResult operator a b) := by
  unfold binaryResult
  repeat' split
  all_goals first | exact arithmetic_simply operator _ _ | trivial

namespace Running

-- A store that bears owned code only is left such a store, and what halts the run owned code raises.
def Bears (owned : Code → Prop) (x : Running α) (p : α → Prop) : Prop :=
  ∀ m : Machine, m.store.Bears owned → match x m with
    | .ok a after => after.store.Bears owned ∧ p a
    | .error halt after => after.store.Bears owned ∧ halt.Raised owned

namespace Bears

variable {p : α → Prop} {q : β → Prop}

theorem pure {a : α} (h : p a) : Bears owned (Pure.pure a) p := fun _ bears => ⟨bears, h⟩

theorem outOfFuel : Bears owned (outOfFuel : Running α) p := fun _ bears => ⟨bears, trivial⟩

theorem fail {code : Code} (own : owned code) {cause : RuntimeCause} {t : Token} (raises : code.Raises ⟨cause, t⟩) :
    Bears owned (fail cause t : Running α) p := fun _ bears => ⟨bears, code, own, raises⟩

theorem bind {x : Running α} {k : α → Running β} (first : Bears owned x p) (next : ∀ a, p a → Bears owned (k a) q) :
    Bears owned (x >>= k) q := by
  intro m bears
  have given := first m bears
  show match EStateM.bind x k m with
    | .ok b after => after.store.Bears owned ∧ q b
    | .error halt after => after.store.Bears owned ∧ halt.Raised owned
  unfold EStateM.bind
  cases ran : x m with
  | ok a middle =>
    simp only [ran] at given
    exact next a given.2 middle given.1
  | error halt after => simpa only [ran] using given

theorem within {x : Running α} (inner : Bears owned x p) (scope : ScopeId) : Bears owned (within scope x) p := by
  intro m bears
  have given := inner { m with scope := scope } bears
  unfold Running.within
  dsimp only
  cases ran : x { m with scope := scope } with
  | ok a after => simpa only [ran] using given
  | error halt after => simpa only [ran] using given

theorem withStore {step : Store → α × Store}
    (h : ∀ s : Store, s.Bears owned → (step s).2.Bears owned ∧ p (step s).1) : Bears owned (withStore step) p :=
  fun m bears => h m.store bears

theorem currentScope : Bears owned currentScope fun _ => True := fun _ bears => ⟨bears, trivial⟩

theorem store : Bears owned store (·.Bears owned) := fun _ bears => ⟨bears, bears⟩

theorem bindHere (name : String) {v : Value} (bears : v.Bears owned) : Bears owned (bindHere name v) fun _ => True :=
  fun m h => ⟨h.put m.scope name bears, trivial⟩

theorem read {code : Code} (own : owned code) (i : RefId) {name : Token}
    (raises : code.Raises ⟨.undefinedVariable, name⟩) : Bears owned (read i name) (·.Bears owned) := by
  intro m bears
  unfold Running.read
  cases found : (m.target? i name.lexeme).bind fun scope => m.store.own? scope name.lexeme with
  | none => exact ⟨bears, code, own, raises⟩
  | some v =>
    obtain ⟨scope, _, bound⟩ := Option.bind_eq_some_iff.mp found
    exact ⟨bears, bears.scopes bound⟩

theorem rebind {code : Code} (own : owned code) (target : Option ScopeId) {name : Token}
    (raises : code.Raises ⟨.undefinedVariable, name⟩) {v : Value} (bears : v.Bears owned) :
    Bears owned (rebind target name v) fun _ => True := by
  intro m h
  cases target with
  | none => exact ⟨h, code, own, raises⟩
  | some scope => exact ⟨h.put scope name.lexeme bears, trivial⟩

theorem write {code : Code} (own : owned code) (i : RefId) {name : Token}
    (raises : code.Raises ⟨.undefinedVariable, name⟩) {v : Value} (bears : v.Bears owned) :
    Bears owned (write i name v) fun _ => True := fun m => rebind own _ raises bears m

theorem reassign {code : Code} (own : owned code) {name : Token} (raises : code.Raises ⟨.undefinedVariable, name⟩)
    {v : Value} (bears : v.Bears owned) : Bears owned (reassign name v) fun _ => True :=
  fun m => rebind own _ raises bears m

theorem print {code : Code} (own : owned code) {keyword : Token}
    (raises : ∀ failure, code.Raises ⟨.output failure, keyword⟩) (text : String) :
    Bears owned (print keyword text) fun _ => True := by
  intro m bears
  unfold Running.print
  dsimp only
  cases (m.sink.write text).1 with
  | none => exact ⟨bears, trivial⟩
  | some failure => exact ⟨bears, code, own, raises failure⟩

theorem seconds : Bears owned seconds (·.Bears owned) := fun _ bears => ⟨bears, trivial⟩

theorem ofExcept {code : Code} (own : owned code) {result : Except RuntimeFault Value} (simply : Simply result)
    (raises : ∀ f, result = .error f → code.Raises f) : Bears owned (ofExcept result) (·.Bears owned) := by
  cases result with
  | ok v => exact .pure (Value.Simple.bears simply)
  | error f => exact .fail own (raises f rfl)

-- A method stays the same with a receiver.
theorem attach (m : Method) {receiver : Instance} (bears : receiver.madeBy.Bears owned) :
    Bears owned (m.attach receiver) fun f => f.routine = m.routine :=
  .withStore fun s h => by
    have bound : ∀ row ∈ [(receiverName, Value.instance receiver)], row.2.Bears owned := by simpa [Value.Bears] using bears
    exact ⟨(h.openScope (s.chain m.closure) bound).identity, rfl⟩

theorem get {e : Expr} {name : Token} (own : owned (.expr (.get e name))) {i : Instance} (bears : i.madeBy.Bears owned) :
    Bears owned (i.get name) (·.Bears owned) := by
  refine .bind .store fun store h => ?_
  cases found : store.field? i name.lexeme with
  | some v => exact .pure (h.fields found)
  | none =>
    cases method : i.madeBy.methods.get? name.lexeme with
    | some m =>
      have runs : m.routine.Owned owned := Names.get?_all (p := fun m : Method => m.routine.Owned owned) bears method
      exact .bind (.attach m bears) fun f same => .pure (show f.routine.Owned owned from same ▸ runs)
    | none => exact .fail own .property

theorem receiver (f : Function) : Bears owned f.receiver (·.Bears owned) := by
  refine .bind .store fun store h => .pure ?_
  cases found : store.own? f.closure receiverName with
  | none => trivial
  | some v => exact h.scopes found

theorem making {make : ScopeId → Identity → Value} (bears : ∀ closure identity, (make closure identity).Bears owned) :
    Bears owned (do
      let closure ← Running.currentScope
      let identity ← Running.withStore Store.identity
      return make closure identity) (·.Bears owned) :=
  .bind .currentScope fun _ _ => .bind (.withStore (p := fun _ => True) fun _ h => ⟨h.identity, trivial⟩)
    fun _ _ => .pure (bears _ _)

theorem newClass (name : String) {methods : List Routine} (each : ∀ r ∈ methods, r.Owned owned) :
    Bears owned (newClass name methods) (·.Bears owned) :=
  making fun closure _ => Names.putAll_all (p := fun m : Method => m.routine.Owned owned) Routine.name (Method.mk · closure)
    (fun _ absent => absurd absent List.not_mem_nil) each

-- A call that goes on has as many values as its callee takes.
theorem checkedCall {e : Expr} {close : Token} {es : List Expr} (own : owned (.expr (.call e close es))) {callee : Value}
    (bears : callee.Bears owned) (values : List Value) :
    Bears owned (checkedCall close callee values) fun c => c.Bears owned ∧ values.length = c.arity := by
  unfold ScopeScript.checkedCall
  cases callee with
  | callee c =>
    dsimp only [Value.callee?]
    split
    case isTrue counted => exact .pure ⟨bears, counted⟩
    case isFalse => exact .fail own .arity
  | _ => exact .fail own .callee

theorem enterBlock : Bears owned enterBlock fun _ => True :=
  .bind .currentScope fun around _ => .withStore fun s h =>
    ⟨h.openScope (s.chain around) fun _ absent => absurd absent List.not_mem_nil, trivial⟩

theorem enterBody (r : Routine) (closure : ScopeId) {values : List Value} (all : ∀ v ∈ values, v.Bears owned) :
    Bears owned (enterBody r closure values) fun _ => True :=
  .withStore fun s h => ⟨h.openScope (s.chain closure) (parameterBindings_bear _ all), trivial⟩

end Bears

end Running

-- With code its parts are owned.
def Code.Inherits (owned : Code → Prop) : Prop := ∀ {code : Code}, owned code → ∀ part ∈ code.parts, owned part

theorem Code.Inherits.expr (h : Code.Inherits owned) {e : Expr} (own : owned (.expr e)) : ∀ part ∈ e.parts, owned part :=
  fun part member => h own part (by simpa [Code.parts, Spot.parts] using member)

theorem Code.Inherits.stmt (h : Code.Inherits owned) {s : Stmt} (own : owned (.stmt s)) :
    ∀ T ∈ s.parts .outermost, owned T.code := fun T member => h own T.code (List.mem_map_of_mem member)

open Running (Bears)

structure RunsBear (owned : Code → Prop) (fuel : Nat) : Prop where
  expr : ∀ {e : Expr}, owned (.expr e) → Bears owned (e.evaluate fuel) (·.Bears owned)
  exprs : ∀ {es}, (∀ e ∈ es, owned (.expr e)) →
    Bears owned (Expr.evaluateAll fuel es) fun vs => ∀ v ∈ vs, v.Bears owned
  callee : ∀ {c : Callee} {values : List Value}, c.Bears owned → (∀ v ∈ values, v.Bears owned) →
    Bears owned (c.call fuel values) (·.Bears owned)
  routine : ∀ {r : Routine} {values : List Value} closure, r.Owned owned → (∀ v ∈ values, v.Bears owned) →
    Bears owned (r.run fuel closure values) (·.Bears owned)
  stmt : ∀ {s : Stmt}, owned (.stmt s) → Bears owned (s.execute fuel) (·.Bears owned)
  stmts : ∀ {ss}, owned (.stmts ss) → Bears owned (Stmt.executeAll fuel ss) (·.Bears owned)
  turn : ∀ {condition : Expr} {body : Stmt}, owned (.expr condition) → owned (.stmt body) →
    Bears owned (Stmt.turn fuel condition body) (·.Bears owned)

namespace RunsBear

theorem zero : RunsBear owned 0 where
  expr _ := .outOfFuel
  exprs _ := .outOfFuel
  callee _ _ := .outOfFuel
  routine _ _ _ := .outOfFuel
  stmt _ := .outOfFuel
  stmts _ := .outOfFuel
  turn _ _ := .outOfFuel

variable {fuel : Nat}

theorem expr_succ (h : RunsBear owned fuel) (inherits : Code.Inherits owned) {e : Expr} (own : owned (.expr e)) :
    Bears owned (e.evaluate (fuel + 1)) (·.Bears owned) := by
  have inner := inherits.expr own
  cases e with
  | literal value => exact .pure (.ofLiteral value)
  | grouping e => exact h.expr (e := e) (inner _ List.mem_cons_self)
  | unary operator operand =>
    exact .bind (h.expr (inner _ List.mem_cons_self)) fun v _ =>
      .ofExcept own (unaryResult_simply operator v) fun f failed => .unary failed
  | binary left operator right =>
    obtain ⟨first, second⟩ : owned (.expr left) ∧ owned (.expr right) := by simpa [Expr.parts] using inner
    exact .bind (h.expr first) fun a _ => .bind (h.expr second) fun b _ =>
      .ofExcept own (binaryResult_simply operator a b) fun f failed => .binary failed
  | logical left operator right =>
    obtain ⟨first, second⟩ : owned (.expr left) ∧ owned (.expr right) := by simpa [Expr.parts] using inner
    refine .bind (h.expr first) fun a decided => ?_
    split
    · exact .pure decided
    · exact h.expr second
  | «variable» i name => exact .read own i .variable
  | assign i name value =>
    exact .bind (h.expr (inner _ List.mem_cons_self)) fun v given =>
      .bind (.write own i .assign given) fun _ _ => .pure given
  | call callee close es =>
    have each : ∀ e ∈ es, owned (.expr e) := fun e member => inner _ (List.mem_cons_of_mem _ (List.mem_map_of_mem member))
    exact .bind (h.expr (inner _ List.mem_cons_self)) fun f called => .bind (h.exprs each) fun values all =>
      .bind (.checkedCall own called values) fun c checked => h.callee checked.1 all
  | lambda routine => exact .making fun _ _ => ⟨.lambda, inner _ List.mem_cons_self⟩
  | get object name =>
    refine .bind (h.expr (inner _ List.mem_cons_self)) fun v given => ?_
    cases v with
    | nil | bool | number | string | callee => exact .fail own .noProperties
    | _ i => exact .get own given
  | set object name value =>
    obtain ⟨first, second⟩ : owned (.expr object) ∧ owned (.expr value) := by simpa [Expr.parts] using inner
    refine .bind (h.expr first) fun v given => ?_
    cases v with
    | nil | bool | number | string | callee => exact .fail own .noFields
    | _ i =>
      refine .bind (h.expr second) fun v stored => ?_
      exact .bind (.withStore (p := fun _ => True) fun s held => ⟨held.setField i name.lexeme stored, trivial⟩)
        fun _ _ => .pure stored
  | this i keyword => exact .read own i .this

theorem exprs_succ (h : RunsBear owned fuel) {es : List Expr} (each : ∀ e ∈ es, owned (.expr e)) :
    Bears owned (Expr.evaluateAll (fuel + 1) es) fun vs => ∀ v ∈ vs, v.Bears owned := by
  cases es with
  | nil => exact .pure fun _ absent => absurd absent List.not_mem_nil
  | cons e rest =>
    obtain ⟨first, others⟩ := List.forall_mem_cons.mp each
    exact .bind (h.expr first) fun v here => .bind (h.exprs others) fun vs there =>
      .pure (List.forall_mem_cons.mpr ⟨here, there⟩)

theorem callee_succ (h : RunsBear owned fuel) {c : Callee} {values : List Value} (bears : c.Bears owned)
    (all : ∀ v ∈ values, v.Bears owned) : Bears owned (c.call (fuel + 1) values) (·.Bears owned) := by
  cases c with
  | clock => exact .seconds
  | function f =>
    refine .bind (h.routine _ bears all) fun flow given => ?_
    split
    · exact .receiver f
    · exact .pure given.result
  | lambda l => exact .bind (h.routine _ bears all) fun flow given => .pure given.result
  | classes c =>
    refine .bind (.withStore (p := fun i => i.madeBy.Bears owned) fun s held => ⟨held.newInstance c, bears⟩)
      fun i made => ?_
    cases found : c.initializer? with
    | none => exact .pure made
    | some m =>
      have runs : m.routine.Owned owned := Names.get?_all (p := fun m : Method => m.routine.Owned owned) bears found
      refine .bind (.attach m made) fun f same => ?_
      have bound : f.routine.Owned owned := same ▸ runs
      exact .bind (h.callee (c := .function f) bound all) fun _ _ => .pure made

theorem routine_succ (h : RunsBear owned fuel) (inherits : Code.Inherits owned) {r : Routine} {values : List Value}
    (closure : ScopeId) (own : r.Owned owned) (all : ∀ v ∈ values, v.Bears owned) :
    Bears owned (r.run (fuel + 1) closure values) (·.Bears owned) := by
  obtain ⟨kind, here⟩ := own
  exact .bind (.enterBody r closure all) fun scope _ => .within (h.stmts (inherits here _ List.mem_cons_self)) scope

theorem stmt_succ (h : RunsBear owned fuel) (inherits : Code.Inherits owned) {s : Stmt} (own : owned (.stmt s)) :
    Bears owned (s.execute (fuel + 1)) (·.Bears owned) := by
  have inner := inherits.stmt own
  cases s with
  | expression value => exact .bind (h.expr (inner _ List.mem_cons_self)) fun _ _ => .pure trivial
  | print keyword value =>
    exact .bind (h.expr (inner _ List.mem_cons_self)) fun v _ =>
      .bind (.print own (fun _ => .print) _) fun _ _ => .pure trivial
  | var name initial =>
    cases initial with
    | none => exact .bind (.bindHere _ trivial) fun _ _ => .pure trivial
    | some e =>
      exact .bind (h.expr (inner _ List.mem_cons_self)) fun v given => .bind (.bindHere _ given) fun _ _ => .pure trivial
  | block body => exact .bind .enterBlock fun scope _ => .within (h.stmts (inner _ List.mem_cons_self)) scope
  | branch condition yes no =>
    cases no with
    | none =>
      obtain ⟨asked, one⟩ : owned (.expr condition) ∧ owned (.stmt yes) := by simpa [Stmt.parts] using inner
      refine .bind (h.expr asked) fun v _ => ?_
      split
      · exact h.stmt one
      · exact .pure trivial
    | some no =>
      obtain ⟨asked, one, other⟩ : owned (.expr condition) ∧ owned (.stmt yes) ∧ owned (.stmt no) := by
        simpa [Stmt.parts] using inner
      refine .bind (h.expr asked) fun v _ => ?_
      split
      · exact h.stmt one
      · exact h.stmt other
  | loop condition body =>
    obtain ⟨asked, turns⟩ : owned (.expr condition) ∧ owned (.stmt body) := by simpa [Stmt.parts] using inner
    exact h.turn asked turns
  | leave keyword => exact .pure trivial
  | function routine =>
    exact .bind (.making fun _ _ => ⟨.function, inner _ List.mem_cons_self⟩) fun f made =>
      .bind (.bindHere _ made) fun _ _ => .pure trivial
  | giveBack keyword value =>
    cases value with
    | none => exact .pure trivial
    | some e => exact .bind (h.expr (inner _ List.mem_cons_self)) fun v given => .pure given
  | classes name methods =>
    have each : ∀ r ∈ methods, r.Owned owned := fun r member => ⟨r.methodKind, inner _ (List.mem_map_of_mem member)⟩
    exact .bind (.bindHere _ trivial) fun _ _ => .bind (.newClass _ each) fun v made =>
      .bind (.reassign own .classes made) fun _ _ => .pure trivial

theorem stmts_succ (h : RunsBear owned fuel) (inherits : Code.Inherits owned) {ss : List Stmt} (own : owned (.stmts ss)) :
    Bears owned (Stmt.executeAll (fuel + 1) ss) (·.Bears owned) := by
  cases ss with
  | nil => exact .pure trivial
  | cons s rest =>
    have first : owned (.stmt s) := inherits own _ List.mem_cons_self
    have others : owned (.stmts rest) := inherits own _ (List.mem_cons_of_mem _ List.mem_cons_self)
    refine .bind (h.stmt first) fun flow given => ?_
    cases flow with
    | normal => exact h.stmts others
    | leave => exact .pure trivial
    | giveBack v => exact .pure given

theorem turn_succ (h : RunsBear owned fuel) {condition : Expr} {body : Stmt} (asked : owned (.expr condition))
    (inner : owned (.stmt body)) : Bears owned (Stmt.turn (fuel + 1) condition body) (·.Bears owned) := by
  refine .bind (h.expr asked) fun v _ => ?_
  split
  · refine .bind (h.stmt inner) fun flow given => ?_
    cases flow with
    | normal => exact h.turn asked inner
    | leave => exact .pure trivial
    | giveBack v => exact .pure given
  · exact .pure trivial

end RunsBear

-- A run that starts from owned code stays in it.
theorem runs_bear (inherits : Code.Inherits owned) (fuel : Nat) : RunsBear owned fuel := by
  induction fuel with
  | zero => exact .zero
  | succ fuel ih =>
    exact ⟨ih.expr_succ inherits, ih.exprs_succ, ih.callee_succ, ih.routine_succ inherits, ih.stmt_succ inherits,
      ih.stmts_succ inherits, ih.turn_succ⟩

end ScopeScript
