import ScopeScript.Proofs.Running.Rename

namespace ScopeScript

-- A new id stands for what the old one stood for.
def Renaming.Agrees (ρ : Renaming) (old new : Depths) : Prop := ∀ i, new[ρ.ref i]? = old[i]?

-- What no run changes.
structure Machine.Keeps (m after : Machine) : Prop where
  depths : after.depths = m.depths
  flushFails : after.sink.flushFails = m.sink.flushFails
  limit : after.sink.limit = m.sink.limit

theorem Machine.Keeps.refl (m : Machine) : m.Keeps m := ⟨rfl, rfl, rfl⟩

theorem Machine.Keeps.trans {m middle after : Machine} (first : m.Keeps middle) (second : middle.Keeps after) :
    m.Keeps after :=
  ⟨second.depths.trans first.depths, second.flushFails.trans first.flushFails, second.limit.trans first.limit⟩

theorem Machine.rename_put (m : Machine) (ρ : Renaming) (new : Depths) (scope : ScopeId) (name : String) (v : Value) :
    ({ m.rename ρ new with store := (m.store.rename ρ).put scope name (v.rename ρ) } : Machine) =
      Machine.rename ρ new { m with store := m.store.put scope name v } := by
  rw [Store.rename_put]
  rfl

theorem Sink.write_kept (s : Sink) (text : String) :
    (s.write text).2.flushFails = s.flushFails ∧ (s.write text).2.limit = s.limit := by
  unfold write
  dsimp only
  split
  · exact ⟨rfl, rfl⟩
  · split <;> exact ⟨rfl, rfl⟩

namespace Running

-- The second action does on the renamed machine what the first one does.
def Renames (ρ : Renaming) (old new : Depths) (f : α → β) (x : Running α) (y : Running β) : Prop :=
  ∀ m, m.depths = old → match x m with
    | .ok result after => m.Keeps after ∧ y (m.rename ρ new) = .ok (f result) (after.rename ρ new)
    | .error halt after => m.Keeps after ∧ y (m.rename ρ new) = .error (halt.rename ρ) (after.rename ρ new)

namespace Renames

variable {ρ : Renaming} {old new : Depths}

theorem pure {f : α → β} {a : α} {b : β} (same : f a = b) : Renames ρ old new f (Pure.pure a) (Pure.pure b) :=
  fun m _ => ⟨.refl m, same ▸ rfl⟩

theorem bind {x : Running α} {y : Running β} {f : α → β} {k : α → Running γ} {l : β → Running δ} {g : γ → δ}
    (first : Renames ρ old new f x y) (next : ∀ a, Renames ρ old new g (k a) (l (f a))) :
    Renames ρ old new g (x >>= k) (y >>= l) := by
  intro m kept
  have given := first m kept
  show match EStateM.bind x k m with
    | .ok result after => _ ∧ EStateM.bind y l _ = _
    | .error halt after => _ ∧ EStateM.bind y l _ = _
  unfold EStateM.bind
  cases ran : x m with
  | ok a middle =>
    rw [ran] at given
    rw [given.2]
    have later := next a middle (given.1.depths.trans kept)
    dsimp only
    cases went : k a middle with
    | ok b after =>
      rw [went] at later
      exact ⟨given.1.trans later.1, later.2⟩
    | error halt after =>
      rw [went] at later
      exact ⟨given.1.trans later.1, later.2⟩
  | error halt after =>
    rw [ran] at given
    rw [given.2]
    exact ⟨given.1, rfl⟩

theorem outOfFuel {f : α → β} : Renames ρ old new f outOfFuel outOfFuel := fun m _ => ⟨.refl m, rfl⟩

theorem fail {f : α → β} (cause : RuntimeCause) (t : Token) :
    Renames ρ old new f (Running.fail cause t) (Running.fail cause (t.rename ρ)) := fun m _ => ⟨.refl m, rfl⟩

theorem currentScope : Renames ρ old new id currentScope currentScope := fun m _ => ⟨.refl m, rfl⟩

theorem store : Renames ρ old new (Store.rename ρ) store store := fun m _ => ⟨.refl m, rfl⟩

theorem withStore {f : α → β} {step : Store → α × Store} {step' : Store → β × Store}
    (same : ∀ s, step' (s.rename ρ) = (f (step s).1, (step s).2.rename ρ)) :
    Renames ρ old new f (withStore step) (withStore step') := by
  intro m kept
  refine ⟨⟨rfl, rfl, rfl⟩, ?_⟩
  show EStateM.Result.ok (step' (m.store.rename ρ)).1 { m.rename ρ new with store := (step' (m.store.rename ρ)).2 } = _
  rw [same]
  rfl

theorem within {x : Running α} {y : Running β} {f : α → β} (inner : Renames ρ old new f x y) (scope : ScopeId) :
    Renames ρ old new f (within scope x) (within scope y) := by
  intro m kept
  have given := inner { m with scope := scope } kept
  have moved : ({ m.rename ρ new with scope := scope } : Machine) = Machine.rename ρ new { m with scope := scope } := rfl
  unfold Running.within
  dsimp only
  rw [moved]
  cases ran : x { m with scope := scope } with
  | ok a after =>
    rw [ran] at given
    rw [given.2]
    exact ⟨⟨given.1.depths, given.1.flushFails, given.1.limit⟩, rfl⟩
  | error halt after =>
    rw [ran] at given
    rw [given.2]
    exact ⟨⟨given.1.depths, given.1.flushFails, given.1.limit⟩, rfl⟩

theorem bindHere (name : String) (v : Value) :
    Renames ρ old new id (bindHere name v) (Running.bindHere name (v.rename ρ)) := by
  intro m kept
  exact ⟨⟨rfl, rfl, rfl⟩, congrArg (EStateM.Result.ok ()) (m.rename_put ρ new m.scope name v)⟩

theorem target (agrees : ρ.Agrees old new) {m : Machine} (kept : m.depths = old) (i : RefId) (name : String) :
    (m.rename ρ new).target? (ρ.ref i) name = m.target? i name := by
  unfold Machine.target? Machine.rename
  dsimp only
  rw [agrees i, kept]
  cases old[i]? with
  | none => exact Store.rename_binder? _ _ _ _
  | some depth => exact Store.rename_binderAt? _ _ _ _ _

theorem read (agrees : ρ.Agrees old new) (i : RefId) (name : Token) :
    Renames ρ old new (Value.rename ρ) (read i name) (Running.read (ρ.ref i) (name.rename ρ)) := by
  intro m kept
  unfold Running.read
  rw [Token.rename_lexeme, target agrees kept]
  have found : ((m.target? i name.lexeme).bind fun scope => (m.rename ρ new).store.own? scope name.lexeme) =
      ((m.target? i name.lexeme).bind fun scope => m.store.own? scope name.lexeme).map (Value.rename ρ) := by
    cases m.target? i name.lexeme with
    | none => rfl
    | some scope => exact Store.rename_own? _ _ _ _
  rw [found]
  cases (m.target? i name.lexeme).bind fun scope => m.store.own? scope name.lexeme with
  | none => exact ⟨.refl m, rfl⟩
  | some v => exact ⟨.refl m, rfl⟩

theorem rebind (target : Option ScopeId) (name : Token) (v : Value) :
    Renames ρ old new id (rebind target name v) (Running.rebind target (name.rename ρ) (v.rename ρ)) := by
  intro m kept
  cases target with
  | none => exact ⟨.refl m, rfl⟩
  | some scope => exact ⟨⟨rfl, rfl, rfl⟩, congrArg (EStateM.Result.ok ()) (m.rename_put ρ new scope name.lexeme v)⟩

theorem write (agrees : ρ.Agrees old new) (i : RefId) (name : Token) (v : Value) :
    Renames ρ old new id (write i name v) (Running.write (ρ.ref i) (name.rename ρ) (v.rename ρ)) := by
  intro m kept
  have bound : Renames ρ old new id (Running.rebind (m.target? i name.lexeme) name v) _ := rebind _ name v
  have given := bound m kept
  unfold Running.write
  rwa [Token.rename_lexeme, target agrees kept]

theorem reassign (name : Token) (v : Value) :
    Renames ρ old new id (reassign name v) (Running.reassign (name.rename ρ) (v.rename ρ)) := by
  intro m kept
  have bound : Renames ρ old new id (Running.rebind (m.store.binder? m.scope name.lexeme) name v) _ := rebind _ name v
  have given := bound m kept
  unfold Running.reassign
  rwa [Token.rename_lexeme, show (m.rename ρ new).store.binder? (m.rename ρ new).scope name.lexeme =
    m.store.binder? m.scope name.lexeme from Store.rename_binder? _ _ _ _]

theorem print (keyword : Token) (text : String) :
    Renames ρ old new id (print keyword text) (Running.print (keyword.rename ρ) text) := by
  intro m kept
  unfold Running.print
  rw [show (m.rename ρ new).sink = m.sink from rfl]
  dsimp only
  have keeps : m.Keeps { m with sink := (m.sink.write text).2 } := ⟨rfl, (m.sink.write_kept text).1, (m.sink.write_kept text).2⟩
  cases (m.sink.write text).1 with
  | none => exact ⟨keeps, rfl⟩
  | some failure => exact ⟨keeps, rfl⟩

-- The end of a program stands in front of every place.
theorem flush (front : ρ.place ⟨0, 0⟩ = ⟨0, 0⟩) : Renames ρ old new id flush flush := by
  intro m kept
  unfold Running.flush
  rw [show (m.rename ρ new).sink = m.sink from rfl]
  cases m.sink.flush with
  | none => exact ⟨.refl m, rfl⟩
  | some failure =>
    refine ⟨.refl m, ?_⟩
    simp only [Halt.rename, RuntimeFault.rename, Token.rename, front]

theorem seconds : Renames ρ old new (Value.rename ρ) seconds seconds := fun _ _ => ⟨⟨rfl, rfl, rfl⟩, rfl⟩

theorem unary (operator : Token) (v : Value) : Renames ρ old new (Value.rename ρ) (ofExcept (unaryResult operator v))
    (ofExcept (unaryResult (operator.rename ρ) (v.rename ρ))) := by
  unfold unaryResult
  rw [show (operator.rename ρ).isMark .minus = operator.isMark .minus from rfl,
    show (operator.rename ρ).isMark .bang = operator.isMark .bang from rfl, Value.rename_holds]
  split
  · cases v <;> exact fun m _ => ⟨.refl m, rfl⟩
  · split
    · exact .pure rfl
    · exact .fail _ _

theorem arithmetic (operator : Token) (a b : Float) : Renames ρ old new (Value.rename ρ)
    (ofExcept (arithmetic operator a b)) (ofExcept (arithmetic (operator.rename ρ) a b)) := by
  unfold ScopeScript.arithmetic
  rw [Token.rename_kind]
  split
  any_goals exact .pure rfl
  · split
    · exact .fail _ _
    · exact .pure rfl
  · exact .fail _ _

theorem binary (operator : Token) (a b : Value) : Renames ρ old new (Value.rename ρ) (ofExcept (binaryResult operator a b))
    (ofExcept (binaryResult (operator.rename ρ) (a.rename ρ) (b.rename ρ))) := by
  unfold binaryResult
  rw [Token.rename_kind]
  split
  · exact .pure (by rw [Value.rename_same]; rfl)
  · exact .pure (by rw [Value.rename_same]; rfl)
  · cases a <;> cases b <;> first | exact .pure rfl | exact .fail _ _
  · cases a <;> cases b <;> first | exact .fail _ _ | exact .arithmetic operator _ _

theorem checkedCall (close : Token) (v : Value) (values : List Value) :
    Renames ρ old new (Callee.rename ρ) (checkedCall close v values)
      (ScopeScript.checkedCall (close.rename ρ) (v.rename ρ) (values.map (Value.rename ρ))) := by
  unfold ScopeScript.checkedCall
  rw [Value.rename_callee?, List.length_map]
  cases v.callee? with
  | none => exact .fail _ _
  | some c =>
    dsimp only [Option.map_some]
    rw [Callee.rename_arity]
    split
    · exact .pure rfl
    · exact .fail _ _

theorem attach (m : Method) (i : Instance) :
    Renames ρ old new (Function.rename ρ) (m.attach i) ((m.rename ρ).attach (i.rename ρ)) := by
  refine .withStore fun s => ?_
  have opened : (s.rename ρ).openWithin m.closure [(receiverName, .instance (i.rename ρ))] = _ :=
    s.rename_openWithin ρ m.closure [(receiverName, .instance i)]
  simp only [Method.rename, opened, Routine.rename_isInitializer]
  rfl

theorem get (i : Instance) (name : Token) :
    Renames ρ old new (Value.rename ρ) (i.get name) ((i.rename ρ).get (name.rename ρ)) := by
  refine .bind .store fun s => ?_
  rw [Token.rename_lexeme, Store.rename_field?]
  cases s.field? i name.lexeme with
  | some v => exact .pure rfl
  | none =>
    rw [show (i.rename ρ).madeBy.methods.get? name.lexeme = _ from Names.get?_mapThings _ _ _]
    cases i.madeBy.methods.get? name.lexeme with
    | none => exact .fail _ _
    | some m => exact .bind (.attach m i) fun f => .pure rfl

theorem receiver (f : Function) : Renames ρ old new (Value.rename ρ) f.receiver (f.rename ρ).receiver := by
  refine .bind .store fun s => .pure ?_
  rw [show (f.rename ρ).closure = f.closure from rfl, Store.rename_own?]
  cases s.own? f.closure receiverName <;> rfl

theorem identity : Renames ρ old new id (Running.withStore Store.identity) (Running.withStore Store.identity) :=
  .withStore fun _ => rfl

theorem newFunction (r : Routine) :
    Renames ρ old new (Value.rename ρ) (newFunction r) (ScopeScript.newFunction (r.rename ρ)) :=
  .bind .currentScope fun _ => .bind .identity fun _ => .pure rfl

theorem newLambda (r : Routine) :
    Renames ρ old new (Value.rename ρ) (newLambda r) (ScopeScript.newLambda (r.rename ρ)) :=
  .bind .currentScope fun _ => .bind .identity fun _ => .pure rfl

theorem methodTable (closure : ScopeId) (methods : List Routine) (table : Names Method) :
    (Routine.renameAll ρ methods).foldl (fun table r => Names.put r.name (Method.mk r closure) table)
        (table.mapThings (Method.rename ρ)) =
      (methods.foldl (fun table r => Names.put r.name (Method.mk r closure) table) table).mapThings (Method.rename ρ) := by
  induction methods generalizing table with
  | nil => rfl
  | cons r rest ih =>
    rw [Routine.renameAll, List.foldl_cons, List.foldl_cons, Routine.rename_name, ← ih,
      ← Names.put_mapThings (Method.rename ρ)]
    rfl

theorem newClass (name : String) (methods : List Routine) : Renames ρ old new (Value.rename ρ) (newClass name methods)
    (ScopeScript.newClass name (Routine.renameAll ρ methods)) := by
  refine .bind .currentScope fun closure => .bind .identity fun identity => .pure ?_
  exact congrArg (fun table => Value.callee (.classes ⟨identity, name, table⟩)) (methodTable closure methods []).symm

theorem enterBlock : Renames ρ old new id enterBlock enterBlock :=
  .bind .currentScope fun around => .withStore fun s => s.rename_openWithin ρ around []

theorem bindings (pairs : List (Token × Value)) (names : Names Value) :
    (pairs.map (Prod.map (Token.rename ρ) (Value.rename ρ))).foldl (fun names pair => names.put pair.1.lexeme pair.2)
        (names.mapThings (Value.rename ρ)) =
      (pairs.foldl (fun names pair => names.put pair.1.lexeme pair.2) names).mapThings (Value.rename ρ) := by
  induction pairs generalizing names with
  | nil => rfl
  | cons pair rest ih =>
    rw [List.map_cons, List.foldl_cons, List.foldl_cons, ← ih, ← Names.put_mapThings (Value.rename ρ)]
    rfl

theorem enterBody (r : Routine) (closure : ScopeId) (values : List Value) : Renames ρ old new id
    (enterBody r closure values) (ScopeScript.enterBody (r.rename ρ) closure (values.map (Value.rename ρ))) := by
  refine .withStore fun s => ?_
  have met : parameterBindings (r.rename ρ).parameters (values.map (Value.rename ρ)) =
      (parameterBindings r.parameters values).mapThings (Value.rename ρ) := by
    unfold parameterBindings
    rw [Routine.rename_parameters, List.zip_map]
    exact bindings _ []
  rw [met]
  exact s.rename_openWithin ρ closure _

end Renames

end Running

open Running (Renames)

-- Running renamed code on the renamed machine comes to the same, renamed.
structure Commuting (ρ : Renaming) (old new : Depths) (fuel : Nat) : Prop where
  expr : ∀ e : Expr, Renames ρ old new (Value.rename ρ) (e.evaluate fuel) ((e.rename ρ).evaluate fuel)
  exprs : ∀ es, Renames ρ old new (List.map (Value.rename ρ)) (Expr.evaluateAll fuel es)
    (Expr.evaluateAll fuel (Expr.renameAll ρ es))
  callee : ∀ (c : Callee) values, Renames ρ old new (Value.rename ρ) (c.call fuel values)
    ((c.rename ρ).call fuel (values.map (Value.rename ρ)))
  routine : ∀ (r : Routine) closure values, Renames ρ old new (Ending.rename ρ) (r.run fuel closure values)
    ((r.rename ρ).run fuel closure (values.map (Value.rename ρ)))
  stmt : ∀ s : Stmt, Renames ρ old new (Ending.rename ρ) (s.execute fuel) ((s.rename ρ).execute fuel)
  stmts : ∀ ss, Renames ρ old new (Ending.rename ρ) (Stmt.executeAll fuel ss)
    (Stmt.executeAll fuel (Stmt.renameAll ρ ss))
  turn : ∀ condition body, Renames ρ old new (Ending.rename ρ) (Stmt.turn fuel condition body)
    (Stmt.turn fuel (condition.rename ρ) (body.rename ρ))

namespace Commuting

variable {ρ : Renaming} {old new : Depths} {fuel : Nat}

theorem zero : Commuting ρ old new 0 where
  expr _ := .outOfFuel
  exprs _ := .outOfFuel
  callee _ _ := .outOfFuel
  routine _ _ _ := .outOfFuel
  stmt _ := .outOfFuel
  stmts _ := .outOfFuel
  turn _ _ := .outOfFuel

theorem expr_succ (agrees : ρ.Agrees old new) (h : Commuting ρ old new fuel) (e : Expr) :
    Renames ρ old new (Value.rename ρ) (e.evaluate (fuel + 1)) ((e.rename ρ).evaluate (fuel + 1)) := by
  cases e with
  | literal value => exact .pure (Value.rename_ofLiteral ρ value)
  | grouping inner => exact h.expr inner
  | unary operator operand => exact .bind (h.expr operand) fun v => .unary operator v
  | binary left operator right =>
    exact .bind (h.expr left) fun a => .bind (h.expr right) fun b => .binary operator a b
  | logical left operator right =>
    refine .bind (h.expr left) fun a => ?_
    rw [show decides (operator.rename ρ) (a.rename ρ) = decides operator a by
      unfold decides; rw [Value.rename_holds]; rfl]
    split
    · exact .pure rfl
    · exact h.expr right
  | assign i name value =>
    exact .bind (h.expr value) fun v => .bind (.write agrees i name v) fun _ => .pure rfl
  | call callee close arguments =>
    exact .bind (h.expr callee) fun v => .bind (h.exprs arguments) fun values =>
      .bind (.checkedCall close v values) fun c => h.callee c values
  | lambda routine => exact .newLambda routine
  | get object name =>
    refine .bind (h.expr object) fun v => ?_
    cases v with
    | nil | bool | number | string | callee => exact .fail _ _
    | _ i => exact .get i name
  | set object name value =>
    refine .bind (h.expr object) fun v => ?_
    cases v with
    | nil | bool | number | string | callee => exact .fail _ _
    | _ i =>
      exact .bind (h.expr value) fun v => .bind (.withStore (f := id) fun s =>
        congrArg (Prod.mk ()) (s.rename_setField ρ i name.lexeme v)) fun _ => .pure rfl
  | this i keyword => exact .read agrees i keyword
  | _ i name => exact .read agrees i name

theorem exprs_succ (h : Commuting ρ old new fuel) (es : List Expr) :
    Renames ρ old new (List.map (Value.rename ρ)) (Expr.evaluateAll (fuel + 1) es)
      (Expr.evaluateAll (fuel + 1) (Expr.renameAll ρ es)) := by
  cases es with
  | nil => exact .pure rfl
  | cons e rest => exact .bind (h.expr e) fun _ => .bind (h.exprs rest) fun _ => .pure rfl

theorem callee_succ (h : Commuting ρ old new fuel) (c : Callee) (values : List Value) :
    Renames ρ old new (Value.rename ρ) (c.call (fuel + 1) values)
      ((c.rename ρ).call (fuel + 1) (values.map (Value.rename ρ))) := by
  cases c with
  | clock => exact .seconds
  | function f =>
    refine .bind (h.routine f.routine f.closure values) fun flow => ?_
    rw [show (f.rename ρ).initializer = f.initializer from rfl]
    split
    · exact .receiver f
    · exact .pure (flow.rename_result ρ).symm
  | lambda l => exact .bind (h.routine l.routine l.closure values) fun flow => .pure (flow.rename_result ρ).symm
  | classes c =>
    refine .bind (.withStore fun s => s.rename_newInstance ρ c) fun i => ?_
    rw [Class.rename_initializer?]
    cases c.initializer? with
    | none => exact .pure rfl
    | some m => exact .bind (.attach m i) fun f => .bind (h.callee (.function f) values) fun _ => .pure rfl

theorem routine_succ (h : Commuting ρ old new fuel) (r : Routine) (closure : ScopeId) (values : List Value) :
    Renames ρ old new (Ending.rename ρ) (r.run (fuel + 1) closure values)
      ((r.rename ρ).run (fuel + 1) closure (values.map (Value.rename ρ))) := by
  refine .bind (.enterBody r closure values) fun scope => ?_
  rw [Routine.rename_body]
  exact .within (h.stmts r.body) scope

theorem stmt_succ (h : Commuting ρ old new fuel) (s : Stmt) :
    Renames ρ old new (Ending.rename ρ) (s.execute (fuel + 1)) ((s.rename ρ).execute (fuel + 1)) := by
  cases s with
  | expression value => exact .bind (h.expr value) fun _ => .pure rfl
  | print keyword value =>
    refine .bind (h.expr value) fun v => ?_
    rw [Value.rename_text]
    exact .bind (.print keyword _) fun _ => .pure rfl
  | var name initial =>
    cases initial with
    | none => exact .bind (.bindHere name.lexeme .nil) fun _ => .pure rfl
    | some e => exact .bind (h.expr e) fun v => .bind (.bindHere name.lexeme v) fun _ => .pure rfl
  | block body => exact .bind .enterBlock fun scope => .within (h.stmts body) scope
  | branch condition yes no =>
    cases no with
    | none =>
      refine .bind (h.expr condition) fun v => ?_
      rw [Value.rename_holds]
      split
      · exact h.stmt yes
      · exact .pure rfl
    | some no =>
      refine .bind (h.expr condition) fun v => ?_
      rw [Value.rename_holds]
      split
      · exact h.stmt yes
      · exact h.stmt no
  | loop condition body => exact h.turn condition body
  | leave keyword => exact .pure rfl
  | function routine =>
    refine .bind (.newFunction routine) fun v => ?_
    rw [Routine.rename_name]
    exact .bind (.bindHere routine.name v) fun _ => .pure rfl
  | giveBack keyword value =>
    cases value with
    | none => exact .pure rfl
    | some e => exact .bind (h.expr e) fun _ => .pure rfl
  | classes name methods =>
    exact .bind (.bindHere name.lexeme .nil) fun _ => .bind (.newClass name.lexeme methods) fun v =>
      .bind (.reassign name v) fun _ => .pure rfl

theorem stmts_succ (h : Commuting ρ old new fuel) (ss : List Stmt) :
    Renames ρ old new (Ending.rename ρ) (Stmt.executeAll (fuel + 1) ss)
      (Stmt.executeAll (fuel + 1) (Stmt.renameAll ρ ss)) := by
  cases ss with
  | nil => exact .pure rfl
  | cons s rest =>
    refine .bind (h.stmt s) fun flow => ?_
    cases flow with
    | normal => exact h.stmts rest
    | leave => exact .pure rfl
    | giveBack v => exact .pure rfl

theorem turn_succ (h : Commuting ρ old new fuel) (condition : Expr) (body : Stmt) :
    Renames ρ old new (Ending.rename ρ) (Stmt.turn (fuel + 1) condition body)
      (Stmt.turn (fuel + 1) (condition.rename ρ) (body.rename ρ)) := by
  refine .bind (h.expr condition) fun v => ?_
  rw [Value.rename_holds]
  split
  · refine .bind (h.stmt body) fun flow => ?_
    cases flow with
    | normal => exact h.turn condition body
    | leave => exact .pure rfl
    | giveBack v => exact .pure rfl
  · exact .pure rfl

end Commuting

theorem commuting {ρ : Renaming} {old new : Depths} (agrees : ρ.Agrees old new) (fuel : Nat) :
    Commuting ρ old new fuel := by
  induction fuel with
  | zero => exact .zero
  | succ fuel ih =>
    exact ⟨ih.expr_succ agrees, ih.exprs_succ, ih.callee_succ, ih.routine_succ, ih.stmt_succ, ih.stmts_succ,
      ih.turn_succ⟩

-- The machine at the end of a run, however it ended.
def Running.last : EStateM.Result Halt Machine α → Machine
  | .ok _ m => m
  | .error _ m => m

namespace Running

theorem Renames.last {ρ : Renaming} {old new : Depths} {f : α → β} {x : Running α} {y : Running β}
    (h : Renames ρ old new f x y) {m : Machine} (kept : m.depths = old) :
    m.Keeps (Running.last (x m)) ∧ Running.last (y (m.rename ρ new)) = (Running.last (x m)).rename ρ new := by
  have given := h m kept
  cases ran : x m with
  | ok result after =>
    rw [ran] at given
    exact ⟨given.1, congrArg Running.last given.2⟩
  | error halt after =>
    rw [ran] at given
    exact ⟨given.1, congrArg Running.last given.2⟩

theorem last_bind (x : Running α) {k : α → Running β} (still : ∀ a m, last (k a m) = m) (m : Machine) :
    last ((x >>= k) m) = last (x m) := by
  show last (EStateM.bind x k m) = _
  unfold EStateM.bind
  cases x m with
  | ok a after => exact still a after
  | error halt after => rfl

theorem last_flush (m : Machine) : last (flush m) = m := by
  unfold flush
  split <;> rfl

end Running

theorem Stmt.executeAll_keeps (fuel : Nat) (ss : List Stmt) (m : Machine) :
    m.Keeps (Running.last (Stmt.executeAll fuel ss m)) := by
  have agrees : Renaming.Agrees ⟨id, id⟩ m.depths m.depths := fun _ => rfl
  exact (((commuting agrees fuel).stmts ss).last rfl).1

end ScopeScript
