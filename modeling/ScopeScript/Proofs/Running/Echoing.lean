import ScopeScript.Proofs.Running.Echo

namespace ScopeScript

open Watching

variable {V : Revision} {fuel more : Nat} {p : Prop}

-- The changed program may have fuel to spare, but only where something is left out.
structure Revision.Feeds (V : Revision) (fuel more : Nat) : Prop where
  enough : fuel ≤ more
  exact : V.Paced → more = fuel

theorem Revision.Feeds.pred (h : V.Feeds (fuel + 1) (more + 1)) : V.Feeds fuel more :=
  ⟨Nat.le_of_succ_le_succ h.enough, fun paced => Nat.succ.inj (h.exact paced)⟩

theorem Revision.Feeds.spare (h : V.Feeds fuel more) (unpaced : ¬ V.Paced) : V.Feeds fuel (more + 1) :=
  ⟨Nat.le_succ_of_le h.enough, fun paced => absurd paced unpaced⟩

theorem Revision.unpaced {s : Stmt} (dropped : V.drops s = true) : ¬ V.Paced := by
  obtain ⟨t, _, _, omitted, _⟩ := Revision.dropped_var dropped
  intro paced
  rw [paced t] at omitted
  cases omitted

-- Parameters meet arguments under their new names.
theorem parameterBindings_revise (keyed : V.Keyed) {r : Routine} (fits : V.Fits (.routine r)) (vs : List Value) :
    parameterBindings (r.revise V).parameters (vs.map (Value.revise V)) =
      (parameterBindings r.parameters vs).rekey (V.key (.routine r)) (Value.revise V) := by
  have each : ∀ (pairs : List (Token × Value)) (names : Names Value), (∀ pair ∈ pairs, pair.1 ∈ r.parameters) →
      (pairs.map fun pair => (V.declare pair.1, pair.2.revise V)).foldl
          (fun names pair => Names.put pair.1.lexeme pair.2 names) (names.rekey (V.key (.routine r)) (Value.revise V)) =
        (pairs.foldl (fun names pair => Names.put pair.1.lexeme pair.2 names) names).rekey
          (V.key (.routine r)) (Value.revise V) := by
    intro pairs
    induction pairs with
    | nil => exact fun _ _ => rfl
    | cons pair rest ih =>
      intro names inside
      have kept := fits.2 pair.1 (inside pair List.mem_cons_self)
      rw [List.map_cons, List.foldl_cons, List.foldl_cons, ← ih _ fun other later =>
        inside other (List.mem_cons_of_mem _ later), Names.rekey_put (keyed.single _) kept]
  unfold parameterBindings
  rw [Routine.revise_parameters, List.zip_map]
  exact each _ [] fun pair member => (List.of_mem_zip member).1

namespace Echoes

-- A variable that is left out leaves no trace.
theorem dropped {s : Stmt} (dropped : V.drops s = true) (fuel : Nat) :
    Echoes V p (fun _ _ => True) (Ending.recast (Routine.revise V)) (s.watch fuel) (Pure.pure .normal) := by
  obtain ⟨t, initial, rfl, omitted, quiet⟩ := Revision.dropped_var dropped
  have unpaced := Revision.unpaced dropped
  have bound : ∀ v, Echoes V p (V.Settles (.var t initial)) (Ending.recast (Routine.revise V))
      (Watching.binding t.lexeme v >>= fun _ => Pure.pure .normal) (Pure.pure () >>= fun _ => Pure.pure .normal) := by
    refine fun v => .andPure ((binding_gone v).finer fun _ _ a settles => ?_) rfl
    exact (settles rfl t (List.mem_singleton_self _)).1.trans (if_pos dropped)
  cases fuel with
  | zero => exact .outOfFuel fun paced => absurd paced unpaced
  | succ fuel =>
    refine .ending (.var t initial) ?_
    rcases quiet with rfl | ⟨value, rfl⟩
    · exact bound .nil
    · have given : Echoes V p (fun _ _ => True) id (Expr.watch fuel (.literal value)) (Pure.pure (.ofLiteral value)) := by
        cases fuel with
        | zero => exact .outOfFuel fun paced => absurd paced unpaced
        | succ fuel => exact .pure rfl
      have whole : Echoes V p (V.Settles (.var t (some (.literal value)))) (Ending.recast (Routine.revise V))
          (Watching.beginning t.lexeme >>= fun _ => Expr.watch fuel (.literal value) >>= fun v =>
            Watching.binding t.lexeme v >>= fun _ => Pure.pure .normal)
          (Pure.pure () >>= fun _ => Pure.pure (Value.ofLiteral value) >>= fun _ =>
            Pure.pure () >>= fun _ => Pure.pure .normal) := .bind (.beginning t.lexeme) fun _ => .bind given bound
      exact whole

theorem enterBlock {x : Watching α} {y : Running β} {f : α → β} (body : List Stmt) (there : ScopeId → Standpoint)
    (inner : Echoes V p (fun _ _ => True) f x y) : Echoes V p (fun _ _ => True) f
      (Watching.opening enterBlock (.block body) there x) (enterBlock >>= fun scope => Running.within scope y) :=
  .opening Machine.scope (fun _ => rfl) (fun _ => rfl) (fun _ => rfl) inner fun given _ => ⟨given, rfl⟩

theorem enterBody {x : Watching α} {y : Running β} {f : α → β} (keyed : V.Keyed) (r : Routine) (closure : ScopeId)
    (vs : List Value) (there : ScopeId → Standpoint) (inner : Echoes V (Stmt.FormedAll r.body) (fun _ _ => True) f x y) :
    Echoes V p (fun _ _ => True) f (Watching.opening (enterBody r closure vs) (.routine r) there x)
      (ScopeScript.enterBody (r.revise V) closure (vs.map (Value.revise V)) >>= fun scope => Running.within scope y) := by
  refine .opening (fun _ => closure) (fun _ => rfl) (fun _ => rfl) (fun _ => rfl) inner fun _ fits => ?_
  refine ⟨?_, parameterBindings_revise keyed fits vs⟩
  obtain ⟨head, parameters, body⟩ := r
  exact fits.1

-- A function keeps its name, as its statement always ends normally.
theorem newFunction_bound (keyed : V.Keyed) (routine : Routine) :
    Echoes V p (V.Settles (.function routine)) (Ending.recast (Routine.revise V))
      (Watching.making (ScopeScript.newFunction routine) [] >>= fun f =>
        Watching.binding routine.name f >>= fun _ => Pure.pure .normal)
      (((Stmt.function routine).revise V).execute (more + 1)) := by
  have settled : ∀ {a}, V.Settles (.function routine) .normal a → V.declare routine.head = routine.head ∧
      V.keyAt a.labels[a.machine.scope]? routine.name = some routine.name := by
    intro a settles
    obtain ⟨key, still⟩ := settles rfl routine.head (List.mem_singleton_self _)
    have same : V.declare routine.head = routine.head := still nofun
    exact ⟨same, key.trans (by rw [same]; rfl)⟩
  have whole : Echoes V p (V.Settles (.function routine)) (Ending.recast (Routine.revise V))
      (Watching.making (ScopeScript.newFunction routine) [] >>= fun f =>
        Watching.binding routine.name f >>= fun _ => Pure.pure .normal)
      (ScopeScript.newFunction (routine.revise V) >>= fun f =>
        Running.bindHere routine.name f >>= fun _ => Pure.pure .normal) :=
    .bind (.newFunction routine) fun f =>
      .andPure ((Echoes.binding keyed f).finer fun _ _ _ settles => (settled settles).2) rfl
  refine whole.learning (c := .normal) (fun _ _ => ⟨_, rfl⟩) fun a settles => ?_
  have named : (routine.revise V).named routine.head = routine.revise V := by
    have same := Routine.named_head (routine.revise V)
    rwa [Routine.revise_head] at same
  rw [Stmt.revise, (settled settles).1, named]
  show _ = ScopeScript.newFunction (routine.revise V) >>= fun f =>
    Running.bindHere (routine.revise V).name f >>= fun _ => Pure.pure Ending.normal
  rw [Routine.revise_name]

end Echoes

-- Every result is of a kind.
def Results (fine : α → Prop) (x : Watching α) : Prop := ∀ here r a last, x here r = .ok a last → fine a

namespace Results

variable {fine : β → Prop}

theorem pure {b : β} (h : fine b) : Results fine (Pure.pure b) := fun _ _ _ _ ran => by
  cases ran
  exact h

theorem outOfFuel : Results fine (Watching.lift Running.outOfFuel) := fun _ _ _ _ ran => nomatch ran

theorem bind {x : Watching α} {k : α → Watching β} (h : ∀ a, Results fine (k a)) : Results fine (x >>= k) := by
  intro here r b last ran
  change EStateM.bind (x here) (fun a => k a here) r = _ at ran
  unfold EStateM.bind at ran
  cases first : x here r with
  | ok a middle =>
    rw [first] at ran
    exact h a here middle b last ran
  | error halt middle =>
    rw [first] at ran
    cases ran

theorem ending {fine : Ending → Prop} {x : Watching Ending} (s : Stmt) (h : Results fine x) :
    Results fine (Watching.ending s x) := by
  intro here r flow last ran
  change EStateM.bind (x here) _ r = _ at ran
  unfold EStateM.bind at ran
  cases first : x here r with
  | ok a middle =>
    rw [first] at ran
    cases ran
    exact h here r flow middle first
  | error halt middle =>
    rw [first] at ran
    cases ran

end Results

theorem Stmt.watch_dropped {s : Stmt} (dropped : V.drops s = true) (fuel : Nat) :
    Results (· = .normal) (s.watch fuel) := by
  obtain ⟨t, initial, rfl, _, quiet⟩ := Revision.dropped_var dropped
  cases fuel with
  | zero => exact .outOfFuel
  | succ fuel =>
    cases initial with
    | none => exact .ending _ (.bind fun _ => .pure rfl)
    | some e => exact .ending _ (.bind fun _ => .bind fun _ => .bind fun _ => .pure rfl)

-- A return never ends normally.
theorem Stmt.watch_stops {s : Stmt} (stops : V.stops s = true) (fuel : Nat) : Results (· ≠ .normal) (s.watch fuel) := by
  cases s with
  | giveBack keyword value =>
    cases fuel with
    | zero => exact .outOfFuel
    | succ fuel =>
      cases value with
      | none => exact .ending _ (.pure nofun)
      | some e => exact .ending _ (.bind fun _ => .pure nofun)
  | _ => cases stops

-- What the changed program does within some fuel.
structure Echoing (V : Revision) (fuel more : Nat) : Prop where
  expr : ∀ {p} (e : Expr),
    Echoes V p (fun _ _ => True) (Value.revise V) (e.watch fuel) ((e.revise V).evaluate more)
  exprs : ∀ {p} (es : List Expr), Echoes V p (fun _ _ => True) (List.map (Value.revise V))
    (Expr.watchAll fuel es) (Expr.evaluateAll more (Expr.reviseAll V es))
  callee : ∀ {p} (c : Callee) (vs : List Value), Echoes V p (fun _ _ => True) (Value.revise V)
    (c.watch fuel vs) ((c.recast (Routine.revise V)).call more (vs.map (Value.revise V)))
  routine : ∀ {p} (c : Callee) (r : Routine) (identity : Identity) (closure : ScopeId) (vs : List Value),
    Echoes V p (fun _ _ => True) (Ending.recast (Routine.revise V)) (Routine.watch fuel c r identity closure vs)
      ((r.revise V).run more closure (vs.map (Value.revise V)))
  stmt : ∀ (s : Stmt), Echoes V (s.Formed ∧ V.drops s = false) (fun _ _ => True) (Ending.recast (Routine.revise V))
    (s.watch fuel) ((s.revise V).execute more)
  stmts : ∀ (ss : List Stmt), Echoes V (Stmt.FormedAll ss) (fun _ _ => True) (Ending.recast (Routine.revise V))
    (Stmt.watchAll fuel ss) (Stmt.executeAll more (Stmt.reviseAll V ss))
  turn : ∀ (condition : Expr) (body : Stmt), Echoes V (body.Formed ∧ V.drops body = false) (fun _ _ => True)
    (Ending.recast (Routine.revise V)) (Stmt.watchTurn fuel condition body)
    (Stmt.turn more (condition.revise V) (body.revise V))

namespace Echoing

theorem zero (feeds : V.Feeds 0 more) : Echoing V 0 more where
  expr _ := .outOfFuel fun paced => by rw [feeds.exact paced]; rfl
  exprs _ := .outOfFuel fun paced => by rw [feeds.exact paced]; rfl
  callee _ _ := .outOfFuel fun paced => by rw [feeds.exact paced]; rfl
  routine _ _ _ _ _ := .outOfFuel fun paced => by rw [feeds.exact paced]; rfl
  stmt _ := .outOfFuel fun paced => by rw [feeds.exact paced]; rfl
  stmts _ := .outOfFuel fun paced => by rw [feeds.exact paced]; rfl
  turn _ _ := .outOfFuel fun paced => by rw [feeds.exact paced]; rfl

theorem expr_succ (keyed : V.Keyed) (h : Echoing V fuel more) (e : Expr) :
    Echoes V p (fun _ _ => True) (Value.revise V) (e.watch (fuel + 1)) ((e.revise V).evaluate (more + 1)) := by
  cases e with
  | literal value => exact .pure (Value.recast_ofLiteral value)
  | grouping inner => exact h.expr inner
  | unary operator operand => exact .bind (h.expr operand) fun v => .unary operator v
  | binary left operator right =>
    exact .bind (h.expr left) fun a => .bind (h.expr right) fun b => .binary operator a b
  | logical left operator right =>
    refine .bind (h.expr left) fun a => ?_
    rw [show decides operator (a.revise V) = _ from decides_recast operator a]
    split
    · exact .pure rfl
    · exact h.expr right
  | assign i name value =>
    exact .bind (h.expr value) fun v => .bind (.writing keyed i name v) fun _ => .pure rfl
  | call callee close arguments =>
    exact .bind (h.expr callee) fun f => .bind (h.exprs arguments) fun vs =>
      .bind (.checkedCall close f vs) fun c => h.callee c vs
  | lambda routine => exact .newLambda routine
  | get object name =>
    refine .bind (h.expr object) fun v => ?_
    cases v with
    | nil | bool | number | string | callee => exact .fail .noProperties name nofun
    | _ i => exact .get keyed i name
  | set object name value =>
    refine .bind (h.expr object) fun v => ?_
    cases v with
    | nil | bool | number | string | callee => exact .fail .noFields name nofun
    | _ i => exact .bind (h.expr value) fun w => .bind (.setField i name.lexeme w) fun _ => .pure rfl
  | this i keyword => exact .reading keyed i keyword
  | _ i name => exact .reading keyed i name

theorem exprs_succ (h : Echoing V fuel more) (es : List Expr) :
    Echoes V p (fun _ _ => True) (List.map (Value.revise V)) (Expr.watchAll (fuel + 1) es)
      (Expr.evaluateAll (more + 1) (Expr.reviseAll V es)) := by
  cases es with
  | nil => exact .pure rfl
  | cons e rest => exact .bind (h.expr e) fun v => .bind (h.exprs rest) fun vs => .pure rfl

theorem callee_succ (keyed : V.Keyed) (h : Echoing V fuel more) (c : Callee) (vs : List Value) :
    Echoes V p (fun _ _ => True) (Value.revise V) (c.watch (fuel + 1) vs)
      ((c.recast (Routine.revise V)).call (more + 1) (vs.map (Value.revise V))) := by
  refine .answering c ?_
  cases c with
  | clock => exact .seconds
  | function f =>
    refine .bind (h.routine (.function f) f.routine f.identity f.closure vs) fun flow => ?_
    show Echoes V p _ _ _ (if f.initializer then _ else _)
    split
    · exact .receiver keyed f
    · exact .pure (Ending.recast_result flow).symm
  | lambda l =>
    exact .bind (h.routine (.lambda l) l.routine l.identity l.closure vs) fun flow =>
      .pure (Ending.recast_result flow).symm
  | classes c =>
    refine .bind (.newInstance c) fun i => ?_
    rw [Class.recast_initializer?]
    cases c.initializer? with
    | none => exact .pure rfl
    | some m =>
      exact .bind (.attach keyed m i) fun f => .bind (h.callee (.function f) vs) fun _ => .pure rfl

theorem routine_succ (keyed : V.Keyed) (h : Echoing V fuel more) (c : Callee) (r : Routine) (identity : Identity)
    (closure : ScopeId) (vs : List Value) : Echoes V p (fun _ _ => True) (Ending.recast (Routine.revise V))
      (Routine.watch (fuel + 1) c r identity closure vs)
      ((r.revise V).run (more + 1) closure (vs.map (Value.revise V))) := by
  refine .homeOf identity fun home => .returning c ?_
  have inner := h.stmts r.body
  rw [← Routine.revise_body] at inner
  exact .enterBody keyed r closure vs _ inner

theorem stmt_succ (keyed : V.Keyed) (h : Echoing V fuel more) (s : Stmt) :
    Echoes V (s.Formed ∧ V.drops s = false) (fun _ _ => True) (Ending.recast (Routine.revise V))
      (s.watch (fuel + 1)) ((s.revise V).execute (more + 1)) := by
  have named : ∀ {t initial}, V.drops (.var t initial) = false → ∀ a, V.Settles (.var t initial) .normal a →
      V.keyAt a.labels[a.machine.scope]? t.lexeme = some (V.declare t).lexeme := fun kept a settles =>
    (settles rfl _ (List.mem_singleton_self _)).1.trans (if_neg (Bool.eq_false_iff.mp kept))
  cases s with
  | expression value => exact .ending _ (.whatever (.bind (h.expr value) fun _ => .pure rfl))
  | print keyword value =>
    refine .ending _ (.whatever (.bind (h.expr value) fun v => ?_))
    rw [show (v.revise V).text = v.text from Value.recast_text (Routine.revise_alike V) v]
    exact .bind (.print keyword _) fun _ => .pure rfl
  | var name initial =>
    cases initial with
    | none => exact .ending _ (.andPure ((Echoes.binding keyed .nil).finer fun given _ => named given.2) rfl)
    | some e =>
      have whole : Echoes V ((Stmt.var name (some e)).Formed ∧ V.drops (.var name (some e)) = false)
          (V.Settles (.var name (some e))) (Ending.recast (Routine.revise V))
          (Watching.beginning name.lexeme >>= fun _ => e.watch fuel >>= fun v =>
            Watching.binding name.lexeme v >>= fun _ => pure .normal)
          (pure () >>= fun _ => (e.revise V).evaluate more >>= fun v =>
            Running.bindHere (V.declare name).lexeme v >>= fun _ => pure .normal) :=
        .bind (.beginning name.lexeme) fun _ => .bind (h.expr e) fun v =>
          .andPure ((Echoes.binding keyed v).finer fun given _ => named given.2) rfl
      exact .ending _ whole
  | block body =>
    refine .ending _ (.whatever (.asking fun here => ?_))
    exact (Echoes.enterBlock body _ (h.stmts body)).given fun given => given.1
  | branch condition yes no =>
    have holds : ∀ v : Value, (v.revise V).holds = v.holds := Value.recast_holds
    cases no with
    | none =>
      refine .ending _ (.whatever (.bind (h.expr condition) fun v => ?_))
      rw [holds]
      split
      · exact .nested _ ((h.stmt yes).given fun given => ⟨given.1.2.1, Revision.drops_nameless given.1.2.2⟩)
      · exact .pure rfl
    | some no =>
      refine .ending _ (.whatever (.bind (h.expr condition) fun v => ?_))
      rw [holds]
      split
      · exact .nested _ ((h.stmt yes).given fun given => ⟨given.1.2.1.1, Revision.drops_nameless given.1.2.1.2⟩)
      · exact .nested _ ((h.stmt no).given fun given => ⟨given.1.2.2.1, Revision.drops_nameless given.1.2.2.2⟩)
  | loop condition body =>
    exact .ending _ (.whatever (.nested _ ((h.turn condition body).given fun given =>
      ⟨given.1.2.1, Revision.drops_nameless given.1.2.2⟩)))
  | leave keyword => exact .ending _ (.pure rfl)
  | function routine => exact .ending _ (.newFunction_bound keyed routine)
  | giveBack keyword value =>
    cases value with
    | none => exact .ending _ (.pure rfl)
    | some e => exact .ending _ (.whatever (.bind (h.expr e) fun v => .pure rfl))
  | classes name methods => exact .ending _ (.classes keyed name methods)

theorem stmts_succ (h : ∀ more, V.Feeds fuel more → Echoing V fuel more) (feeds : V.Feeds fuel more) (ss : List Stmt) :
    Echoes V (Stmt.FormedAll ss) (fun _ _ => True) (Ending.recast (Routine.revise V))
      (Stmt.watchAll (fuel + 1) ss) (Stmt.executeAll (more + 1) (Stmt.reviseAll V ss)) := by
  cases ss with
  | nil => exact .pure rfl
  | cons s rest =>
    cases dropped : V.drops s with
    | true =>
      have later := (h (more + 1) (feeds.spare (Revision.unpaced dropped))).stmts rest
      have whole : Echoes V (Stmt.FormedAll (s :: rest)) (fun _ _ => True) (Ending.recast (Routine.revise V))
          (Stmt.watchAll (fuel + 1) (s :: rest))
          (pure Ending.normal >>= fun _ => Stmt.executeAll (more + 1) (Stmt.reviseAll V rest)) := by
        refine .bindOf (.dropped dropped fuel) fun flow ⟨here, r, last, ran⟩ => ?_
        rw [Stmt.watch_dropped dropped fuel here r flow last ran]
        exact later.given fun given => given.2
      rw [Stmt.reviseAll_dropped dropped]
      exact whole
    | false =>
      cases stopped : V.stops s with
      | true =>
        rw [Stmt.reviseAll_stopped dropped stopped]
        refine .bindOf (((h more feeds).stmt s).given fun given => ⟨given.1, dropped⟩) fun flow ⟨here, r, last, ran⟩ => ?_
        have ends := Stmt.watch_stops stopped fuel here r flow last ran
        cases flow with
        | normal => exact absurd rfl ends
        | leave | giveBack => exact .pure rfl
      | false =>
        rw [Stmt.reviseAll_kept dropped stopped]
        refine .bind (((h more feeds).stmt s).given fun given => ⟨given.1, dropped⟩) fun flow => ?_
        cases flow with
        | normal => exact ((h more feeds).stmts rest).given fun given => given.2
        | leave | giveBack => exact .pure rfl

theorem turn_succ (h : Echoing V fuel more) (condition : Expr) (body : Stmt) :
    Echoes V (body.Formed ∧ V.drops body = false) (fun _ _ => True) (Ending.recast (Routine.revise V))
      (Stmt.watchTurn (fuel + 1) condition body) (Stmt.turn (more + 1) (condition.revise V) (body.revise V)) := by
  refine .bind (h.expr condition) fun v => ?_
  rw [show (v.revise V).holds = v.holds from Value.recast_holds v]
  split
  · refine .bind (h.stmt body) fun flow => ?_
    cases flow with
    | normal => exact h.turn condition body
    | leave | giveBack => exact .pure rfl
  · exact .pure rfl

end Echoing

-- The changed program does what the watched one does, wherever its record serves.
theorem echoing (keyed : V.Keyed) (fuel : Nat) : ∀ {more}, V.Feeds fuel more → Echoing V fuel more := by
  induction fuel with
  | zero => exact .zero
  | succ fuel ih =>
    intro more feeds
    cases more with
    | zero => exact absurd feeds.enough (Nat.not_succ_le_zero fuel)
    | succ more =>
      have now := ih feeds.pred
      exact ⟨now.expr_succ keyed, now.exprs_succ, now.callee_succ keyed, now.routine_succ keyed, now.stmt_succ keyed,
        Echoing.stmts_succ (fun _ => ih) feeds.pred, now.turn_succ⟩

end ScopeScript
