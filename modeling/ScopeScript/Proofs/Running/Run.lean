import ScopeScript.Proofs.Running.Step

namespace ScopeScript

open Watching

variable {lies : Spot → Prop} {a b : Scene} {σ τ : Setting} {fuel : Nat}

-- How code ends where it lies, and what it gives back.
def Ending.Fine (lies : Spot → Prop) (σ : Setting) (ending : Ending) (a : Scene) : Prop :=
  ending.Allowed σ ∧ ∀ v, ending = .giveBack v → v.Sound lies a

namespace Ending.Fine

variable {ending : Ending}

theorem normal : Fine lies σ .normal a := ⟨trivial, nofun⟩

theorem later (h : Fine lies σ ending a) (later : a.Extends b) : Fine lies σ ending b :=
  ⟨h.1, fun v given => (h.2 v given).later later⟩

theorem outward (h : Fine lies τ ending a) (loops : τ.loops = σ.loops) (body : τ.body = σ.body) :
    Fine lies σ ending a := by
  refine ⟨?_, h.2⟩
  have allowed := h.1
  unfold Allowed at allowed ⊢
  rwa [loops, body] at allowed

-- A body ends with at most a result.
theorem returns (h : Fine lies σ ending a) (bare : σ.loops = 0) : ending ≠ .leave := by
  rintro rfl
  have inside : 0 < σ.loops := h.1
  rw [bare] at inside
  exact absurd inside (Nat.lt_irrefl 0)

end Ending.Fine

theorem Setting.loops_declare (σ : Setting) (names : List Token) : (σ.declare names).loops = σ.loops := by
  obtain ⟨frames, body, around⟩ := σ
  cases frames <;> rfl

theorem Setting.body_declare (σ : Setting) (names : List Token) : (σ.declare names).body = σ.body := by
  obtain ⟨frames, body, around⟩ := σ
  cases frames <;> rfl

theorem Scene.Stands.onward {display : Display} (h : a.Stands σ display a.machine.scope)
    (grows : a.Grows names b) : b.Stands σ display b.machine.scope := by
  rw [grows.scope]
  exact h.later grows.toExtends

-- Parameters and their arguments.

theorem foldl_put_get? (pairs : List (Token × Value)) (start : Names Value)
    (found : (pairs.foldl (fun names pair => Names.put pair.1.lexeme pair.2 names) start).get? name = some v) :
    (∃ pair ∈ pairs, pair.2 = v ∧ pair.1.lexeme = name) ∨ start.get? name = some v := by
  induction pairs generalizing start with
  | nil => exact .inr found
  | cons pair rest ih =>
    rcases ih _ found with ⟨other, member, same⟩ | before
    · exact .inl ⟨other, List.mem_cons_of_mem _ member, same⟩
    · rw [Names.get?_put] at before
      split at before
      · cases before
        subst_vars
        exact .inl ⟨pair, List.mem_cons_self, rfl, rfl⟩
      · exact .inr before

theorem foldl_put_binds (pairs : List (Token × Value)) (start : Names Value) (name : String)
    (bound : start.binds name = true ∨ ∃ pair ∈ pairs, pair.1.lexeme = name) :
    (pairs.foldl (fun names pair => Names.put pair.1.lexeme pair.2 names) start).binds name = true := by
  induction pairs generalizing start with
  | nil =>
    rcases bound with bound | ⟨pair, member, _⟩
    · exact bound
    · cases member
  | cons pair rest ih =>
    apply ih
    rw [Names.binds_put]
    rcases bound with bound | ⟨other, member, same⟩
    · exact .inl (by rw [bound, Bool.or_true])
    · rcases List.mem_cons.mp member with rfl | later
      · exact .inl (by simp [same])
      · exact .inr ⟨other, later, same⟩

variable {parameters : List Token} {arguments : List Value}

theorem parameterBindings_get? (found : (parameterBindings parameters arguments).get? name = some v) :
    v ∈ arguments ∧ parameters.any (·.lexeme == name) = true := by
  rcases foldl_put_get? _ _ found with ⟨pair, member, rfl, rfl⟩ | nothing
  · obtain ⟨inside, given⟩ := List.of_mem_zip member
    exact ⟨given, List.any_eq_true.mpr ⟨pair.1, inside, beq_self_eq_true _⟩⟩
  · cases nothing

theorem parameterBindings_binds (enough : arguments.length = parameters.length) (inside : t ∈ parameters) :
    (parameterBindings parameters arguments).binds t.lexeme = true := by
  refine foldl_put_binds _ _ _ (.inr ?_)
  rw [← List.map_fst_zip (Nat.le_of_eq enough.symm)] at inside
  obtain ⟨pair, member, same⟩ := List.mem_map.mp inside
  exact ⟨pair, member, congrArg Token.lexeme same⟩

-- What holds of every run within some fuel.
structure Upholding (lies : Spot → Prop) (fuel : Nat) : Prop where
  expr : ∀ {here r σ} {e : Expr}, r.Sound lies → lies ⟨σ, .expr e⟩ →
    r.scene.Stands σ here.display r.scene.machine.scope →
    Upholds lies [] (fun v a => v.Sound lies a) (e.watch fuel) here r
  exprs : ∀ {here r σ es}, r.Sound lies → (∀ e ∈ es, lies ⟨σ, .expr e⟩) →
    r.scene.Stands σ here.display r.scene.machine.scope →
    Upholds lies [] (fun vs a => ∀ v ∈ vs, v.Sound lies a) (Expr.watchAll fuel es) here r
  callee : ∀ {here r} {c : Callee} {vs : List Value}, r.Sound lies → c.Sound lies r.scene →
    vs.length = c.arity → (∀ v ∈ vs, v.Sound lies r.scene) →
    Upholds lies [] (fun v a => v.Sound lies a) (c.watch fuel vs) here r
  routine : ∀ {here r c} {kind : BodyKind} {body : Routine} {identity closure} {vs : List Value},
    r.Sound lies → kind ≠ .outside → (c.initializes = true → kind = .initializer) →
    r.scene.Rests lies kind body identity closure → r.scene.Fits closure (.routine body) →
    vs.length = body.arity → (∀ v ∈ vs, v.Sound lies r.scene) →
    Upholds lies [] (fun ending a => ∀ v, ending = .giveBack v → v.Sound lies a)
      (Routine.watch fuel c body identity closure vs) here r
  stmt : ∀ {here r σ} {s : Stmt}, r.Sound lies → lies ⟨σ, .stmt s⟩ → r.scene.Meets here σ →
    Upholds lies s.declares (fun ending a => ending.Fine lies σ a ∧
      (ending = .normal → ∀ t ∈ s.declares, a.machine.store.binds a.machine.scope t.lexeme = true))
      (s.watch fuel) here r
  stmts : ∀ {here r σ ss}, r.Sound lies → lies ⟨σ, .stmts ss⟩ → r.scene.Meets here σ →
    Upholds lies (ss.flatMap Stmt.declares) (Ending.Fine lies σ) (Stmt.watchAll fuel ss) here r
  turn : ∀ {here r σ condition body}, r.Sound lies → lies ⟨σ, .stmt (.loop condition body)⟩ →
    r.scene.Meets here (σ.nest (.loop condition body)) →
    Upholds lies [] (fun ending a => ending ≠ .leave ∧ ending.Fine lies (σ.nest (.loop condition body)) a)
      (Stmt.watchTurn fuel condition body) here r

namespace Upholding

theorem zero : Upholding lies 0 where
  expr sound _ _ := .outOfFuel sound
  exprs sound _ _ := .outOfFuel sound
  callee sound _ _ _ := .outOfFuel sound
  routine sound _ _ _ _ _ _ := .outOfFuel sound
  stmt sound _ _ := .outOfFuel sound
  stmts sound _ _ := .outOfFuel sound
  turn sound _ _ := .outOfFuel sound

variable {here : Standpoint} {r : Record}

theorem checked (sound : r.Sound lies) (close : Token) (f : Value) (vs : List Value) :
    Upholds lies [] (fun c _ => f = .callee c ∧ vs.length = c.arity)
      (Watching.lift (checkedCall close f vs)) here r := by
  unfold checkedCall
  cases f with
  | callee c =>
    show Upholds _ _ _ (Watching.lift (if vs.length = c.arity then _ else _)) _ _
    split
    · exact .lift sound rfl (.refl _ _) sound.scene ⟨rfl, ‹_›⟩
    · exact .fail sound _ _ nofun
  | nil | bool | number | string => exact .fail sound _ _ nofun
  | _ => exact .fail sound _ _ nofun

theorem get {i : Instance} (sound : r.Sound lies) (made : (Value.instance i).Sound lies r.scene)
    (name : Token) : Upholds lies [] (fun v a => v.Sound lies a) (i.watchGet name) here r := by
  have look : Upholds lies [] (fun s a => s = r.scene.machine.store ∧ a = r.scene)
      (Watching.lift Running.store) here r := .lift sound rfl (.refl _ _) sound.scene ⟨rfl, rfl⟩
  refine look.bind fun s after _ kept same => ?_
  obtain ⟨rfl, same⟩ := same
  rw [← same] at made ⊢
  cases found : after.scene.machine.store.field? i name.lexeme with
  | some value => exact .pure kept value (kept.scene.fields i name.lexeme value found)
  | none =>
    dsimp only
    cases method : i.madeBy.methods.get? name.lexeme with
    | none => exact .fail kept _ _ (by simp)
    | some m =>
      exact (Upholds.attach kept made method).bind fun f last _ kept fine => .pure kept _ fine.1

theorem expr_succ (h : Upholding lies fuel) {e : Expr} (sound : r.Sound lies) (inside : lies ⟨σ, .expr e⟩)
    (stands : r.scene.Stands σ here.display r.scene.machine.scope) :
    Upholds lies [] (fun v a => v.Sound lies a) (e.watch (fuel + 1)) here r := by
  have part : ∀ code ∈ e.parts, lies ⟨σ, code⟩ := fun code member =>
    sound.scene.lawful.part inside (List.mem_map_of_mem member)
  cases e with
  | literal value => exact .pure sound _ (.ofLiteral value _)
  | grouping inner => exact h.expr sound (part _ List.mem_cons_self) stands
  | unary operator operand =>
    refine (h.expr sound (part _ List.mem_cons_self) stands).bind fun v after _ kept _ => ?_
    exact .plain kept (unaryResult_plain _ operator v)
  | binary left operator right =>
    refine (h.expr sound (part (.expr left) (by simp [Expr.parts])) stands).bind fun x after grows kept _ => ?_
    refine (h.expr kept (part (.expr right) (by simp [Expr.parts])) (stands.onward grows)).bind
      fun y final _ kept _ => ?_
    exact .plain kept (binaryResult_plain _ operator x y)
  | logical left operator right =>
    refine (h.expr sound (part (.expr left) (by simp [Expr.parts])) stands).bind fun x after grows kept fine => ?_
    split
    · exact .pure kept x fine
    · exact h.expr kept (part (.expr right) (by simp [Expr.parts])) (stands.onward grows)
  | assign i name value =>
    refine (h.expr sound (part _ List.mem_cons_self) stands).bind fun v after grows kept fine => ?_
    refine (Upholds.writing kept inside (stands.onward grows) fine).bind fun _ final grows kept _ => ?_
    exact .pure kept v (fine.later grows.toExtends)
  | call callee close arguments =>
    refine (h.expr sound (part _ List.mem_cons_self) stands).bind fun f after grows kept callable => ?_
    have given : ∀ e ∈ arguments, lies ⟨σ, .expr e⟩ := fun e member =>
      part _ (List.mem_cons_of_mem _ (List.mem_map_of_mem member))
    refine (h.exprs kept given (stands.onward grows)).bind fun vs ready grows kept values => ?_
    refine (checked kept close f vs).bind fun c final more kept fits => ?_
    obtain ⟨rfl, enough⟩ := fits
    exact h.callee kept (Callee.Sound.later callable (grows.trans more).toExtends) enough
      fun v member => (values v member).later more.toExtends
  | lambda routine =>
    refine Upholds.making [] sound rfl ?_
    have made : r.scene.Grows [] _ := Scene.grows_settle ⟨here.display, []⟩
    have plain := stands.plain sound.scene.bare (sound.scene.lawful.proper inside).nested
    exact ⟨⟨σ, ⟨here.display, []⟩, part _ List.mem_cons_self, sound.scene.home_settle _,
      stands.later made.toExtends⟩, plain.later made.toExtends⟩
  | get object name =>
    refine (h.expr sound (part _ List.mem_cons_self) stands).bind fun v after grows kept fine => ?_
    cases v with
    | nil | bool | number | string | callee => exact .fail kept _ _ (by simp)
    | _ => exact get kept fine name
  | set object name value =>
    refine (h.expr sound (part (.expr object) (by simp [Expr.parts])) stands).bind
      fun v after grows kept _ => ?_
    cases v with
    | nil | bool | number | string | callee => exact .fail kept _ _ (by simp)
    | _ i =>
      refine (h.expr kept (part (.expr value) (by simp [Expr.parts])) (stands.onward grows)).bind
        fun w last _ kept fine => ?_
      have quiet : last.scene.Grows [] (last.scene.onStore (last.scene.machine.store.setField i name.lexeme w)) :=
        Scene.grows_setField _ w i
      have put : Upholds lies [] (fun _ a => w.Sound lies a)
          (Watching.lift (Running.withStore fun s => ((), s.setField i name.lexeme w))) here last :=
        .lift kept rfl (.aside quiet rfl rfl) (kept.scene.setField _ w i fine) (fine.later quiet.toExtends)
      exact put.bind fun _ final _ kept fine => .pure kept w fine
  | this i keyword => exact .reading sound inside .this stands
  | _ i name => exact .reading sound inside .look stands

theorem exprs_succ (h : Upholding lies fuel) {es : List Expr} (sound : r.Sound lies)
    (inside : ∀ e ∈ es, lies ⟨σ, .expr e⟩) (stands : r.scene.Stands σ here.display r.scene.machine.scope) :
    Upholds lies [] (fun vs a => ∀ v ∈ vs, v.Sound lies a) (Expr.watchAll (fuel + 1) es) here r := by
  cases es with
  | nil => exact .pure sound [] nofun
  | cons e rest =>
    refine (h.expr sound (inside e List.mem_cons_self) stands).bind fun v after grows kept fine => ?_
    have later := h.exprs kept (fun e member => inside e (List.mem_cons_of_mem _ member)) (stands.onward grows)
    refine later.bind fun vs final grows kept values => .pure kept _ fun w member => ?_
    rcases List.mem_cons.mp member with rfl | behind
    · exact fine.later grows.toExtends
    · exact values w behind

theorem result_sound {ending : Ending} (fine : ∀ v, ending = .giveBack v → v.Sound lies a) :
    ending.result.Sound lies a := by
  cases ending with
  | normal => trivial
  | leave => trivial
  | giveBack v => exact fine v rfl

-- What a function gives back is its receiver where it is an initializer.
theorem receiver {f : Function} {i : Instance} (sound : r.Sound lies) (member : (f, i) ∈ r.scene.attached) :
    Upholds lies [] (fun v a => v.Sound lies a ∧ v = .instance i ∧ (f, i) ∈ a.attached)
      (Watching.lift f.receiver) here r := by
  have own : r.scene.machine.store.own? f.closure receiverName = some (.instance i) := by
    rw [(sound.scene.receivers.kept f i member).own, if_pos rfl]
  have run : f.receiver r.scene.machine = .ok (.instance i) r.scene.machine := by
    show EStateM.Result.ok ((r.scene.machine.store.own? f.closure receiverName).getD .nil) _ = _
    rw [own, Option.getD_some]
  exact .lift sound run (.refl _ _) sound.scene ⟨sound.scene.values _ _ _ own, rfl, member⟩

theorem function_called (h : Upholding lies fuel) {f : Function} {vs : List Value} (before : Store)
    (sound : r.Sound lies) (callable : (Callee.function f).Sound lies r.scene)
    (enough : vs.length = f.routine.arity) (values : ∀ v ∈ vs, v.Sound lies r.scene) :
    Upholds lies [] (fun v a => v.Sound lies a ∧ (Callee.function f).Answers before v a)
      (Routine.watch fuel (.function f) f.routine f.identity f.closure vs >>= fun flow =>
        if f.initializer then Watching.lift f.receiver else pure flow.result) here r := by
  obtain ⟨⟨kind, within, exact, rests⟩, receives⟩ := callable
  have fits : r.scene.Fits f.closure (.routine f.routine) := by
    rcases receives with ⟨i, member⟩ | ⟨plain, _⟩
    · exact sound.scene.receivers.fits_attached member
    · exact sound.scene.receivers.fits_plain plain _
  refine (h.routine (c := .function f) sound within exact.mp rests fits enough values).bind
    fun ending after grows kept fine => ?_
  split
  · rename_i initializes
    obtain ⟨i, member⟩ := receives.resolve_right fun bare => absurd (initializes.symm.trans bare.2) nofun
    exact (receiver kept (grows.attached.subset member)).imp fun v a _ given =>
      ⟨given.1, fun _ => ⟨i, given.2.2, given.2.1⟩⟩
  · exact .pure kept _ ⟨result_sound fine, fun initializes => absurd initializes ‹_›⟩

theorem class_called (h : Upholding lies fuel) {c : Class} {vs : List Value} (sound : r.Sound lies)
    (callable : (Callee.classes c).Sound lies r.scene) (enough : vs.length = (Callee.classes c).arity)
    (values : ∀ v ∈ vs, v.Sound lies r.scene) :
    Upholds lies [] (fun v a => v.Sound lies a ∧ (Callee.classes c).Answers r.scene.machine.store v a)
      (Watching.lift (Running.withStore fun s => s.newInstance c) >>= fun i =>
        match c.initializer? with
        | none => pure (.instance i)
        | some m => m.watchAttach i >>= fun f => Callee.watch fuel (.function f) vs >>= fun _ =>
            pure (.instance i)) here r := by
  let before := r.scene.machine.store
  let i : Instance := ⟨before.fields.size, c⟩
  have absent : ¬ before.Has i := Nat.lt_irrefl _
  have new : (Value.instance i).Sound lies (r.scene.onStore (before.newInstance c).2) := by
    have grows : r.scene.Grows [] (r.scene.onStore (before.newInstance c).2) := Scene.grows_newInstance c
    refine ⟨Callee.Sound.later callable grows.toExtends, ?_⟩
    show before.fields.size < (before.fields.push _).size
    rw [Array.size_push]
    exact Nat.lt_succ_self _
  have made : Upholds lies [] (fun j a => j = i ∧ (Value.instance i).Sound lies a)
      (Watching.lift (Running.withStore fun s => s.newInstance c)) here r :=
    .lift sound rfl (.aside (Scene.grows_newInstance c) rfl rfl) (sound.scene.newInstance c) ⟨rfl, new⟩
  refine made.bind fun j after grows kept fine => ?_
  obtain ⟨rfl, made⟩ := fine
  cases method : c.initializer? with
  | none => exact .pure kept _ ⟨made, i, rfl, rfl, absent, made.2, fun m found => by cases method.symm.trans found⟩
  | some m =>
    refine (Upholds.attach kept made method).bind fun f last more kept fine => ?_
    obtain ⟨callable, member, same⟩ := fine
    have arity : vs.length = (Callee.function f).arity := by
      rw [enough]
      show c.initializer?.elim 0 (·.routine.arity) = f.routine.arity
      rw [method, same]
      rfl
    have given : ∀ v ∈ vs, v.Sound lies last.scene := fun v member =>
      (values v member).later (grows.trans more).toExtends
    refine (h.callee kept callable arity given).bind fun _ final later kept _ => ?_
    have still := made.later (more.trans later).toExtends
    refine .pure kept _ ⟨still, i, rfl, rfl, absent, still.2, fun other found => ?_⟩
    cases method.symm.trans found
    exact ⟨f, later.attached.subset member, same⟩

theorem callee_succ (h : Upholding lies fuel) {c : Callee} {vs : List Value} (sound : r.Sound lies)
    (callable : c.Sound lies r.scene) (enough : vs.length = c.arity) (values : ∀ v ∈ vs, v.Sound lies r.scene) :
    Upholds lies [] (fun v a => v.Sound lies a) (c.watch (fuel + 1) vs) here r := by
  refine .answering c sound ?_
  cases c with
  | clock => exact (Upholds.seconds sound).imp fun _ _ _ fine => ⟨fine, trivial⟩
  | function f => exact function_called h _ sound callable enough values
  | lambda l =>
    obtain ⟨rests, plain⟩ := callable
    have fits := sound.scene.receivers.fits_plain plain (.routine l.routine)
    have within : BodyKind.lambda ≠ .outside := nofun
    refine (h.routine (c := .lambda l) sound within nofun rests fits enough values).bind fun ending after _ kept fine => ?_
    exact .pure kept _ ⟨result_sound fine, trivial⟩
  | classes c => exact class_called h sound callable enough values

theorem home {identity : Identity} {home : Home} {k : Home → Watching α} {names : List Token}
    {good : α → Scene → Prop} (known : r.scene.homes[identity]? = some home)
    (next : Upholds lies names good (k home) here r) :
    Upholds lies names good (Watching.homeOf identity >>= k) here r := by
  have same : (Watching.homeOf identity >>= k) here r = k home here r := by
    show k (r.scene.homes[identity]?.getD ⟨[], []⟩) here r = _
    rw [known, Option.getD_some]
  unfold Upholds
  rw [same]
  exact next

theorem routine_succ (h : Upholding lies fuel) {c : Callee} {kind : BodyKind} {body : Routine}
    {identity : Identity} {closure : ScopeId} {vs : List Value} (sound : r.Sound lies)
    (within : kind ≠ .outside) (exact : c.initializes = true → kind = .initializer)
    (rests : r.scene.Rests lies kind body identity closure) (fits : r.scene.Fits closure (.routine body)) (enough : vs.length = body.arity)
    (values : ∀ v ∈ vs, v.Sound lies r.scene) :
    Upholds lies [] (fun ending a => ∀ v, ending = .giveBack v → v.Sound lies a)
      (Routine.watch (fuel + 1) c body identity closure vs) here r := by
  obtain ⟨σ, place, inside, known, stands⟩ := rests
  refine home known ?_
  let τ := σ.enterRoutine kind body
  let f : Frame := ⟨.routine body, body.parameters, []⟩
  let there (scope : ScopeId) : Standpoint := ⟨scope :: place.display, some c, []⟩
  let bindings := parameterBindings body.parameters vs
  let entered := r.scene.opened closure bindings (.routine body)
  have opened : entered.Stands τ (there r.scene.next).display r.scene.next :=
    stands.opened (f := f) sound.scene rfl rfl (fun t member => parameterBindings_binds enough member) (by simp [f, Region.isReceiver])
  have own : (entered.move r.scene.next).Exact τ := by
    refine sound.scene.exact_opened (σ := σ) (f := f) rfl fun n bound => ?_
    obtain ⟨w, given⟩ := Option.isSome_iff_exists.mp bound
    have named := (parameterBindings_get? given).2
    simp [f, Frame.declares, Frame.seen, named]
  have suits : (there r.scene.next).Suits τ := by
    refine ⟨rfl, ⟨fun outer => absurd outer (by simp [there]), fun outside => absurd outside within⟩, ?_⟩
    rintro _ ⟨⟩ initializes
    exact exact initializes
  have run : ∀ after : Record, after.scene = entered.move r.scene.next →
      after.Sound lies → Upholds lies (body.body.flatMap Stmt.declares) (Ending.Fine lies τ)
        (Stmt.watchAll fuel body.body) (there r.scene.next) after := by
    intro after same kept
    refine h.stmts kept (kept.scene.lawful.part inside List.mem_cons_self) ?_
    rw [same]
    exact ⟨opened.later (.move _ _), own, suits⟩
  have fine : Upholds lies [] (Ending.Fine lies τ)
      (Watching.opening (enterBody body closure vs) (.routine body) there (Stmt.watchAll fuel body.body)) here r :=
    .opening sound rfl rfl fits ⟨σ, kind, inside⟩ (fun _ same t member => by
        cases same
        exact parameterBindings_binds enough member) (fun n w given => values w (parameterBindings_get? given).1)
      (fun _ _ _ fine => fine.later (.move _ _)) run
  refine (Upholds.returning c fine fun ending after fine => ?_).imp fun ending after _ fine => fine.2
  refine ⟨fine.returns rfl, fun initializes v given => ?_⟩
  have allowed := fine.1
  rw [given] at allowed
  exact allowed.2 (exact initializes)

-- How a statement ends, and what is bound behind it.
def Completes (lies : Spot → Prop) (σ : Setting) (s : Stmt) (ending : Ending) (a : Scene) : Prop :=
  ending.Fine lies σ a ∧
    (ending = .normal → ∀ t ∈ s.declares, a.machine.store.binds a.machine.scope t.lexeme = true)

theorem completes_undeclared {s : Stmt} {x : Watching Ending} (none : s.declares = [])
    (run : Upholds lies [] (Ending.Fine lies σ) x here r) :
    Upholds lies s.declares (Completes lies σ s) x here r := by
  rw [none]
  refine run.imp fun ending after _ fine => ⟨fine, fun _ => ?_⟩
  rw [none]
  nofun

theorem plain {s : Stmt} (sound : r.Sound lies) (inside : lies ⟨σ, .stmt s⟩) (meets : r.scene.Meets here σ) :
    r.scene.Plain r.scene.machine.scope :=
  meets.stands.plain sound.scene.bare (sound.scene.lawful.proper inside).nested

theorem undeclared {s : Stmt} (sound : r.Sound lies) (inside : lies ⟨σ, .stmt s⟩) (member : t ∈ s.declares) :
    ∀ f outer, σ.frames = f :: outer → f.declares t.lexeme = false :=
  fun _ _ frames => sound.scene.lawful.declares inside frames t member

theorem bind_name {s : Stmt} {t : Token} {v : Value} (sound : r.Sound lies) (only : s.declares = [t])
    (known : r.scene.machine.scope < r.scene.machine.store.scopes.size)
    (plain : r.scene.Plain r.scene.machine.scope)
    (once : r.scene.Local r.scene.machine.scope → r.scene.machine.store.binds r.scene.machine.scope t.lexeme = false)
    (fine : ∀ b, r.scene.Grows [t] b → b.machine.store.binds r.scene.machine.scope t.lexeme = true →
      v.Sound lies b) :
    Upholds lies [t] (Completes lies σ s) (Watching.binding t.lexeme v >>= fun _ => pure .normal) here r := by
  refine (Upholds.binding t v sound known plain once fine).bind fun _ b grows kept bound => ?_
  have ended : Completes lies σ s .normal b.scene := by
    refine ⟨.normal, fun _ u member => ?_⟩
    rw [only] at member
    rw [List.mem_singleton.mp member, grows.scope]
    exact bound
  exact .pure kept Ending.normal ended

theorem var_succ (h : Upholding lies fuel) {name : Token} {initial : Expr} (sound : r.Sound lies)
    (inside : lies ⟨σ, .stmt (.var name (some initial))⟩) (meets : r.scene.Meets here σ) :
    Upholds lies [name] (Completes lies σ (.var name (some initial)))
      (Watching.beginning name.lexeme >>= fun _ => initial.watch fuel >>= fun v =>
        Watching.binding name.lexeme v >>= fun _ => pure .normal) here r := by
  have begun := Upholds.beginning name sound meets (undeclared sound inside List.mem_cons_self)
  refine begun.bind fun _ after _ kept begun => ?_
  obtain ⟨stands, unbound⟩ := begun
  have part := kept.scene.lawful.part inside List.mem_cons_self
  -- The initializer may run anything, but nothing else binds a name here.
  refine (h.expr kept part stands).steps.widen_nil.bind fun v last _ still fine => ?_
  obtain ⟨fine, steps⟩ := fine
  have behind := stands.onward steps.toGrows
  have plain := behind.plain still.scene.bare (still.scene.lawful.proper part).nested
  have once : last.scene.Local last.scene.machine.scope →
      last.scene.machine.store.binds last.scene.machine.scope name.lexeme = false := by
    rw [steps.scope]
    exact fun inside => steps.unbound stands.known (unbound (inside.earlier steps.toExtends kept.scene stands.known))
  exact bind_name still rfl behind.known plain once fun b later _ => fine.later later.toExtends

theorem function_declared {routine : Routine} (sound : r.Sound lies)
    (inside : lies ⟨σ, .stmt (.function routine)⟩) (meets : r.scene.Meets here σ) :
    Upholds lies [routine.head] (Completes lies σ (.function routine))
      (Watching.making (newFunction routine) [] >>= fun f =>
        Watching.binding routine.name f >>= fun _ => pure .normal) here r := by
  let f : Function := ⟨r.scene.machine.store.nextIdentity, routine, r.scene.machine.scope, false⟩
  let home : Home := ⟨here.display, []⟩
  have made : Upholds lies [] (fun v a => v = .callee (.function f) ∧ a.homes[f.identity]? = some home)
      (Watching.making (newFunction routine) []) here r :=
    .making [] sound rfl ⟨rfl, sound.scene.home_settle home⟩
  refine made.steps.widen_nil.bind fun v after _ kept fine => ?_
  obtain ⟨⟨rfl, known⟩, steps⟩ := fine
  have grows := steps.toGrows
  have stands := meets.stands.onward grows
  have bare := stands.plain kept.scene.bare (kept.scene.lawful.proper inside).nested
  have once := (meets.grows grows).unbound kept.scene.bare (undeclared kept inside List.mem_cons_self)
  refine bind_name (t := routine.head) kept rfl stands.known bare once fun b later bound => ?_
  have part := kept.scene.lawful.part inside List.mem_cons_self
  -- Its own name is bound where the function stands.
  have around : b.Stands (σ.declare [routine.head]) here.display r.scene.machine.scope := by
    rw [grows.scope] at bound stands
    refine (stands.later later.toExtends).declare _ fun t member => ?_
    rw [List.mem_singleton.mp member]
    exact bound
  exact ⟨⟨.function, nofun, ⟨nofun, nofun⟩, _, home, part, later.home known, around⟩,
    .inr ⟨(plain sound inside meets).later (grows.toExtends.trans later.toExtends), rfl⟩⟩

theorem methods_get? (methods : List Routine) (closure : ScopeId) (start : Names Method)
    (found : (methods.foldl (fun table r => Names.put r.name (Method.mk r closure) table) start).get? name =
      some m) : (∃ r ∈ methods, m = ⟨r, closure⟩) ∨ start.get? name = some m := by
  induction methods generalizing start with
  | nil => exact .inr found
  | cons first rest ih =>
    rcases ih _ found with ⟨r, member, same⟩ | before
    · exact .inl ⟨r, List.mem_cons_of_mem _ member, same⟩
    · rw [Names.get?_put] at before
      split at before
      · cases before
        exact .inl ⟨first, List.mem_cons_self, rfl⟩
      · exact .inr before

theorem class_declared {name : Token} {methods : List Routine} (sound : r.Sound lies)
    (inside : lies ⟨σ, .stmt (.classes name methods)⟩) (meets : r.scene.Meets here σ) :
    Upholds lies [name] (Completes lies σ (.classes name methods))
      (Watching.binding name.lexeme .nil >>= fun _ =>
        Watching.making (newClass name.lexeme methods) methods >>= fun made =>
          Watching.lift (Running.reassign name made) >>= fun _ => pure .normal) here r := by
  have once := meets.unbound sound.scene.bare (undeclared sound inside List.mem_cons_self)
  have made := Upholds.classes name methods sound meets.stands.known (plain sound inside meets)
    (sound.scene.lawful.proper inside).code.1 once fun v after grows kept bound make => by
      have around := (meets.declare grows fun t member => by
        rw [List.mem_singleton.mp member]; exact bound).stands
      have settled : after.Grows [] _ := Scene.grows_settle ⟨here.display, methods⟩
      cases make
      refine ⟨⟨here.display, methods⟩, kept.home_settle _, fun other m found => ?_⟩
      rcases methods_get? methods after.machine.scope [] found with ⟨r, member, rfl⟩ | nothing
      · have part := kept.lawful.part inside (List.mem_map_of_mem member)
        exact ⟨_, part, around.later settled.toExtends⟩
      · cases nothing
  have ended : Upholds lies [name] (Completes lies σ (.classes name methods)) _ here r :=
    made.bind fun _ final later kept bound => .pure kept Ending.normal ⟨.normal, fun _ t member => by
      rw [List.mem_singleton.mp member, later.scope]
      exact bound⟩
  exact ended

theorem block_succ (h : Upholding lies fuel) {body : List Stmt} (sound : r.Sound lies)
    (inside : lies ⟨σ, .stmt (.block body)⟩) (meets : r.scene.Meets here σ) :
    Upholds lies [] (Ending.Fine lies σ) (Watching.opening enterBlock (.block body)
      (here.nest (.block body)).enter (Stmt.watchAll fuel body)) here r := by
  let τ := (σ.nest (.block body)).enter (.block body)
  let f : Frame := ⟨.block body, [], []⟩
  have part := sound.scene.lawful.part inside List.mem_cons_self
  let entered := r.scene.opened r.scene.machine.scope [] (.block body)
  have opened : entered.Stands τ (r.scene.next :: here.display) r.scene.next :=
    meets.stands.opened (f := f) sound.scene rfl rfl nofun nofun
  have own : (entered.move r.scene.next).Exact τ :=
    sound.scene.exact_opened (σ := σ) (f := f) rfl nofun
  have suits := (meets.nest (.block body)).suits
  have run : ∀ after : Record, after.scene = entered.move r.scene.next → after.Sound lies →
      Upholds lies (body.flatMap Stmt.declares) (Ending.Fine lies σ) (Stmt.watchAll fuel body)
        ((here.nest (.block body)).enter r.scene.next) after := by
    intro after same kept
    refine (h.stmts kept part ?_).imp fun ending a _ fine => fine.outward (σ.loops_nest_other _ rfl) rfl
    rw [same]
    exact ⟨opened.later (.move _ _), own, ⟨suits.around, suits.running, suits.initializer⟩⟩
  have fits := sound.scene.receivers.fits_plain (plain sound inside meets) (.block body)
  exact .opening sound rfl rfl fits trivial nofun nofun (fun _ _ _ fine => fine.later (.move _ _)) run

theorem branch_succ (h : Upholding lies fuel) {condition : Expr} {yes : Stmt} {no : Option Stmt}
    (sound : r.Sound lies) (meets : r.scene.Meets here σ) :
    lies ⟨σ, .stmt (.branch condition yes no)⟩ → Upholds lies [] (Ending.Fine lies σ) (condition.watch fuel >>= fun v =>
      if v.holds then Watching.nested (.branch condition yes no) (yes.watch fuel)
      else match no with
        | some other => Watching.nested (.branch condition yes no) (other.watch fuel)
        | none => pure .normal) here r := by
  intro inside
  have part : ∀ T ∈ Stmt.parts σ (.branch condition yes no), lies T := fun T member =>
    sound.scene.lawful.part inside member
  have taken : ∀ (s : Stmt) (after : Record), r.scene.Grows [] after.scene → after.Sound lies →
      s.declares = [] → lies ⟨σ.nest (.branch condition yes no), .stmt s⟩ →
      Upholds lies [] (Ending.Fine lies σ) (Watching.nested (.branch condition yes no) (s.watch fuel))
        here after := by
    intro s after grows kept none lies_s
    have run := h.stmt kept lies_s ((meets.grows grows).nest _)
    rw [none] at run
    exact .nested _ (run.imp fun ending a _ fine => fine.1.outward (σ.loops_nest_other _ rfl) rfl)
  cases no with
  | none =>
    refine (h.expr sound (part ⟨σ, .expr condition⟩ (by simp [Stmt.parts])) meets.stands).bind
      fun v after grows kept _ => ?_
    split
    · exact taken yes after grows kept (kept.scene.lawful.branchYes inside) (part _ (by simp [Stmt.parts]))
    · exact .pure kept Ending.normal .normal
  | some no =>
    refine (h.expr sound (part ⟨σ, .expr condition⟩ (by simp [Stmt.parts])) meets.stands).bind
      fun v after grows kept _ => ?_
    split
    · exact taken yes after grows kept (kept.scene.lawful.branchYes inside) (part _ (by simp [Stmt.parts]))
    · exact taken no after grows kept (kept.scene.lawful.branchNo inside) (part _ (by simp [Stmt.parts]))

theorem stmt_succ (h : Upholding lies fuel) {s : Stmt} (sound : r.Sound lies) (inside : lies ⟨σ, .stmt s⟩)
    (meets : r.scene.Meets here σ) :
    Upholds lies s.declares (Completes lies σ s) (s.watch (fuel + 1)) here r := by
  have shows : ∀ ending after, Completes lies σ s ending after → r.scene.Steps lies s.declares after →
      Moment.Shows lies ⟨here, after, .ends s ending⟩ := by
    intro ending after fine steps
    cases ending with
    | leave | giveBack => trivial
    | normal =>
      refine ⟨σ, inside, ?_, fine.2 rfl⟩
      rw [steps.scope]
      exact steps.label (meets.stands.label sound.scene.bare)
  suffices ran : Upholds lies s.declares (Completes lies σ s) _ here r from
    (Upholds.ending s ran.steps (fun ending after fine => ⟨σ, inside, meets.suits, fine.1.1.1⟩)
      fun ending after fine => shows ending after fine.1 fine.2).imp fun _ _ _ fine => fine.1
  have part : ∀ T ∈ s.parts σ, lies T := fun T member => sound.scene.lawful.part inside member
  cases s with
  | expression value =>
    refine completes_undeclared rfl ?_
    exact (h.expr sound (part _ List.mem_cons_self) meets.stands).bind fun _ after _ kept _ =>
      .pure kept Ending.normal .normal
  | print keyword value =>
    refine completes_undeclared rfl ?_
    refine (h.expr sound (part _ List.mem_cons_self) meets.stands).bind fun v after _ kept _ => ?_
    exact (Upholds.print kept keyword _).bind fun _ last _ kept _ => .pure kept Ending.normal .normal
  | var name initial =>
    cases initial with
    | none =>
      have once := meets.unbound sound.scene.bare (undeclared sound inside List.mem_cons_self)
      exact bind_name sound rfl meets.stands.known (plain sound inside meets) once fun _ _ _ => trivial
    | some initial => exact var_succ h sound inside meets
  | block body => exact completes_undeclared rfl (block_succ h sound inside meets)
  | branch condition yes no => exact completes_undeclared rfl (branch_succ h sound meets inside)
  | loop condition body =>
    refine completes_undeclared rfl (.nested _ ?_)
    refine (h.turn sound inside (meets.nest _)).imp fun ending a _ fine => ?_
    cases ending with
    | normal => exact .normal
    | leave => exact absurd rfl fine.1
    | giveBack v => exact ⟨fine.2.1, fine.2.2⟩
  | leave keyword =>
    exact completes_undeclared rfl (.pure sound Ending.leave ⟨sound.scene.lawful.leaves inside, nofun⟩)
  | function routine => exact function_declared sound inside meets
  | giveBack keyword value =>
    refine completes_undeclared rfl ?_
    have returns := sound.scene.lawful.returns inside
    cases value with
    | none =>
      refine .pure sound (Ending.giveBack .nil) ⟨⟨returns, fun _ => rfl⟩, ?_⟩
      rintro _ ⟨⟩
      trivial
    | some value =>
      have plain := sound.scene.lawful.returnsNone inside
      refine (h.expr sound (part _ List.mem_cons_self) meets.stands).bind fun v after _ kept fine => ?_
      refine .pure kept (Ending.giveBack v) ⟨⟨returns, fun initializer => absurd initializer plain⟩, ?_⟩
      rintro _ ⟨⟩
      exact fine
  | classes name methods => exact class_declared sound inside meets

theorem stmts_succ (h : Upholding lies fuel) {ss : List Stmt} (sound : r.Sound lies)
    (inside : lies ⟨σ, .stmts ss⟩) (meets : r.scene.Meets here σ) :
    Upholds lies (ss.flatMap Stmt.declares) (Ending.Fine lies σ) (Stmt.watchAll (fuel + 1) ss) here r := by
  cases ss with
  | nil => exact .pure sound Ending.normal .normal
  | cons s rest =>
    have part : ∀ T ∈ Spot.parts ⟨σ, .stmts (s :: rest)⟩, lies T := fun T member =>
      sound.scene.lawful.part inside member
    have first := h.stmt sound (part ⟨σ, .stmt s⟩ (by simp [Spot.parts])) meets
    have both : (s :: rest).flatMap Stmt.declares = s.declares ++ rest.flatMap Stmt.declares := rfl
    rw [both]
    refine first.andThen (fun t member => List.mem_append_left _ member) fun ending after grows kept fine => ?_
    cases ending with
    | leave => exact .pure kept Ending.leave fine.1
    | giveBack v => exact .pure kept (Ending.giveBack v) fine.1
    | normal =>
      have bound := fine.2 rfl
      rw [grows.scope] at bound
      have behind := part ⟨σ.declare s.declares, .stmts rest⟩ (by simp [Spot.parts])
      have run := (h.stmts kept behind (meets.declare grows bound)).imp fun ending a _ fine =>
        fine.outward (σ.loops_declare _) (σ.body_declare _)
      exact run.widen fun t member => List.mem_append_right _ member

theorem turn_succ (h : Upholding lies fuel) {condition : Expr} {body : Stmt} (sound : r.Sound lies)
    (inside : lies ⟨σ, .stmt (.loop condition body)⟩)
    (meets : r.scene.Meets here (σ.nest (.loop condition body))) :
    Upholds lies []
      (fun ending a => ending ≠ .leave ∧ ending.Fine lies (σ.nest (.loop condition body)) a)
      (Stmt.watchTurn (fuel + 1) condition body) here r := by
  have part : ∀ T ∈ Stmt.parts σ (.loop condition body), lies T := fun T member =>
    sound.scene.lawful.part inside member
  have asked := h.expr sound (part _ List.mem_cons_self) meets.stands
  refine asked.bind fun v after grows kept _ => ?_
  split
  · have run := h.stmt kept (part _ (List.mem_cons_of_mem _ List.mem_cons_self)) (meets.grows grows)
    rw [kept.scene.lawful.turns inside] at run
    refine run.bind fun ending last more kept fine => ?_
    cases ending with
    | normal => exact h.turn kept inside (meets.grows (grows.trans more))
    | leave => exact .pure kept Ending.normal ⟨nofun, .normal⟩
    | giveBack v => exact .pure kept (Ending.giveBack v) ⟨nofun, fine.1⟩
  · exact .pure kept Ending.normal ⟨nofun, .normal⟩

end Upholding

theorem upholding (lies : Spot → Prop) (fuel : Nat) : Upholding lies fuel := by
  induction fuel with
  | zero => exact .zero
  | succ fuel ih =>
    exact ⟨ih.expr_succ, ih.exprs_succ, ih.callee_succ, ih.routine_succ, ih.stmt_succ, ih.stmts_succ,
      ih.turn_succ⟩

end ScopeScript
