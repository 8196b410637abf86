import ScopeScript.Proofs.Running.Uphold

namespace ScopeScript

open Watching

variable {lies : Spot → Prop} {names : List Token} {here : Standpoint} {r : Record}
  {good : α → Scene → Prop} {σ : Setting}

theorem Value.Sound.ofLiteral (value : Literal) (a : Scene) : (Value.ofLiteral value).Sound lies a := by
  cases value <;> trivial

-- Operators make data that is sound everywhere, and no fault of theirs is a failed look-up.
def Plain (lies : Spot → Prop) (a : Scene) : Except RuntimeFault Value → Prop
  | .ok v => v.Sound lies a
  | .error f => f.cause ≠ .undefinedVariable

theorem unaryResult_plain (a : Scene) (operator : Token) (operand : Value) :
    Plain lies a (unaryResult operator operand) := by
  unfold unaryResult
  repeat' split
  all_goals first | trivial | nofun

theorem arithmetic_plain (a : Scene) (operator : Token) (x y : Float) :
    Plain lies a (arithmetic operator x y) := by
  unfold arithmetic
  repeat' split
  all_goals first | trivial | nofun

theorem binaryResult_plain (a : Scene) (operator : Token) (left right : Value) :
    Plain lies a (binaryResult operator left right) := by
  unfold binaryResult
  repeat' split
  all_goals first | exact arithmetic_plain a operator _ _ | trivial | nofun

theorem Machine.target?_binds {m : Machine} {scope : ScopeId} (found : m.target? i name = some scope) :
    m.store.binds scope name = true := by
  unfold Machine.target? at found
  split at found
  · exact (Option.filter_eq_some_iff.mp found).2
  · exact List.find?_some (p := fun s => m.store.binds s name) found

-- Changes of the machine outside its store.
theorem Scene.grows_outside {a : Scene} (sink : Sink) (clock : Nat) :
    a.Grows names { a with machine := { a.machine with sink := sink, clock := clock } } :=
  .aside rfl rfl rfl rfl rfl rfl (List.prefix_refl _) rfl (Nat.le_refl _)

theorem Scene.Sound.outside {a : Scene} (h : a.Sound lies) (sink : Sink) (clock : Nat) :
    Scene.Sound lies { a with machine := { a.machine with sink := sink, clock := clock } } :=
  h.aside (Scene.grows_outside sink clock) rfl rfl rfl rfl (fun _ _ _ => .inl) h.homes

-- What a local statement declares is not touched yet where it stands.
theorem Scene.Meets.untouched {a : Scene} (meets : a.Meets here σ) {t : Token}
    (undeclared : ∀ f outer, σ.frames = f :: outer → f.declares t.lexeme = false) {f : Frame} {outer : List Frame}
    (frames : σ.frames = f :: outer) : ¬a.Touched a.machine.scope t.lexeme := by
  intro touched
  have declared := meets.exact f _ frames _ touched
  rw [undeclared f _ frames] at declared
  cases declared

theorem Scene.Meets.unbound {a : Scene} (meets : a.Meets here σ) (bare : a.labels[a.machine.globals]? = some none)
    {t : Token} (undeclared : ∀ f outer, σ.frames = f :: outer → f.declares t.lexeme = false)
    (inside : a.Local a.machine.scope) : a.machine.store.binds a.machine.scope t.lexeme = false := by
  obtain ⟨region, label⟩ := inside
  cases frames : σ.frames with
  | cons f outer => exact Bool.eq_false_iff.mpr fun bound => meets.untouched undeclared frames (.inl bound)
  | nil =>
    have stands := meets.stands
    have empty := stands.frames
    rw [frames, List.forall₂_nil_left_iff] at empty
    have chain := stands.chain
    rw [empty] at chain
    rw [← Store.chain_head _ _ _ _ chain, bare] at label
    cases label

namespace Upholds

theorem plain {e : Except RuntimeFault Value} (sound : r.Sound lies) (h : Plain lies r.scene e) :
    Upholds lies names (fun v a => v.Sound lies a) (Watching.lift (Running.ofExcept e)) here r := by
  cases e with
  | ok v => exact .lift sound rfl (.refl _ _) sound.scene h
  | error f =>
    refine .halt sound rfl (.refl _ _) sound.scene fun name same => h ?_
    cases same
    rfl

theorem print (sound : r.Sound lies) (keyword : Token) (text : String) :
    Upholds lies names (fun _ _ => True) (Watching.lift (Running.print keyword text)) here r := by
  let machine : Machine := { r.scene.machine with sink := (r.scene.machine.sink.write text).2 }
  have steps : r.scene.Steps lies names { r.scene with machine := machine } :=
    .aside (Scene.grows_outside _ _) rfl rfl
  have kept : Scene.Sound lies { r.scene with machine := machine } := sound.scene.outside _ _
  cases written : (r.scene.machine.sink.write text).1 with
  | none =>
    have run : Running.print keyword text r.scene.machine = .ok () machine := by
      unfold Running.print
      dsimp only
      rw [written]
    exact .lift sound run steps kept trivial
  | some failure =>
    have run : Running.print keyword text r.scene.machine =
        .error (.fault ⟨.output failure, keyword⟩) machine := by
      unfold Running.print
      dsimp only
      rw [written]
    exact .halt sound run steps kept nofun

theorem flush (sound : r.Sound lies) :
    Upholds lies names (fun _ _ => True) (Watching.lift Running.flush) here r := by
  cases flushed : r.scene.machine.sink.flush with
  | none =>
    have run : Running.flush r.scene.machine = .ok () r.scene.machine := by
      unfold Running.flush
      rw [flushed]
    exact .lift sound run (.refl _ _) sound.scene trivial
  | some failure =>
    have run : Running.flush r.scene.machine =
        .error (.fault ⟨.output failure, ⟨.stop, "", ⟨0, 0⟩⟩⟩) r.scene.machine := by
      unfold Running.flush
      rw [flushed]
    exact .halt sound run (.refl _ _) sound.scene nofun

theorem seconds (sound : r.Sound lies) :
    Upholds lies names (fun v a => v.Sound lies a) (Watching.lift Running.seconds) here r :=
  .lift sound rfl (.aside (Scene.grows_outside _ _) rfl rfl) (sound.scene.outside _ _) trivial

-- A look-up is recorded before it is made.
theorem referring {look : Running α} {e : Expr} (sound : r.Sound lies) (inside : lies ⟨σ, .expr e⟩)
    (refers : e.Refers i name) (stands : r.scene.Stands σ here.display r.scene.machine.scope)
    (missed : r.scene.machine.target? i name.lexeme = none →
      look r.scene.machine = .error (.fault ⟨.undefinedVariable, name⟩) r.scene.machine)
    (found : ∀ scope after, r.scene.machine.target? i name.lexeme = some scope →
      Moment.Looks ⟨here, r.scene, .refers i name⟩ σ i name → after.scene = r.scene →
      after.Sound lies → Upholds lies names good (Watching.lift look) here after) :
    Upholds lies names good (Watching.referring i name look) here r := by
  let m : Moment := ⟨here, r.scene, .refers i name⟩
  have looks : m.Looks σ i name :=
    ⟨stands, sound.scene.alone, sound.scene.bare, sound.scene.lawful.refers inside refers,
      fun s n begun => (sound.scene.unfinished s n begun).2.2⟩
  have tells : m.Tells lies := ⟨σ, e, inside, refers, looks⟩
  have marked : Record.Sound lies { r with moments := r.moments ++ [m] } := sound.marked tells trivial
  show Upholds lies names good (Watching.lift look) here { r with moments := r.moments ++ [m] }
  cases target : r.scene.machine.target? i name.lexeme with
  | some scope => exact found scope _ target looks rfl marked
  | none =>
    unfold Upholds Watching.lift
    dsimp only
    rw [missed target]
    refine ⟨.refl _ _, marked, fun other same => ⟨r.moments, m, rfl, i, ?_, ?_⟩⟩
    · cases same
      rfl
    · cases same
      exact target

theorem reading {e : Expr} (sound : r.Sound lies) (inside : lies ⟨σ, .expr e⟩)
    (refers : e.Refers i name) (stands : r.scene.Stands σ here.display r.scene.machine.scope) :
    Upholds lies names (fun v a => v.Sound lies a)
      (Watching.referring i name (Running.read i name)) here r := by
  refine referring sound inside refers stands (fun target => ?_) fun scope after target _ same kept => ?_
  · unfold Running.read
    rw [target]
    rfl
  · have bound := Machine.target?_binds target
    obtain ⟨v, own⟩ := (Store.binds_exact _ _ _).mp bound
    have run : Running.read i name after.scene.machine = .ok v after.scene.machine := by
      unfold Running.read
      rw [same, target]
      dsimp only [Option.bind]
      rw [own]
    exact .lift kept run (.refl _ _) kept.scene (kept.scene.values scope name.lexeme v (same ▸ own))

theorem writing {e : Expr} {v : Value} (sound : r.Sound lies) (inside : lies ⟨σ, .expr (.assign i name e)⟩)
    (stands : r.scene.Stands σ here.display r.scene.machine.scope)
    (fine : v.Sound lies r.scene) :
    Upholds lies names (fun _ _ => True) (Watching.referring i name (Running.write i name v)) here r := by
  refine referring sound inside .assign stands (fun target => ?_) fun scope after target looks same kept => ?_
  · unfold Running.write
    rw [target]
    rfl
  · have loose := looks.loose inside target
    change r.scene.Loose lies scope name.lexeme at loose
    rw [← same] at target fine loose
    have bound := Machine.target?_binds target
    have free := (kept.scene.lawful.proper inside).code.1
    have run : Running.write i name v after.scene.machine =
        .ok () { after.scene.machine with store := after.scene.machine.store.put scope name.lexeme v } := by
      unfold Running.write
      rw [target]
      rfl
    exact widen_nil <| .lift kept run (.rebind _ v scope bound loose)
      (kept.scene.rebind _ v scope bound free fine) trivial

-- A value need only be sound once its name is bound.
theorem binding (t : Token) (v : Value) (sound : r.Sound lies)
    (known : r.scene.machine.scope < r.scene.machine.store.scopes.size)
    (plain : r.scene.Plain r.scene.machine.scope)
    (once : r.scene.Local r.scene.machine.scope → r.scene.machine.store.binds r.scene.machine.scope t.lexeme = false)
    (fine : ∀ b, r.scene.Grows [t] b → b.machine.store.binds r.scene.machine.scope t.lexeme = true →
      v.Sound lies b) :
    Upholds lies [t] (fun _ b => b.machine.store.binds r.scene.machine.scope t.lexeme = true)
      (Watching.binding t.lexeme v) here r := by
  have steps : r.scene.Steps lies [t] _ := .bind v t known once
  have bound : (r.scene.machine.store.put r.scene.machine.scope t.lexeme v).binds
      r.scene.machine.scope t.lexeme = true := (Store.binds_put ..).mpr (.inl ⟨rfl, rfl, known⟩)
  exact ⟨steps, sound.onScene steps.leads (sound.scene.bind v t known plain (fine _ steps.toGrows bound)), bound⟩

theorem beginning (t : Token) (sound : r.Sound lies) (meets : r.scene.Meets here σ)
    (undeclared : ∀ f outer, σ.frames = f :: outer → f.declares t.lexeme = false) :
    Upholds lies [t] (fun _ b => b.Stands (σ.initializing t) here.display b.machine.scope ∧
        (b.Local b.machine.scope → b.machine.store.binds b.machine.scope t.lexeme = false))
      (Watching.beginning t.lexeme) here r := by
  unfold Upholds
  cases given : here.display with
  | nil =>
    rw [beginning_global r t.lexeme given]
    exact ⟨.refl _ _, sound, given ▸ meets.stands.initializing t fun inside => absurd given inside,
      meets.unbound sound.scene.bare undeclared⟩
  | cons there outer =>
    have stands := meets.stands
    rw [beginning_local r t.lexeme (given ▸ List.cons_ne_nil _ _)]
    rw [given] at stands
    obtain ⟨f, frames, holds⟩ : ∃ f rest, σ.frames = f :: rest := by
      cases inside : σ.frames with
      | nil =>
        have frames := stands.frames
        rw [inside] at frames
        cases frames
      | cons f rest => exact ⟨f, rest, rfl⟩
    have apart : r.scene.machine.scope ≠ r.scene.machine.globals := fun same =>
      stands.apart (by rw [← same, ← stands.innermost]; exact List.mem_cons_self)
    have unbound := Bool.eq_false_iff.mpr fun bound => meets.untouched undeclared holds (.inl bound)
    have begun : (r.scene.begin t.lexeme).Touched r.scene.machine.scope t.lexeme :=
      .inr List.mem_cons_self
    have steps : r.scene.Steps lies [t] (r.scene.begin t.lexeme) := .begin t
    refine ⟨steps, sound.onScene steps.leads (sound.scene.begin t apart stands.known unbound), ?_, fun _ => unbound⟩
    exact (stands.later steps.toExtends).initializing t fun _ => begun

theorem making {make : Running Value} {v : Value} {good : Value → Scene → Prop} (methods : List Routine)
    (sound : r.Sound lies) (run : make r.scene.machine =
      .ok v { r.scene.machine with store := r.scene.machine.store.identity.2 })
    (fine : good v ((r.scene.onStore r.scene.machine.store.identity.2).settle ⟨here.display, methods⟩)) :
    Upholds lies names good (Watching.making make methods) here r := by
  let final := (r.scene.onStore r.scene.machine.store.identity.2).settle ⟨here.display, methods⟩
  have made : Watching.making make methods here r = .ok v { r with scene := final } := by
    show EStateM.bind (Watching.lift make here) _ r = _
    unfold EStateM.bind Watching.lift
    rw [run]
    rfl
  unfold Upholds
  rw [made]
  have steps : r.scene.Steps lies names final := .aside (Scene.grows_settle _) rfl rfl
  exact ⟨steps, sound.onScene steps.leads (sound.scene.settle _), fine⟩

-- A method in a scope of its own with its receiver.
theorem attach {i : Instance} {m : Method} (sound : r.Sound lies) (made : (Value.instance i).Sound lies r.scene)
    (found : i.madeBy.methods.get? name = some m) :
    Upholds lies names (fun f b => (Callee.function f).Sound lies b ∧ (f, i) ∈ b.attached ∧ f.routine = m.routine)
      (m.watchAttach i) here r := by
  obtain ⟨home, known, methods⟩ := made.1
  obtain ⟨τ, inside, stands⟩ := methods name m found
  let f : Function :=
    ⟨r.scene.machine.store.nextIdentity, m.routine, r.scene.next, m.routine.isInitializer⟩
  let final := r.scene.given m.closure f i home
  have run : m.watchAttach i here r = .ok f { r with scene := final } := by
    have ran : m.watchAttach i here r = .ok f { r with
        scene := r.scene.given m.closure f i (r.scene.homes[i.madeBy.identity]?.getD ⟨[], []⟩) } := rfl
    rw [ran, known, Option.getD_some]
  have steps : r.scene.Steps lies [] final := .attach sound.scene m.closure f i home
  have plain : r.scene.Plain m.closure :=
    stands.plain sound.scene.bare (sound.scene.lawful.proper inside).nested.around
  have kept : final.Sound lies := sound.scene.given m.closure f i home made plain rfl rfl
  have settled : final.homes[f.identity]? = some ⟨f.closure :: home.display, []⟩ := by
    show (r.scene.homes ++ [_])[r.scene.machine.store.nextIdentity]? = _
    rw [← sound.scene.homes, List.getElem?_concat_length]
  have holds : final.Stands (τ.enter (.receiver home.methods)) (f.closure :: home.display) f.closure :=
    stands.given m.closure f i home sound.scene rfl
  have exact : m.routine.isInitializer = true ↔ m.routine.methodKind = .initializer := by
    unfold Routine.methodKind
    split <;> simp [*]
  have within : m.routine.methodKind ≠ .outside := by
    unfold Routine.methodKind
    split <;> simp
  unfold Upholds
  rw [run]
  have member : (f, i) ∈ final.attached := List.mem_append_right _ List.mem_cons_self
  have rests : final.Rests lies m.routine.methodKind f.routine f.identity f.closure :=
    ⟨_, ⟨f.closure :: home.display, []⟩, inside, settled, holds⟩
  exact ⟨steps.widen (by simp), sound.onScene steps.leads kept,
    ⟨⟨m.routine.methodKind, within, exact, rests⟩, .inl ⟨i, member⟩⟩, member, rfl⟩

-- A class. Its name stands for nil until it is made, and nothing else runs meanwhile.
theorem classes (name : Token) (methods : List Routine) (sound : r.Sound lies)
    (known : r.scene.machine.scope < r.scene.machine.store.scopes.size)
    (plain : r.scene.Plain r.scene.machine.scope) (free : name.Free)
    (once : r.scene.Local r.scene.machine.scope → r.scene.machine.store.binds r.scene.machine.scope name.lexeme = false)
    (fine : ∀ v after, r.scene.Grows [name] after → after.Sound lies →
      after.machine.store.binds r.scene.machine.scope name.lexeme = true →
      newClass name.lexeme methods after.machine = .ok v { after.machine with store := after.machine.store.identity.2 } →
      v.Sound lies ((after.onStore after.machine.store.identity.2).settle ⟨here.display, methods⟩)) :
    Upholds lies [name] (fun _ b => b.machine.store.binds r.scene.machine.scope name.lexeme = true)
      (Watching.binding name.lexeme .nil >>= fun _ =>
        Watching.making (newClass name.lexeme methods) methods >>= fun made =>
          Watching.lift (Running.reassign name made)) here r := by
  let scope := r.scene.machine.scope
  let named := (r.scene.onStore (r.scene.machine.store.put scope name.lexeme .nil)).complete name.lexeme
  let made := (named.onStore named.machine.store.identity.2).settle ⟨here.display, methods⟩
  have first : r.scene.Steps lies [name] named := .bind .nil name known once
  have second : named.Steps lies [name] made := .aside (Scene.grows_settle _) rfl rfl
  have bound : named.machine.store.binds scope name.lexeme = true :=
    (Store.binds_put ..).mpr (.inl ⟨rfl, rfl, known⟩)
  have begun : named.Sound lies := sound.scene.bind .nil name known plain trivial
  obtain ⟨v, make⟩ : ∃ v, newClass name.lexeme methods named.machine =
      .ok v { named.machine with store := named.machine.store.identity.2 } := ⟨_, rfl⟩
  have given := fine v named first.toGrows begun bound make
  let final := made.onStore (made.machine.store.put scope name.lexeme v)
  have target : made.machine.store.binder? scope name.lexeme = some scope := by
    obtain ⟨outer, chain⟩ := made.machine.store.chain_cons (Nat.lt_of_lt_of_le known (first.trans second).size)
    unfold Store.binder?
    rw [chain, List.find?_cons, show made.machine.store.binds scope name.lexeme = true from bound]
  have ran : (Watching.binding name.lexeme .nil >>= fun _ =>
      Watching.making (newClass name.lexeme methods) methods >>= fun made =>
        Watching.lift (Running.reassign name made)) here r = .ok () { r with scene := final } := by
    have last : Running.reassign name v made.machine = .ok () final.machine := by
      unfold Running.reassign
      rw [show made.machine.scope = scope from rfl, target]
      rfl
    have lifted : Watching.lift (Running.reassign name v) here { r with scene := made } =
        .ok () { r with scene := final } := by
      unfold Watching.lift
      dsimp only
      rw [last]
      rfl
    cases make
    exact lifted
  have grows : made.Grows [] final := Scene.grows_rebind _ v scope bound
  have before := first.trans second
  have steps : r.scene.Steps lies [name] final := by
    refine ⟨before.toGrows.trans (grows.widen nofun), fun s there n => ?_,
      Scene.Steps.furnished_of_labels grows.toExtends rfl ∘ before.furnished⟩
    show Store.own? (Store.put ..) s n = _ ∨ _
    rw [Store.own?_put]
    split
    · obtain ⟨rfl, rfl, _⟩ := ‹_›
      exact .inr (Scene.Steps.binds_once name once)
    · exact before.own s there n
  have kept : final.Sound lies :=
    (begun.settle _).rebind _ v _ bound free given
  unfold Upholds
  rw [ran]
  exact ⟨steps, sound.onScene steps.leads kept, grows.binds _ _ bound⟩

-- A run in a new scope.
theorem opening {enter : Running ScopeId} {closure : ScopeId} {bindings : Names Value} {region : Region}
    {there : ScopeId → Standpoint} {x : Watching α} {inner : List Token} (sound : r.Sound lies)
    (enters : enter r.scene.machine =
      Running.withStore (fun s => s.openWithin closure bindings) r.scene.machine)
    (plain : region.isReceiver = false) (fits : r.scene.Fits closure region) (laid : region.Laid lies)
    (parameters : ∀ body, region = .routine body → ∀ t ∈ body.parameters, bindings.binds t.lexeme = true)
    (fine : ∀ n w, bindings.get? n = some w → w.Sound lies r.scene)
    (moved : ∀ result b scope, good result b → good result (b.move scope))
    (run : ∀ after, after.scene = (r.scene.opened closure bindings region).move r.scene.next →
      after.Sound lies → Upholds lies inner good x (there r.scene.next) after) :
    Upholds lies names good (Watching.opening enter region there x) here r := by
  let opened := r.scene.opened closure bindings region
  have entered : r.scene.Steps lies [] opened := .opening sound.scene closure bindings region parameters
  have kept : opened.Sound lies := sound.scene.opened closure region plain fits laid fine
  have upheld := run { r with scene := opened.move r.scene.next } rfl
    (sound.onScene (entered.leads.trans (.move _ _)) (kept.move r.scene.next))
  have same : Watching.opening enter region there x here r =
      Watching.inside (there r.scene.next) r.scene.next x here { r with scene := opened } := by
    show EStateM.bind (Watching.lift enter here) _ r = _
    unfold EStateM.bind Watching.lift
    rw [enters]
    rfl
  unfold Upholds at upheld ⊢
  rw [same]
  unfold Watching.inside
  dsimp only
  cases ran : x (there r.scene.next) { r with scene := opened.move r.scene.next } with
  | ok result after =>
    rw [ran] at upheld
    obtain ⟨grows, good, result⟩ := upheld
    refine ⟨(entered.inside (Nat.le_refl _) grows).widen nofun, ?_, moved _ _ _ result⟩
    exact good.onScene (.move _ _) (good.scene.move _)
  | error halt after =>
    rw [ran] at upheld
    obtain ⟨grows, good, blames⟩ := upheld
    refine ⟨(entered.inside (Nat.le_refl _) grows).widen nofun, ?_, blames⟩
    exact good.onScene (.move _ _) (good.scene.move _)

end Upholds

end ScopeScript
