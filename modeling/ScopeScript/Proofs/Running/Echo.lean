import ScopeScript.Proofs.Running.Revise
import ScopeScript.Proofs.Running.Step

namespace ScopeScript

open Watching

-- Every scope has a label, and the current one is there.
structure Scene.Even (a : Scene) : Prop where
  labels : a.labels.length = a.machine.store.scopes.size
  scope : a.machine.scope < a.machine.store.scopes.size

-- What every watched run keeps of a record.
structure Record.Onward (r after : Record) : Prop where
  moments : r.moments <+: after.moments
  labels : r.scene.labels <+: after.scene.labels
  even : r.scene.Even → after.scene.Even

namespace Record.Onward

theorem refl (r : Record) : r.Onward r := ⟨List.prefix_refl _, List.prefix_refl _, id⟩

theorem trans {r middle after : Record} (first : r.Onward middle) (second : middle.Onward after) : r.Onward after :=
  ⟨first.moments.trans second.moments, first.labels.trans second.labels, second.even ∘ first.even⟩

-- A step of the machine that opens no scope and stays in the current one.
theorem onMachine (r : Record) {m : Machine} (size : m.store.scopes.size = r.scene.machine.store.scopes.size)
    (scope : m.scope = r.scene.machine.scope) : r.Onward { r with scene := { r.scene with machine := m } } :=
  ⟨List.prefix_refl _, List.prefix_refl _, fun even =>
    ⟨even.labels.trans size.symm, by rw [scope, size]; exact even.scope⟩⟩

theorem marked (r : Record) (m : Moment) : r.Onward { r with moments := r.moments ++ [m] } :=
  ⟨List.prefix_append _ _, List.prefix_refl _, id⟩

end Record.Onward

namespace Revision

variable (V : Revision)

-- Nothing is left out that took fuel.
def Paced : Prop := ∀ t, V.omits t = false

-- A scope for the region has its parameters under their new names.
def Fits : Region → Prop
  | .routine r => r.Formed ∧ ∀ t ∈ r.parameters, V.key (.routine r) t.lexeme = some (V.declare t).lexeme
  | _ => True

-- Where a statement has ended, its names are kept as the changed program spells them. Only variables change.
def Settles (s : Stmt) (flow : Ending) (a : Scene) : Prop :=
  flow = .normal → ∀ t ∈ s.declares,
    V.keyAt a.labels[a.machine.scope]? t.lexeme = (if V.drops s then none else some (V.declare t).lexeme) ∧
    ((∀ name initial, s ≠ .var name initial) → V.declare t = t)

-- A look-up leads to the same scope, and to what it keeps under the name.
def Finds (a : Scene) (i : RefId) (name : Token) : Prop :=
  (a.revise V).target? i (V.refer i name).lexeme = a.machine.target? i name.lexeme ∧
    ∀ scope, a.machine.target? i name.lexeme = some scope →
      V.keyAt a.labels[scope]? name.lexeme = some (V.refer i name).lexeme

def Serves (m : Moment) : Prop :=
  match m.event with
  | .refers i name => V.Finds m.scene i name
  | .ends s flow => V.Settles s flow m.scene
  | _ => True

-- The same fault, but a name that is undefined is spelled as the reference that was looked up is now.
def Blames (r : Record) (f f' : RuntimeFault) : Prop :=
  f'.cause = f.cause ∧ (f.cause ≠ .undefinedVariable ∧ f'.token = f.token ∨
    f.cause = .undefinedVariable ∧ ∃ i, (∃ m ∈ r.moments, m.event = .refers i f.token) ∧ f'.token = V.refer i f.token)

theorem Blames.same {r : Record} {f : RuntimeFault} (other : f.cause ≠ .undefinedVariable) : V.Blames r f f :=
  ⟨rfl, .inl ⟨other, rfl⟩⟩

-- What the changed program comes to where the program comes to this.
def Answers (f : α → β) : EStateM.Result Halt Record α → EStateM.Result Halt Machine β → Prop
  | .ok a after, given => given = .ok (f a) (after.scene.revise V)
  | .error (.fault fault) after, given =>
    ∃ fault', given = .error (.fault fault') (after.scene.revise V) ∧ V.Blames after fault fault'
  | .error .outOfFuel after, given => V.Paced → given = .error .outOfFuel (after.scene.revise V)

end Revision

structure Record.Serves (V : Revision) (r : Record) : Prop where
  moments : ∀ m ∈ r.moments, V.Serves m
  regions : ∀ region, some region ∈ r.scene.labels → V.Fits region

theorem Record.Serves.earlier {V : Revision} {r after : Record} (h : after.Serves V) (onward : r.Onward after) :
    r.Serves V :=
  ⟨fun m member => h.moments m (onward.moments.subset member),
    fun region member => h.regions region (onward.labels.subset member)⟩

-- The changed program does what the watched one does on a record, where the code is as it should be,
-- the record that it reaches serves and the result is fine.
def EchoesOn (V : Revision) (p : Prop) (fine : α → Scene → Prop) (f : α → β) (x : Watching α) (y : Running β)
    (here : Standpoint) (r : Record) : Prop :=
  r.Onward (.after (x here r)) ∧
    (p → (Record.after (x here r)).Serves V → (∀ a last, x here r = .ok a last → fine a last.scene) →
      V.Answers f (x here r) (y (r.scene.revise V)))

def Echoes (V : Revision) (p : Prop) (fine : α → Scene → Prop) (f : α → β) (x : Watching α) (y : Running β) : Prop :=
  ∀ here r, r.scene.Even → EchoesOn V p fine f x y here r

namespace Echoes

variable {V : Revision} {p q : Prop} {f : α → β} {fine : α → Scene → Prop} {better : γ → Scene → Prop}
  {x : Watching α} {y : Running β}

theorem given (h : Echoes V q fine f x y) (implies : p → q) : Echoes V p fine f x y := fun here r even =>
  ⟨(h here r even).1, fun formed => (h here r even).2 (implies formed)⟩

theorem finer {finer : α → Scene → Prop} (h : Echoes V p fine f x y) (implies : p → ∀ c a, finer c a → fine c a) :
    Echoes V p finer f x y := fun here r even =>
  ⟨(h here r even).1, fun formed serves good =>
    (h here r even).2 formed serves fun c last ran => implies formed c last.scene (good c last ran)⟩

theorem whatever (h : Echoes V p (fun _ _ => True) f x y) : Echoes V p fine f x y := h.finer fun _ _ _ _ => trivial

theorem pure {a : α} {b : β} (same : f a = b) : Echoes V p fine f (Pure.pure a) (Pure.pure b) := fun _ r _ =>
  ⟨.refl r, fun _ _ _ => congrArg (EStateM.Result.ok · _) same.symm⟩

-- What follows need only answer to results that there are.
theorem bindOf {k : α → Watching γ} {l : β → Running δ} {g : γ → δ} (first : Echoes V p (fun _ _ => True) f x y)
    (next : ∀ a, (∃ here r last, x here r = .ok a last) → Echoes V p better g (k a) (l (f a))) :
    Echoes V p better g (x >>= k) (y >>= l) := by
  intro here r even
  obtain ⟨onward, given⟩ := first here r even
  show r.Onward (.after (EStateM.bind (x here) (fun a => k a here) r)) ∧
    (p → (Record.after (EStateM.bind (x here) (fun a => k a here) r)).Serves V →
      (∀ c last, EStateM.bind (x here) (fun a => k a here) r = .ok c last → better c last.scene) →
        V.Answers g (EStateM.bind (x here) (fun a => k a here) r) (EStateM.bind y l (r.scene.revise V)))
  unfold EStateM.bind
  cases ran : x here r with
  | ok a middle =>
    rw [ran] at onward given
    obtain ⟨later, further⟩ := next a ⟨here, r, middle, ran⟩ here middle (onward.even even)
    refine ⟨onward.trans later, fun formed serves good => ?_⟩
    have same : y (r.scene.revise V) = .ok (f a) (middle.scene.revise V) :=
      given formed (serves.earlier later) fun _ _ _ => trivial
    rw [same]
    exact further formed serves good
  | error halt middle =>
    rw [ran] at onward given
    refine ⟨onward, fun formed serves _ => ?_⟩
    have same := given formed serves fun _ _ _ => trivial
    cases halt with
    | fault fault =>
      obtain ⟨fault', same, blames⟩ := same
      rw [same]
      exact ⟨fault', rfl, blames⟩
    | outOfFuel =>
      intro paced
      rw [same paced]

theorem bind {k : α → Watching γ} {l : β → Running δ} {g : γ → δ} (first : Echoes V p (fun _ _ => True) f x y)
    (next : ∀ a, Echoes V p better g (k a) (l (f a))) : Echoes V p better g (x >>= k) (y >>= l) :=
  first.bindOf fun a _ => next a

theorem asking {k : Standpoint → Watching α} (h : ∀ here, Echoes V p fine f (k here) y) :
    Echoes V p fine f (read >>= k) y := fun here r even => h here here r even

-- What is fine of the result tells which program is echoed.
theorem learning {y' : Running β} {c : α} (h : Echoes V p fine f x y) (gives : ∀ here r, ∃ last, x here r = .ok c last)
    (same : ∀ a, fine c a → y = y') : Echoes V p fine f x y' := by
  intro here r even
  obtain ⟨onward, given⟩ := h here r even
  refine ⟨onward, fun formed serves good => ?_⟩
  obtain ⟨last, ran⟩ := gives here r
  rw [← same _ (good c last ran)]
  exact given formed serves good

-- What is fine at the end of all is what is fine behind the first part.
theorem andPure {c : γ} {d : δ} {g : γ → δ} (first : Echoes V p (fun _ a => better c a) f x y) (same : g c = d) :
    Echoes V p better g (x >>= fun _ => Pure.pure c) (y >>= fun _ => Pure.pure d) := by
  intro here r even
  obtain ⟨onward, given⟩ := first here r even
  show r.Onward (.after (EStateM.bind (x here) _ r)) ∧ (p → (Record.after (EStateM.bind (x here) _ r)).Serves V →
    (∀ c last, EStateM.bind (x here) _ r = .ok c last → better c last.scene) →
      V.Answers g (EStateM.bind (x here) _ r) (EStateM.bind y _ (r.scene.revise V)))
  unfold EStateM.bind
  cases ran : x here r with
  | ok a middle =>
    rw [ran] at onward given
    refine ⟨onward, fun formed serves good => ?_⟩
    have answered : y (r.scene.revise V) = .ok (f a) (middle.scene.revise V) :=
      given formed serves fun b last found => by
        cases found
        exact good c middle rfl
    rw [answered]
    exact congrArg (EStateM.Result.ok · _) same.symm
  | error halt middle =>
    rw [ran] at onward given
    refine ⟨onward, fun formed serves _ => ?_⟩
    have same := given formed serves nofun
    cases halt with
    | fault fault =>
      obtain ⟨fault', same, blames⟩ := same
      rw [same]
      exact ⟨fault', rfl, blames⟩
    | outOfFuel =>
      intro paced
      rw [same paced]

theorem outOfFuel (same : V.Paced → y = Running.outOfFuel) : Echoes V p fine f (Watching.lift Running.outOfFuel) y :=
  fun _ r _ => ⟨.refl r, fun _ _ _ paced => by rw [same paced]; rfl⟩

theorem fail (cause : RuntimeCause) (t : Token) (other : cause ≠ .undefinedVariable) :
    Echoes V p fine f (Watching.lift (Running.fail cause t)) (Running.fail cause t) :=
  fun _ r _ => ⟨.refl r, fun _ _ _ => ⟨⟨cause, t⟩, rfl, .same V other⟩⟩

theorem ofExcept {result : Except RuntimeFault Value} (plain : ∀ a, Plain (fun _ => True) a result) :
    Echoes V p (fun _ _ => True) (Value.revise V) (Watching.lift (Running.ofExcept result))
      (Running.ofExcept (result.map (Value.revise V))) := by
  cases result with
  | ok v => exact .pure rfl
  | error e => exact fun _ r _ => ⟨.refl r, fun _ _ _ => ⟨e, rfl, .same V (plain r.scene)⟩⟩

-- A step of the machine that succeeds and opens no scope.
theorem lift {x : Running α} (run : ∀ a : Scene, ∃ v m, x a.machine = .ok v m ∧
    m.store.scopes.size = a.machine.store.scopes.size ∧ m.scope = a.machine.scope ∧
    y (a.revise V) = .ok (f v) (Scene.revise V { a with machine := m })) :
    Echoes V p fine f (Watching.lift x) y := by
  intro here r _
  obtain ⟨v, m, ran, size, scope, answered⟩ := run r.scene
  have same : Watching.lift x here r = .ok v { r with scene := { r.scene with machine := m } } := by
    unfold Watching.lift
    rw [ran]
  unfold EchoesOn
  rw [same]
  exact ⟨.onMachine r size scope, fun _ _ _ => answered⟩

theorem nested (s : Stmt) (h : Echoes V p fine f x y) : Echoes V p fine f (Watching.nested s x) y :=
  fun here r even => h (here.nest s) r even

theorem homeOf (identity : Identity) {k : Home → Watching α} (h : ∀ home, Echoes V p fine f (k home) y) :
    Echoes V p fine f (Watching.homeOf identity >>= k) y :=
  fun here r even => h (r.scene.homes[identity]?.getD ⟨[], []⟩) here r even

-- A mark behind a run: where the record serves, the mark does.
theorem marking {x z : Watching α} {here : Standpoint} {r : Record} (event : α → Event)
    (h : EchoesOn V p (fun a scene => V.Serves ⟨here, scene, event a⟩) f x y here r)
    (runs : z here r = match x here r with
      | .ok a last => .ok a { last with moments := last.moments ++ [⟨here, last.scene, event a⟩] }
      | .error halt last => .error halt last) : EchoesOn V p fine f z y here r := by
  obtain ⟨onward, given⟩ := h
  unfold EchoesOn
  rw [runs]
  cases ran : x here r with
  | error halt last =>
    rw [ran] at onward given
    exact ⟨onward, fun formed serves _ => given formed serves nofun⟩
  | ok a last =>
    rw [ran] at onward given
    have more := Record.Onward.marked last ⟨here, last.scene, event a⟩
    refine ⟨onward.trans more, fun formed serves _ => given formed (serves.earlier more) fun b final same => ?_⟩
    cases same
    exact serves.moments _ (List.mem_append_right _ List.mem_cons_self)

theorem ending (s : Stmt) {x : Watching Ending} {y : Running Ending} {f : Ending → Ending} {fine : Ending → Scene → Prop}
    (h : Echoes V p (V.Settles s) f x y) : Echoes V p fine f (Watching.ending s x) y := by
  refine fun here r even => marking (.ends s) (h here r even) ?_
  show EStateM.bind (x here) _ r = _
  unfold EStateM.bind
  cases x here r <;> rfl

theorem returning (c : Callee) {x : Watching Ending} {y : Running Ending} {f : Ending → Ending}
    {fine : Ending → Scene → Prop} (h : Echoes V p (fun _ _ => True) f x y) :
    Echoes V p fine f (Watching.returning c x) y := by
  refine fun here r even => marking (.returns c) (h here r even) ?_
  show EStateM.bind (x here) _ r = _
  unfold EStateM.bind
  cases x here r <;> rfl

theorem answering (c : Callee) {x : Watching Value} {y : Running Value} {f : Value → Value}
    {fine : Value → Scene → Prop} (h : Echoes V p (fun _ _ => True) f x y) :
    Echoes V p fine f (Watching.answering c x) y := by
  refine fun here r even => marking (.answers c r.scene.machine.store) (h here r even) ?_
  show EStateM.bind (x here) _ r = _
  unfold EStateM.bind
  cases x here r <;> rfl

-- The steps of a run, one by one.

theorem unary (operator : Token) (v : Value) : Echoes V p (fun _ _ => True) (Value.revise V)
    (Watching.lift (Running.ofExcept (unaryResult operator v)))
    (Running.ofExcept (unaryResult operator (v.revise V))) := by
  rw [show unaryResult operator (v.revise V) = _ from unaryResult_recast operator v]
  exact .ofExcept fun a => unaryResult_plain a operator v

theorem binary (operator : Token) (a b : Value) : Echoes V p (fun _ _ => True) (Value.revise V)
    (Watching.lift (Running.ofExcept (binaryResult operator a b)))
    (Running.ofExcept (binaryResult operator (a.revise V) (b.revise V))) := by
  rw [show binaryResult operator (a.revise V) (b.revise V) = _ from binaryResult_recast operator a b]
  exact .ofExcept fun scene => binaryResult_plain scene operator a b

theorem checkedCall (close : Token) (v : Value) (values : List Value) :
    Echoes V p (fun _ _ => True) (Callee.recast (Routine.revise V)) (Watching.lift (checkedCall close v values))
      (ScopeScript.checkedCall close (v.revise V) (values.map (Value.revise V))) := by
  unfold ScopeScript.checkedCall
  rw [show (v.revise V).callee? = _ from Value.recast_callee? v, List.length_map]
  cases v.callee? with
  | none => exact .fail _ _ nofun
  | some c =>
    dsimp only [Option.map_some]
    rw [Callee.recast_arity (Routine.revise_alike V)]
    split
    · exact .pure rfl
    · exact .fail _ _ nofun

-- What is made has a number of its own, the next one.
theorem making {make make' : Running Value} (methods : List Routine)
    (run : ∀ a : Scene, ∃ v, make a.machine = .ok v { a.machine with store := a.machine.store.identity.2 } ∧
      make' (a.revise V) = .ok (v.revise V) { a.revise V with store := (a.revise V).store.identity.2 }) :
    Echoes V p (fun _ _ => True) (Value.revise V) (Watching.making make methods) make' := by
  intro here r _
  obtain ⟨v, ran, answered⟩ := run r.scene
  have same : Watching.making make methods here r = .ok v
      { r with scene := (r.scene.onStore r.scene.machine.store.identity.2).settle ⟨here.display, methods⟩ } := by
    show EStateM.bind (Watching.lift make here) _ r = _
    unfold EStateM.bind Watching.lift
    rw [ran]
    rfl
  unfold EchoesOn
  rw [same]
  exact ⟨⟨List.prefix_refl _, List.prefix_refl _, fun even => ⟨even.labels, even.scope⟩⟩, fun _ _ _ => answered⟩

theorem newFunction (routine : Routine) : Echoes V p (fun _ _ => True) (Value.revise V)
    (Watching.making (newFunction routine) []) (ScopeScript.newFunction (routine.revise V)) :=
  .making [] fun _ => ⟨_, rfl, rfl⟩

theorem newLambda (routine : Routine) : Echoes V p (fun _ _ => True) (Value.revise V)
    (Watching.making (newLambda routine) []) (ScopeScript.newLambda (routine.revise V)) :=
  .making [] fun _ => ⟨_, rfl, rfl⟩

theorem binding {n m : String} (keyed : V.Keyed) (v : Value) :
    Echoes V p (fun _ a => V.keyAt a.labels[a.machine.scope]? n = some m) id (Watching.binding n v)
      (Running.bindHere m (v.revise V)) := by
  intro here r _
  refine ⟨⟨List.prefix_refl _, List.prefix_refl _, fun even =>
    ⟨even.labels.trans (Store.size_put ..).symm, Nat.lt_of_lt_of_eq even.scope (Store.size_put ..).symm⟩⟩, fun _ _ kept => ?_⟩
  have named := kept () _ rfl
  exact congrArg (fun s => EStateM.Result.ok () { r.scene.revise V with store := s })
    (Store.revise_put keyed named v).symm

-- A name without a place in the changed program.
theorem binding_gone {n : String} (v : Value) :
    Echoes V p (fun _ a => V.keyAt a.labels[a.machine.scope]? n = none) id (Watching.binding n v) (Pure.pure ()) := by
  intro here r _
  refine ⟨⟨List.prefix_refl _, List.prefix_refl _, fun even =>
    ⟨even.labels.trans (Store.size_put ..).symm, Nat.lt_of_lt_of_eq even.scope (Store.size_put ..).symm⟩⟩, fun _ _ gone => ?_⟩
  have named := gone () _ rfl
  exact congrArg (fun s => EStateM.Result.ok () { r.scene.revise V with store := s })
    (Store.revise_put_gone named v).symm

theorem beginning (name : String) : Echoes V p (fun _ _ => True) id (Watching.beginning name) (Pure.pure ()) := by
  intro here r _
  unfold EchoesOn
  by_cases outside : here.display = []
  · rw [beginning_global r name outside]
    exact ⟨.refl r, fun _ _ _ => rfl⟩
  · rw [beginning_local r name outside]
    exact ⟨⟨List.prefix_refl _, List.prefix_refl _, fun even => ⟨even.labels, even.scope⟩⟩, fun _ _ _ => rfl⟩

-- A look-up, of which the record tells where it leads.
theorem referring {look : Running α} {i : RefId} {name : Token}
    (run : ∀ a : Scene, match look a.machine with
      | .ok v m => m.store.scopes.size = a.machine.store.scopes.size ∧ m.scope = a.machine.scope ∧
        (V.Finds a i name → y (a.revise V) = .ok (f v) (Scene.revise V { a with machine := m }))
      | .error halt m => m = a.machine ∧ halt = .fault ⟨.undefinedVariable, name⟩ ∧
        (V.Finds a i name → y (a.revise V) = .error (.fault ⟨.undefinedVariable, V.refer i name⟩) (a.revise V))) :
    Echoes V p fine f (Watching.referring i name look) y := by
  intro here r _
  have ran : Watching.referring i name look here r =
      Watching.lift look here { r with moments := r.moments ++ [⟨here, r.scene, .refers i name⟩] } := rfl
  have more := Record.Onward.marked r ⟨here, r.scene, .refers i name⟩
  have found : ∀ {after : Record}, ⟨here, r.scene, .refers i name⟩ ∈ after.moments → after.Serves V →
      V.Finds r.scene i name := fun member serves => serves.moments _ member
  have given := run r.scene
  unfold EchoesOn
  rw [ran]
  unfold Watching.lift
  dsimp only
  cases looked : look r.scene.machine with
  | ok v m =>
    rw [looked] at given
    refine ⟨more.trans (.onMachine _ given.1 given.2.1), fun _ serves _ => given.2.2 (found ?_ serves)⟩
    exact List.mem_append_right _ List.mem_cons_self
  | error halt m =>
    rw [looked] at given
    obtain ⟨rfl, rfl, answered⟩ := given
    have marked : ⟨here, r.scene, .refers i name⟩ ∈ r.moments ++ [⟨here, r.scene, .refers i name⟩] :=
      List.mem_append_right _ List.mem_cons_self
    exact ⟨more, fun _ serves _ => ⟨_, answered (found marked serves), rfl, .inr ⟨rfl, i, ⟨_, marked, rfl⟩, rfl⟩⟩⟩

theorem reading (keyed : V.Keyed) (i : RefId) (name : Token) : Echoes V p (fun _ _ => True) (Value.revise V)
    (Watching.referring i name (Running.read i name)) (Running.read i (V.refer i name)) := by
  refine .referring fun a => ?_
  have found : V.Finds a i name → ((a.revise V).target? i (V.refer i name).lexeme).bind
      (fun scope => (a.revise V).store.own? scope (V.refer i name).lexeme) =
        ((a.machine.target? i name.lexeme).bind fun scope => a.machine.store.own? scope name.lexeme).map (Value.revise V) := by
    intro finds
    rw [finds.1]
    cases target : a.machine.target? i name.lexeme with
    | none => rfl
    | some scope => exact Store.revise_own? keyed (finds.2 scope target)
  unfold Running.read
  cases own : (a.machine.target? i name.lexeme).bind fun scope => a.machine.store.own? scope name.lexeme with
  | none =>
    refine ⟨rfl, rfl, fun finds => ?_⟩
    rw [found finds, own]
    rfl
  | some v =>
    refine ⟨rfl, rfl, fun finds => ?_⟩
    rw [found finds, own]
    rfl

theorem writing (keyed : V.Keyed) (i : RefId) (name : Token) (v : Value) : Echoes V p (fun _ _ => True) id
    (Watching.referring i name (Running.write i name v)) (Running.write i (V.refer i name) (v.revise V)) := by
  refine .referring fun a => ?_
  unfold Running.write Running.rebind
  cases target : a.machine.target? i name.lexeme with
  | none =>
    refine ⟨rfl, rfl, fun finds => ?_⟩
    rw [finds.1, target]
  | some scope =>
    refine ⟨Store.size_put .., rfl, fun finds => ?_⟩
    rw [finds.1, target]
    exact congrArg (fun s => EStateM.Result.ok () { a.revise V with store := s })
      (Store.revise_put keyed (finds.2 scope target) v).symm

theorem print (keyword : Token) (text : String) :
    Echoes V p (fun _ _ => True) id (Watching.lift (Running.print keyword text)) (Running.print keyword text) := by
  intro here r _
  have kept : (r.scene.revise V).sink = r.scene.machine.sink := rfl
  unfold EchoesOn Watching.lift Running.print
  rw [kept]
  dsimp only
  cases (r.scene.machine.sink.write text).1 with
  | none => exact ⟨.onMachine r rfl rfl, fun _ _ _ => rfl⟩
  | some failure => exact ⟨.onMachine r rfl rfl, fun _ _ _ => ⟨_, rfl, .same V nofun⟩⟩

theorem flush : Echoes V p (fun _ _ => True) id (Watching.lift Running.flush) Running.flush := by
  intro here r _
  have kept : (r.scene.revise V).sink = r.scene.machine.sink := rfl
  unfold EchoesOn Watching.lift Running.flush
  rw [kept]
  cases r.scene.machine.sink.flush with
  | none => exact ⟨.refl r, fun _ _ _ => rfl⟩
  | some failure => exact ⟨.refl r, fun _ _ _ => ⟨_, rfl, .same V nofun⟩⟩

theorem seconds : Echoes V p (fun _ _ => True) (Value.revise V) (Watching.lift Running.seconds) Running.seconds :=
  .lift fun _ => ⟨_, _, rfl, rfl, rfl, rfl⟩

theorem receiver (keyed : V.Keyed) (g : Function) : Echoes V p (fun _ _ => True) (Value.revise V) (Watching.lift g.receiver)
    (g.recast (Routine.revise V)).receiver := by
  refine .lift fun a => ⟨_, _, rfl, rfl, rfl, ?_⟩
  have own : (a.revise V).store.own? g.closure receiverName =
      (a.machine.store.own? g.closure receiverName).map (Value.revise V) := Store.revise_own? keyed (keyed.receiverAt _)
  show EStateM.Result.ok (((a.revise V).store.own? g.closure receiverName).getD .nil) (a.revise V) = _
  rw [own]
  cases a.machine.store.own? g.closure receiverName <;> rfl

theorem newInstance (c : Class) : Echoes V p (fun _ _ => True) (Instance.recast (Routine.revise V))
    (Watching.lift (Running.withStore fun s => s.newInstance c))
    (Running.withStore fun s => s.newInstance (c.recast (Routine.revise V))) := by
  refine .lift fun a => ⟨_, _, rfl, rfl, rfl, ?_⟩
  show EStateM.Result.ok _ _ = _
  simp [Scene.revise, Store.revise, Instance.recast, Names.mapThings]

theorem setField (i : Instance) (name : String) (v : Value) : Echoes V p (fun _ _ => True) id
    (Watching.lift (Running.withStore fun s => ((), s.setField i name v)))
    (Running.withStore fun s => ((), s.setField (i.recast (Routine.revise V)) name (v.revise V))) := by
  refine .lift fun a => ⟨(), _, rfl, rfl, rfl, ?_⟩
  exact congrArg (fun s => EStateM.Result.ok () { a.revise V with store := s }) (Store.revise_setField i name v).symm

-- A new scope for a region, right inside another one.
theorem opened {a : Scene} (even : a.Even) (scope : ScopeId) (bindings : Names Value) (region : Region) :
    (a.revise V).store.openWithin scope (bindings.rekey (V.keyAt (some (some region))) (Value.revise V)) =
      (a.machine.store.scopes.size,
        Store.revise V (a.labels ++ [some region]) (a.machine.store.openWithin scope bindings).2) := by
  have chain : (a.revise V).store.chain scope = a.machine.store.chain scope := Store.revise_chain scope
  unfold Store.openWithin
  rw [chain, Store.revise_openScope even.labels]
  exact Prod.ext Store.revise_size rfl

theorem opened_even {a b : Scene} (even : a.Even) {scope : Scope} {label : Option Region}
    (labels : b.labels = a.labels ++ [label]) (scopes : b.machine.store.scopes = a.machine.store.scopes.push scope)
    (known : b.machine.scope < a.machine.store.scopes.size + 1) : b.Even := by
  refine ⟨?_, ?_⟩
  · rw [labels, scopes, List.length_append, Array.size_push, even.labels]
    rfl
  · rwa [scopes, Array.size_push]

theorem attach (keyed : V.Keyed) (m : Method) (i : Instance) : Echoes V p (fun _ _ => True) (Function.recast (Routine.revise V))
    (m.watchAttach i) ((m.recast (Routine.revise V)).attach (i.recast (Routine.revise V))) := by
  intro here r even
  let home := r.scene.homes[i.madeBy.identity]?.getD ⟨[], []⟩
  have key : V.keyAt (some (some (.receiver home.methods))) receiverName = some receiverName := keyed.receiverAt _
  have own : Names.rekey (V.keyAt (some (some (.receiver home.methods)))) (Value.revise V)
      [(receiverName, .instance i)] = [(receiverName, (Value.instance i).revise V)] := by
    rw [Names.rekey_cons, key]
    rfl
  have open_ := opened (V := V) even m.closure [(receiverName, .instance i)] (.receiver home.methods)
  rw [own] at open_
  let opening := r.scene.machine.store.openWithin m.closure [(receiverName, .instance i)]
  let f : Function := ⟨opening.2.identity.1, m.routine, opening.1, m.routine.isInitializer⟩
  have ran : m.watchAttach i here r =
      .ok f { r with scene := (r.scene.onStore opening.2.identity.2).attach f i home } := rfl
  unfold EchoesOn
  rw [ran]
  refine ⟨⟨List.prefix_refl _, List.prefix_append _ _, fun _ => ?_⟩, fun _ _ _ => ?_⟩
  · exact opened_even even rfl rfl (Nat.lt_succ_of_lt even.scope)
  · have answered : (m.recast (Routine.revise V)).attach (i.recast (Routine.revise V)) (r.scene.revise V) =
        let opening := (r.scene.revise V).store.openWithin m.closure [(receiverName, (Value.instance i).revise V)]
        .ok ⟨opening.2.identity.1, m.routine.revise V, opening.1, (m.routine.revise V).isInitializer⟩
          { r.scene.revise V with store := opening.2.identity.2 } := rfl
    rw [answered, open_, Routine.revise_isInitializer]
    rfl

-- Code in a new scope. What the scope is opened for tells whether its bindings are as they should be.
theorem opening {enter enter' : Running ScopeId} (closure : Machine → ScopeId) {bindings bindings' : Names Value}
    {region : Region} {there : ScopeId → Standpoint}
    (run : ∀ m : Machine, enter m =
      .ok m.store.scopes.size { m with store := (m.store.openWithin (closure m) bindings).2 })
    (run' : ∀ m : Machine, enter' m =
      .ok m.store.scopes.size { m with store := (m.store.openWithin (closure m) bindings').2 })
    (same : ∀ a : Scene, closure (a.revise V) = closure a.machine) (inner : Echoes V q (fun _ _ => True) f x y)
    (needs : p → V.Fits region →
      q ∧ bindings' = bindings.rekey (V.keyAt (some (some region))) (Value.revise V)) :
    Echoes V p (fun _ _ => True) f (Watching.opening enter region there x)
      (enter' >>= fun scope => Running.within scope y) := by
  intro here r even
  let scope := r.scene.machine.store.scopes.size
  let opened : Scene :=
    (r.scene.onStore (r.scene.machine.store.openWithin (closure r.scene.machine) bindings).2).label region
  have ran : Watching.opening enter region there x here r =
      match x (there scope) { r with scene := opened.move scope } with
      | .ok a last => .ok a { last with scene := last.scene.move r.scene.machine.scope }
      | .error halt last => .error halt { last with scene := last.scene.move r.scene.machine.scope } := by
    show EStateM.bind (Watching.lift enter here) _ r = _
    unfold EStateM.bind Watching.lift
    rw [run]
    rfl
  have answered : (enter' >>= fun scope => Running.within scope y) (r.scene.revise V) =
      Running.within scope y { r.scene.revise V with
        store := ((r.scene.revise V).store.openWithin (closure r.scene.machine) bindings').2 } := by
    show EStateM.bind enter' _ _ = _
    unfold EStateM.bind
    rw [run', same, show (r.scene.revise V).store.scopes.size = scope from Store.revise_size]
  have entered : r.Onward { r with scene := opened.move scope } := by
    refine ⟨List.prefix_refl _, List.prefix_append _ _, fun _ => ?_⟩
    exact opened_even even rfl rfl (Nat.lt_succ_self _)
  have labelled : ∀ {last : Record}, Record.Onward { r with scene := opened.move scope } last →
      some region ∈ last.scene.labels := fun later =>
    later.labels.subset (List.mem_append_right _ (List.mem_singleton_self _))
  have back : ∀ last : Record, Record.Onward { r with scene := opened.move scope } last →
      r.Onward { last with scene := last.scene.move r.scene.machine.scope } := by
    intro last onward
    have all := entered.trans onward
    refine ⟨all.moments, all.labels, fun even => ?_⟩
    obtain ⟨labels, -⟩ := all.even even
    refine ⟨labels, Nat.lt_of_lt_of_le even.scope ?_⟩
    show _ ≤ last.scene.machine.store.scopes.size
    rw [← labels, ← even.labels]
    exact all.labels.length_le
  have start : bindings' = bindings.rekey (V.keyAt (some (some region))) (Value.revise V) →
      { r.scene.revise V with
        store := ((r.scene.revise V).store.openWithin (closure r.scene.machine) bindings').2
        scope := scope } = (opened.move scope).revise V := by
    rintro rfl
    rw [Echoes.opened even]
    rfl
  obtain ⟨onward, given⟩ := inner (there scope) { r with scene := opened.move scope } (entered.even even)
  unfold EchoesOn
  rw [ran, answered]
  unfold Running.within
  cases inside : x (there scope) { r with scene := opened.move scope } with
  | ok a last =>
    rw [inside] at onward given
    refine ⟨back last onward, fun formed serves _ => ?_⟩
    have served : last.Serves V := ⟨serves.moments, serves.regions⟩
    obtain ⟨ready, bound⟩ := needs formed (served.regions region (labelled onward))
    have same : y ((opened.move scope).revise V) = .ok (f a) (last.scene.revise V) :=
      given ready served fun _ _ _ => trivial
    dsimp only
    rw [start bound, same]
    rfl
  | error halt last =>
    rw [inside] at onward given
    refine ⟨back last onward, fun formed serves _ => ?_⟩
    have served : last.Serves V := ⟨serves.moments, serves.regions⟩
    obtain ⟨ready, bound⟩ := needs formed (served.regions region (labelled onward))
    have same := given ready served fun _ _ _ => trivial
    dsimp only
    rw [start bound]
    cases halt with
    | fault fault =>
      obtain ⟨fault', same, blames⟩ := same
      rw [same]
      exact ⟨fault', rfl, blames⟩
    | outOfFuel =>
      intro paced
      rw [same paced]
      rfl

-- What is found under a name, a field or a method that gets its receiver.
theorem found (keyed : V.Keyed) (i : Instance) (name : Token) (field : Option Value) (method : Option Method) :
    Echoes V p (fun _ _ => True) (Value.revise V)
      (match field with
      | some value => Pure.pure value
      | none => match method with
        | some m => m.watchAttach i >>= fun f => Pure.pure (.callee (.function f))
        | none => Watching.lift (Running.fail .undefinedProperty name))
      (match field.map (Value.revise V) with
      | some value => Pure.pure value
      | none => match method.map (Method.recast (Routine.revise V)) with
        | some m => m.attach (i.recast (Routine.revise V)) >>= fun f => Pure.pure (.callee (.function f))
        | none => Running.fail .undefinedProperty name) := by
  cases field with
  | some value => exact .pure rfl
  | none =>
    cases method with
    | none => exact .fail .undefinedProperty name (by decide)
    | some m => exact .bind (attach keyed m i) fun f => .pure rfl

theorem get (keyed : V.Keyed) (i : Instance) (name : Token) : Echoes V p (fun _ _ => True) (Value.revise V)
    (i.watchGet name) ((i.recast (Routine.revise V)).get name) := by
  intro here r even
  have echoes := found (p := p) keyed i name (r.scene.machine.store.field? i name.lexeme)
    (i.madeBy.methods.get? name.lexeme) here r even
  have field : (r.scene.revise V).store.field? (i.recast (Routine.revise V)) name.lexeme =
      (r.scene.machine.store.field? i name.lexeme).map (Value.revise V) := Store.revise_field? i name.lexeme
  have method : (i.recast (Routine.revise V)).madeBy.methods.get? name.lexeme =
      (i.madeBy.methods.get? name.lexeme).map (Method.recast (Routine.revise V)) := Names.get?_mapThings _ _ _
  rw [← field, ← method] at echoes
  exact echoes

-- A class binds its name again once it is made.

theorem reassign_bound {m : Machine} {name : Token}
    (bound : m.store.binds m.scope name.lexeme = true) (v : Value) :
    Running.reassign name v m = .ok () { m with store := m.store.put m.scope name.lexeme v } := by
  obtain ⟨outer, chain⟩ := m.store.chain_cons (m.store.known_of_binds _ _ bound)
  have target : m.store.binder? m.scope name.lexeme = some m.scope := by
    unfold Store.binder?
    rw [chain, List.find?_cons, bound]
  unfold Running.reassign
  rw [target]
  rfl

theorem classes (keyed : V.Keyed) (name : Token) (methods : List Routine) :
    Echoes V p (V.Settles (.classes name methods)) (Ending.recast (Routine.revise V))
      (Watching.binding name.lexeme .nil >>= fun _ =>
        Watching.making (newClass name.lexeme methods) methods >>= fun made =>
          Watching.lift (Running.reassign name made) >>= fun _ => Pure.pure .normal)
      (Running.bindHere (V.declare name).lexeme .nil >>= fun _ =>
        newClass (V.declare name).lexeme (Routine.reviseAll V methods) >>= fun made =>
          Running.reassign (V.declare name) made >>= fun _ => Pure.pure .normal) := by
  intro here r even
  let scope := r.scene.machine.scope
  let table (rs : List Routine) : Names Method := rs.foldl (fun table r => Names.put r.name (Method.mk r scope) table) []
  let made (name : String) (rs : List Routine) : Value :=
    .callee (.classes ⟨r.scene.machine.store.nextIdentity, name, table rs⟩)
  let named := (r.scene.machine.store.put scope name.lexeme .nil).identity.2
  let last : Record := { r with
    scene := ((((r.scene.onStore (r.scene.machine.store.put scope name.lexeme .nil)).complete name.lexeme).onStore
      named).settle ⟨here.display, methods⟩).onStore (named.put scope name.lexeme (made name.lexeme methods)) }
  have bound : named.binds scope name.lexeme = true := (Store.binds_put ..).mpr (.inl ⟨rfl, rfl, even.scope⟩)
  have ran : (Watching.binding name.lexeme .nil >>= fun _ =>
      Watching.making (newClass name.lexeme methods) methods >>= fun made =>
        Watching.lift (Running.reassign name made) >>= fun _ => Pure.pure Ending.normal) here r = .ok .normal last := by
    have reassigned := reassign_bound (m := { r.scene.machine with store := named }) bound (made name.lexeme methods)
    show EStateM.bind (Watching.lift (Running.reassign name (made name.lexeme methods)) here) _
      { r with scene := (((r.scene.onStore (r.scene.machine.store.put scope name.lexeme .nil)).complete name.lexeme).onStore
        named).settle ⟨here.display, methods⟩ } = _
    unfold EStateM.bind Watching.lift
    dsimp only [Scene.settle, Scene.onStore, Scene.complete]
    rw [reassigned]
    rfl
  unfold EchoesOn
  rw [ran]
  refine ⟨⟨List.prefix_refl _, List.prefix_refl _, fun _ => ?_⟩, fun _ _ settles => ?_⟩
  · have size : last.scene.machine.store.scopes.size = r.scene.machine.store.scopes.size :=
      (Store.size_put ..).trans (Store.size_put ..)
    exact ⟨even.labels.trans size.symm, Nat.lt_of_lt_of_eq even.scope size.symm⟩
  · obtain ⟨key, still⟩ := settles .normal last rfl rfl name (List.mem_singleton_self _)
    have same : V.declare name = name := still nofun
    have kept : V.keyAt r.scene.labels[scope]? name.lexeme = some name.lexeme := key.trans (by rw [same]; rfl)
    let named' := ((r.scene.revise V).store.put scope name.lexeme .nil).identity.2
    have bound' : named'.binds scope name.lexeme = true :=
      (Store.binds_put ..).mpr (.inl ⟨rfl, rfl, Nat.lt_of_lt_of_eq even.scope Store.revise_size.symm⟩)
    have reassigned := reassign_bound (m := { r.scene.revise V with store := named' }) bound'
      (made name.lexeme (Routine.reviseAll V methods))
    rw [same]
    show EStateM.bind (Running.reassign name (made name.lexeme (Routine.reviseAll V methods))) _
      { r.scene.revise V with store := named' } = _
    unfold EStateM.bind
    rw [reassigned]
    have methods' : table (Routine.reviseAll V methods) = (table methods).mapThings (Method.recast (Routine.revise V)) := by
      rw [Routine.reviseAll_eq_map]
      exact methodTable_recast (Routine.revise_alike V) scope methods []
    have value : made name.lexeme (Routine.reviseAll V methods) = (made name.lexeme methods).revise V :=
      congrArg (fun table => Value.callee (.classes ⟨_, name.lexeme, table⟩)) methods'
    have first : named' = named.revise V r.scene.labels :=
      congrArg (fun s : Store => s.identity.2) (Store.revise_put keyed kept .nil).symm
    rw [value, first]
    show EStateM.Result.ok _ _ = _
    exact congrArg (fun s => EStateM.Result.ok Ending.normal { r.scene.revise V with store := s })
      (Store.revise_put keyed kept _).symm

end Echoes

end ScopeScript
