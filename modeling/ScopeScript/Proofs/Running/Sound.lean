import ScopeScript.Proofs.Running.Receive

namespace ScopeScript

variable {lies : Spot → Prop} {a b : Scene} {names : List Token}

-- A routine was made where its code lies.
def Scene.Rests (lies : Spot → Prop) (a : Scene) (kind : BodyKind) (r : Routine) (identity : Identity)
    (closure : ScopeId) : Prop :=
  ∃ σ home, lies ⟨σ, .routine kind r⟩ ∧ a.homes[identity]? = some home ∧
    a.Stands σ home.display closure

-- An instance is there once it has a place for its fields.
def Store.Has (s : Store) (i : Instance) : Prop := i.identity < s.fields.size

-- A function that stands right inside a receiver's scope is the method that was given the receiver.
-- The methods of a class lie inside its receiver's scope, which is not there yet.
def Callee.Sound (lies : Spot → Prop) (a : Scene) : Callee → Prop
  | clock => True
  | function f => (∃ kind, kind ≠ .outside ∧ (f.initializer = true ↔ kind = .initializer) ∧
      a.Rests lies kind f.routine f.identity f.closure) ∧
      ((∃ i, (f, i) ∈ a.attached) ∨ a.Plain f.closure ∧ f.initializer = false)
  | lambda l => a.Rests lies .lambda l.routine l.identity l.closure ∧ a.Plain l.closure
  | classes c => ∃ home, a.homes[c.identity]? = some home ∧
      ∀ name m, c.methods.get? name = some m →
        ∃ σ : Setting, lies ⟨σ.enter (.receiver home.methods), .routine m.routine.methodKind m.routine⟩ ∧
          a.Stands σ home.display m.closure

def Value.Sound (lies : Spot → Prop) (a : Scene) : Value → Prop
  | callee c => c.Sound lies a
  | .instance i => (Callee.classes i.madeBy).Sound lies a ∧ a.machine.store.Has i
  | _ => True

theorem Scene.Rests.later {closure : ScopeId} (h : a.Rests lies kind r identity closure) (later : a.Extends b) :
    b.Rests lies kind r identity closure := by
  obtain ⟨σ, home, inside, known, stands⟩ := h
  exact ⟨σ, home, inside, later.home known, stands.later later⟩

theorem Callee.Sound.later {c : Callee} (h : c.Sound lies a) (later : a.Extends b) : c.Sound lies b := by
  cases c with
  | clock => trivial
  | function f =>
    obtain ⟨⟨kind, inside, exact, rests⟩, receives⟩ := h
    refine ⟨⟨kind, inside, exact, rests.later later⟩, receives.imp (fun given => ?_) fun bare => ?_⟩
    · obtain ⟨i, member⟩ := given
      exact ⟨i, later.attached.subset member⟩
    · exact ⟨bare.1.later later, bare.2⟩
  | lambda l => exact ⟨Scene.Rests.later h.1 later, h.2.later later⟩
  | classes c =>
    obtain ⟨home, known, methods⟩ := h
    refine ⟨home, later.home known, fun name m found => ?_⟩
    obtain ⟨σ, inside, stands⟩ := methods name m found
    exact ⟨σ, inside, stands.later later⟩

theorem Value.Sound.later {v : Value} (h : v.Sound lies a) (later : a.Extends b) : v.Sound lies b := by
  cases v with
  | callee c => exact Callee.Sound.later h later
  | nil | bool | number | string => trivial
  | _ i => exact ⟨Callee.Sound.later (c := .classes i.madeBy) h.1 later, Nat.lt_of_lt_of_le h.2 later.fields⟩

-- More code changes nothing for values there are.
theorem Callee.Sound.widen {wider : Spot → Prop} {c : Callee} (h : c.Sound lies a)
    (more : ∀ S, lies S → wider S) : c.Sound wider a := by
  cases c with
  | clock => trivial
  | function f =>
    obtain ⟨⟨kind, within, exact, σ, home, inside, rest⟩, receives⟩ := h
    exact ⟨⟨kind, within, exact, σ, home, more _ inside, rest⟩, receives⟩
  | lambda l =>
    obtain ⟨⟨σ, home, inside, rest⟩, plain⟩ := h
    exact ⟨⟨σ, home, more _ inside, rest⟩, plain⟩
  | classes c =>
    obtain ⟨home, known, methods⟩ := h
    refine ⟨home, known, fun name m found => ?_⟩
    obtain ⟨σ, inside, stands⟩ := methods name m found
    exact ⟨σ, more _ inside, stands⟩

theorem Value.Sound.widen {wider : Spot → Prop} {v : Value} (h : v.Sound lies a)
    (more : ∀ S, lies S → wider S) : v.Sound wider a := by
  cases v with
  | callee c => exact Callee.Sound.widen h more
  | nil | bool | number | string => trivial
  | _ i => exact ⟨Callee.Sound.widen (c := .classes i.madeBy) h.1 more, h.2⟩

-- A scope for parameters was opened for a routine that lies somewhere.
def Region.Laid (lies : Spot → Prop) : Region → Prop
  | routine r => ∃ σ kind, lies ⟨σ, .routine kind r⟩
  | _ => True

theorem Region.Laid.widen {wider : Spot → Prop} {region : Region} (h : region.Laid lies)
    (more : ∀ S, lies S → wider S) : region.Laid wider := by
  cases region with
  | block | receiver => trivial
  | routine r =>
    obtain ⟨σ, kind, inside⟩ := h
    exact ⟨σ, kind, more _ inside⟩

-- What all code may rely on when it runs.
structure Scene.Sound (lies : Spot → Prop) (a : Scene) : Prop where
  lawful : Lawful lies a.machine.depths
  alone : a.machine.store.chain a.machine.globals = [a.machine.globals]
  values : ∀ s name v, a.machine.store.own? s name = some v → v.Sound lies a
  fields : ∀ i name v, a.machine.store.field? i name = some v → v.Sound lies a
  labels : a.labels.length = a.machine.store.scopes.size
  bare : a.labels[a.machine.globals]? = some none
  homes : a.homes.length = a.machine.store.nextIdentity
  unfinished : ∀ s name, (s, name) ∈ a.unfinished →
    s ≠ a.machine.globals ∧ s < a.machine.store.scopes.size ∧ a.machine.store.binds s name = false
  receivers : a.Receivers
  laid : ∀ region, some region ∈ a.labels → region.Laid lies

namespace Scene.Sound

theorem known (h : a.Sound lies) : a.machine.globals < a.machine.store.scopes.size := by
  refine a.machine.store.known_of_chain _ ?_
  rw [h.alone]
  exact List.cons_ne_nil _ _

-- A step keeps a scene sound where its new values are sound and its marks stay apart from bindings.
theorem step (h : a.Sound lies) (later : a.Extends b) (depths : b.machine.depths = a.machine.depths)
    (values : ∀ s name v, b.machine.store.own? s name = some v →
      a.machine.store.own? s name = some v ∨ v.Sound lies b)
    (fields : ∀ i name v, b.machine.store.field? i name = some v →
      a.machine.store.field? i name = some v ∨ v.Sound lies b)
    (labels : b.labels.length = b.machine.store.scopes.size)
    (homes : b.homes.length = b.machine.store.nextIdentity)
    (unfinished : ∀ s name, (s, name) ∈ b.unfinished →
      (s, name) ∈ a.unfinished ∧ b.machine.store.binds s name = a.machine.store.binds s name)
    (receivers : b.Receivers)
    (laid : ∀ region, some region ∈ b.labels → some region ∈ a.labels ∨ region.Laid lies) : b.Sound lies where
  lawful := depths ▸ h.lawful
  alone := by rw [later.globals, later.chain _ h.known, h.alone]
  values s name v found := (values s name v found).elim (fun old => (h.values s name v old).later later) fun new => new
  fields i name v found := (fields i name v found).elim (fun old => (h.fields i name v old).later later) fun new => new
  labels := labels
  bare := later.globals ▸ later.label h.bare
  homes := homes
  unfinished s name begun := by
    obtain ⟨before, same⟩ := unfinished s name begun
    obtain ⟨apart, known, unbound⟩ := h.unfinished s name before
    exact ⟨later.globals ▸ apart, Nat.lt_of_lt_of_le known later.size, same.trans unbound⟩
  receivers := receivers
  laid region label := (laid region label).elim (h.laid region) fun new => new

-- More code and other depths, where the laws hold again.
theorem widen {wider : Spot → Prop} {depths : Depths} (h : a.Sound lies) (more : ∀ S, lies S → wider S)
    (lawful : Lawful wider depths) :
    Scene.Sound wider { a with machine := { a.machine with depths := depths } } := by
  have later : a.Extends { a with machine := { a.machine with depths := depths } } :=
    { Extends.refl a with }
  exact ⟨lawful, h.alone, fun s n v found => ((h.values s n v found).later later).widen more,
    fun i n v found => ((h.fields i n v found).later later).widen more, h.labels, h.bare, h.homes,
    h.unfinished, h.receivers.aside rfl rfl rfl, fun region label => (h.laid region label).widen more⟩

end Scene.Sound

def Scene.onStore (a : Scene) (s : Store) : Scene := { a with machine := { a.machine with store := s } }

section Steps

variable (name : String) (v : Value) (scope : ScopeId)

-- Binding a bound name again.
theorem Scene.grows_rebind (bound : a.machine.store.binds scope name = true) :
    a.Grows [] (a.onStore (a.machine.store.put scope name v)) := by
  have binds : ∀ s n, (a.machine.store.put scope name v).binds s n = true ↔ a.machine.store.binds s n = true := by
    intro s n
    refine (Store.binds_put _ _ _ _ _ _).trans ⟨fun h => ?_, .inr⟩
    rcases h with ⟨rfl, rfl, _⟩ | before
    · exact bound
    · exact before
  have touched : ∀ s n, (a.onStore (a.machine.store.put scope name v)).Touched s n ↔ a.Touched s n :=
    fun s n => or_congr (binds s n) Iff.rfl
  exact ⟨⟨rfl, Nat.le_of_eq (Store.size_put ..).symm, fun s _ => Store.chain_put ..,
    fun s n h => (binds s n).mpr h, fun s n h => (touched s n).mpr h, List.prefix_refl _,
    List.prefix_refl _, List.prefix_refl _, Nat.le_refl _⟩,
    rfl, rfl, fun s _ n h => .inl ((touched s n).mp h)⟩

theorem Scene.Sound.rebind (h : a.Sound lies) (bound : a.machine.store.binds scope name = true)
    (free : name ≠ receiverName) (sound : v.Sound lies a) : (a.onStore (a.machine.store.put scope name v)).Sound lies := by
  have grows := Scene.grows_rebind name v scope bound
  refine h.step grows.toExtends rfl ?_ (fun _ _ _ => .inl) ?_ h.homes (fun s n begun => ⟨begun, ?_⟩)
    (h.receivers.put (h.receivers.plain bound free) rfl rfl rfl) fun _ => .inl
  · intro s n w found
    change (a.machine.store.put scope name v).own? s n = some w at found
    rw [Store.own?_put] at found
    split at found
    · cases found
      exact .inr (sound.later grows.toExtends)
    · exact .inl found
  · exact h.labels.trans (Store.size_put ..).symm
  · have unbound := (h.unfinished s n begun).2.2
    show Store.binds (Store.put ..) s n = _
    refine (Bool.eq_false_iff.mpr fun now => ?_).trans unbound.symm
    rcases (Store.binds_put ..).mp now with ⟨rfl, rfl, _⟩ | before
    · rw [bound] at unbound
      cases unbound
    · rw [before] at unbound
      cases unbound

-- Binding a name in the current scope, whose initializer is then no longer unfinished.
theorem Scene.grows_bind (t : Token) (known : a.machine.scope < a.machine.store.scopes.size) :
    a.Grows [t] ((a.onStore (a.machine.store.put a.machine.scope t.lexeme v)).complete t.lexeme) where
  scope := rfl
  globals := rfl
  depths := rfl
  size := Nat.le_of_eq (Store.size_put ..).symm
  chain _ _ := Store.chain_put ..
  binds s n h := (Store.binds_put ..).mpr (.inr h)
  touched s n h := by
    by_cases here : (s, n) = (a.machine.scope, t.lexeme)
    · cases here
      exact .inl ((Store.binds_put ..).mpr (.inl ⟨rfl, rfl, known⟩))
    · rcases h with bound | begun
      · exact .inl ((Store.binds_put ..).mpr (.inr bound))
      · exact .inr (List.mem_filter.mpr ⟨begun, bne_iff_ne.mpr here⟩)
  fresh s _ n h := by
    rcases h with bound | begun
    · rcases (Store.binds_put ..).mp bound with ⟨rfl, rfl, _⟩ | before
      · exact .inr ⟨rfl, by simp⟩
      · exact .inl (.inl before)
    · exact .inl (.inr (List.mem_filter.mp begun).1)
  labels := List.prefix_refl _
  homes := List.prefix_refl _
  attached := List.prefix_refl _
  fields := Nat.le_refl _

theorem Scene.Sound.bind (h : a.Sound lies) (t : Token)
    (known : a.machine.scope < a.machine.store.scopes.size) (plain : a.Plain a.machine.scope)
    (sound : v.Sound lies ((a.onStore (a.machine.store.put a.machine.scope t.lexeme v)).complete t.lexeme)) :
    ((a.onStore (a.machine.store.put a.machine.scope t.lexeme v)).complete t.lexeme).Sound lies := by
  refine h.step (Scene.grows_bind v t known).toExtends rfl ?_ (fun _ _ _ => .inl) ?_ h.homes
    (fun s n begun => ?_) (h.receivers.put plain.not_receives rfl rfl rfl) fun _ => .inl
  · intro s n w found
    change (a.machine.store.put a.machine.scope t.lexeme v).own? s n = some w at found
    rw [Store.own?_put] at found
    split at found
    · cases found
      exact .inr sound
    · exact .inl found
  · exact h.labels.trans (Store.size_put ..).symm
  · obtain ⟨before, other⟩ := List.mem_filter.mp begun
    have unbound := (h.unfinished s n before).2.2
    refine ⟨before, (Bool.eq_false_iff.mpr fun now => ?_).trans unbound.symm⟩
    rcases (Store.binds_put ..).mp now with ⟨rfl, rfl, _⟩ | bound
    · exact absurd rfl (bne_iff_ne.mp other)
    · rw [bound] at unbound
      cases unbound

theorem Scene.grows_begin (t : Token) : a.Grows [t] (a.begin t.lexeme) :=
  { Scene.Grows.refl a [t] with
    touched := fun _ _ h => h.imp_right (List.mem_cons_of_mem _)
    fresh := fun s _ n h => by
      rcases h with bound | begun
      · exact .inl (.inl bound)
      · rcases List.mem_cons.mp begun with same | before
        · cases same
          exact .inr ⟨rfl, by simp⟩
        · exact .inl (.inr before) }

theorem Scene.Sound.begin (h : a.Sound lies) (t : Token) (apart : a.machine.scope ≠ a.machine.globals)
    (known : a.machine.scope < a.machine.store.scopes.size)
    (unbound : a.machine.store.binds a.machine.scope t.lexeme = false) :
    (a.begin t.lexeme).Sound lies where
  lawful := h.lawful
  alone := h.alone
  values s n w found := (h.values s n w found).later (Scene.grows_begin t).toExtends
  fields i n w found := (h.fields i n w found).later (Scene.grows_begin t).toExtends
  labels := h.labels
  bare := h.bare
  homes := h.homes
  unfinished s n begun := by
    rcases List.mem_cons.mp begun with same | before
    · cases same
      exact ⟨apart, known, unbound⟩
    · exact h.unfinished s n before
  receivers := h.receivers.aside rfl rfl rfl
  laid := h.laid

-- A new scope with its label.
theorem Scene.grows_open (outer : List ScopeId) (bindings : Names Value) (region : Region) :
    a.Grows [] ((a.onStore (a.machine.store.openScope outer bindings).2).label region) := by
  have old : ∀ s n, s ≠ a.machine.store.scopes.size →
      (a.machine.store.openScope outer bindings).2.binds s n = a.machine.store.binds s n := by
    intro s n other
    unfold Store.binds
    rw [Store.own?_openScope, if_neg other]
  have binds : ∀ s n, a.machine.store.binds s n = true →
      (a.machine.store.openScope outer bindings).2.binds s n = true := fun s n bound =>
    (old s n (Nat.ne_of_lt (a.machine.store.known_of_binds s n bound))).trans bound
  refine ⟨⟨rfl, ?_, fun s known => ?_, binds, fun s n h => h.imp_left (binds s n),
    List.prefix_append _ _, List.prefix_refl _, List.prefix_refl _, Nat.le_refl _⟩, rfl, rfl, ?_⟩
  · show _ ≤ (a.machine.store.scopes.push _).size
    simp
  · exact (Store.chain_openScope ..).trans (if_neg (Nat.ne_of_lt known))
  · exact fun s known n h => .inl (h.imp_left (old s n (Nat.ne_of_lt known)).symm.trans)

-- A change that leaves the scopes and their marks alone.
theorem Scene.Sound.aside (h : a.Sound lies) (grows : a.Grows [] b)
    (scopes : b.machine.store.scopes = a.machine.store.scopes) (unfinished : b.unfinished = a.unfinished)
    (labels : b.labels = a.labels) (attached : b.attached = a.attached)
    (fields : ∀ i n w, b.machine.store.field? i n = some w →
      a.machine.store.field? i n = some w ∨ w.Sound lies b)
    (homes : b.homes.length = b.machine.store.nextIdentity) : b.Sound lies := by
  have own : ∀ s n, b.machine.store.own? s n = a.machine.store.own? s n := fun s n => by
    unfold Store.own?; rw [scopes]
  refine h.step grows.toExtends grows.depths (fun s n w found => .inl ((own s n).symm.trans found)) fields
    (by rw [labels, scopes]; exact h.labels) homes (fun s n begun => ?_)
    (h.receivers.aside attached labels scopes) fun _ label => .inl (labels ▸ label)
  exact ⟨unfinished ▸ begun, congrArg Option.isSome (own s n)⟩

theorem Scene.grows_setField (i : Instance) : a.Grows names (a.onStore (a.machine.store.setField i name v)) :=
  .aside rfl rfl rfl rfl rfl rfl (List.prefix_refl _) rfl (Nat.le_of_eq (Array.size_modify ..).symm)

theorem Scene.Sound.setField (h : a.Sound lies) (i : Instance) (sound : v.Sound lies a) :
    (a.onStore (a.machine.store.setField i name v)).Sound lies := by
  have grows : a.Grows [] (a.onStore (a.machine.store.setField i name v)) := Scene.grows_setField name v i
  refine h.aside grows rfl rfl rfl rfl (fun j n w found => ?_) h.homes
  change ((a.machine.store.fields.modify i.identity fun names => names.put name v)[j.identity]?.bind
    fun names => names.get? n) = some w at found
  obtain ⟨names, there, given⟩ := Option.bind_eq_some_iff.mp found
  rw [Array.getElem?_modify] at there
  by_cases here : i.identity = j.identity
  · rw [if_pos here] at there
    obtain ⟨before, known, rfl⟩ := Option.map_eq_some_iff.mp there
    rw [Names.get?_put] at given
    split at given
    · cases given
      exact .inr (sound.later grows.toExtends)
    · exact .inl (Option.bind_eq_some_iff.mpr ⟨before, known, given⟩)
  · rw [if_neg here] at there
    exact .inl (Option.bind_eq_some_iff.mpr ⟨names, there, given⟩)

theorem Scene.grows_newInstance (c : Class) : a.Grows names (a.onStore (a.machine.store.newInstance c).2) := by
  refine .aside rfl rfl rfl rfl rfl rfl (List.prefix_refl _) rfl ?_
  show _ ≤ (a.machine.store.fields.push _).size
  rw [Array.size_push]
  exact Nat.le_succ _

theorem Scene.Sound.newInstance (h : a.Sound lies) (c : Class) :
    (a.onStore (a.machine.store.newInstance c).2).Sound lies := by
  refine h.aside (Scene.grows_newInstance c) rfl rfl rfl rfl (fun j n w found => ?_) h.homes
  change ((a.machine.store.fields.push [])[j.identity]?.bind fun names => names.get? n) = some w at found
  obtain ⟨names, there, given⟩ := Option.bind_eq_some_iff.mp found
  rw [Array.getElem?_push] at there
  split at there
  · cases there
    cases given
  · exact .inl (Option.bind_eq_some_iff.mpr ⟨names, there, given⟩)

-- Something new with an identity gets its home.
theorem Scene.grows_settle (home : Home) :
    a.Grows names ((a.onStore a.machine.store.identity.2).settle home) :=
  .aside rfl rfl rfl rfl rfl rfl (List.prefix_append _ _) rfl (Nat.le_refl _)

theorem Scene.Sound.settle (h : a.Sound lies) (home : Home) :
    ((a.onStore a.machine.store.identity.2).settle home).Sound lies := by
  refine h.aside (Scene.grows_settle home) rfl rfl rfl rfl (fun _ _ _ => .inl) ?_
  show (a.homes ++ [home]).length = a.machine.store.nextIdentity + 1
  rw [List.length_append, h.homes]
  rfl

theorem Scene.Sound.home_settle (h : a.Sound lies) (home : Home) :
    ((a.onStore a.machine.store.identity.2).settle home).homes[a.machine.store.nextIdentity]? = some home := by
  show (a.homes ++ [home])[a.machine.store.nextIdentity]? = some home
  rw [← h.homes, List.getElem?_concat_length]

theorem Scene.Sound.move (h : a.Sound lies) (scope : ScopeId) : (a.move scope).Sound lies :=
  h.step (.move a scope) rfl (fun _ _ _ => .inl) (fun _ _ _ => .inl) h.labels h.homes
    (fun _ _ begun => ⟨begun, rfl⟩) (h.receivers.aside rfl rfl rfl) fun _ => .inl

end Steps

-- The scope that is opened next, and the scene with it inside another scope.
def Scene.next (a : Scene) : ScopeId := a.machine.store.scopes.size

def Scene.opened (a : Scene) (closure : ScopeId) (bindings : Names Value) (region : Region) : Scene :=
  (a.onStore (a.machine.store.openWithin closure bindings).2).label region

section Opened

variable {σ τ : Setting} {f : Frame} {closure : ScopeId} {bindings : Names Value}

theorem Scene.binds_opened (a : Scene) (closure : ScopeId) (bindings : Names Value) (region : Region)
    (name : String) : (a.opened closure bindings region).machine.store.binds a.next name = bindings.binds name := by
  show ((a.machine.store.openScope _ bindings).2.own? a.machine.store.scopes.size name).isSome = _
  rw [Store.own?_openScope, if_pos rfl]
  rfl

theorem Scene.Sound.opened (h : a.Sound lies) (closure : ScopeId) (region : Region)
    (plain : region.isReceiver = false) (fits : a.Fits closure region) (laid : region.Laid lies)
    (sound : ∀ n w, bindings.get? n = some w → w.Sound lies a) :
    (a.opened closure bindings region).Sound lies := by
  have grows : a.Grows [] (a.opened closure bindings region) := Scene.grows_open _ bindings region
  have opens : a.Opens (a.opened closure bindings region) closure bindings region := ⟨rfl, rfl⟩
  refine h.step grows.toExtends rfl ?_ (fun _ _ _ => .inl) ?_ h.homes (fun s n begun => ⟨begun, ?_⟩)
    (opens.receivers h.receivers h.labels plain fits rfl) fun other label => ?_
  · intro s n w found
    change (a.machine.store.openScope _ bindings).2.own? s n = some w at found
    rw [Store.own?_openScope] at found
    split at found
    · exact .inr ((sound n w found).later grows.toExtends)
    · exact .inl found
  · show (a.labels ++ [some region]).length = (a.machine.store.scopes.push _).size
    rw [List.length_append, Array.size_push, h.labels]
    rfl
  · have known := (h.unfinished s n begun).2.1
    show ((a.machine.store.openScope _ bindings).2.own? s n).isSome = _
    rw [Store.own?_openScope, if_neg (Nat.ne_of_lt known)]
    rfl
  · rcases List.mem_append.mp label with old | new
    · exact .inl old
    · cases List.mem_singleton.mp new
      exact .inr laid

theorem Scene.Sound.label_opened (h : a.Sound lies) (region : Region) :
    (a.opened closure bindings region).labels[a.next]? = some (some region) := by
  show (a.labels ++ [some region])[a.machine.store.scopes.size]? = _
  rw [← h.labels, List.getElem?_concat_length]

theorem Scene.Stands.opened {display : Display} (h : a.Stands σ display closure) (sound : a.Sound lies)
    (frames : τ.frames = f :: σ.frames) (fresh : f.initializing = [])
    (declared : ∀ t ∈ f.declared, bindings.binds t.lexeme = true)
    (receiver : f.region.isReceiver = true → bindings.binds receiverName = true) :
    (a.opened closure bindings f.region).Stands τ (a.next :: display) a.next := by
  have grows : a.Grows [] (a.opened closure bindings f.region) := Scene.grows_open _ bindings f.region
  refine (h.later grows.toExtends).enter frames ?_ (Nat.ne_of_gt sound.known)
    ⟨sound.label_opened f.region, ?_, ?_, ?_⟩
  · rw [grows.chain closure h.known]
    exact (Store.chain_openScope ..).trans (if_pos rfl)
  · intro t member
    exact (a.binds_opened closure bindings f.region t.lexeme).trans (declared t member)
  · rw [fresh]
    nofun
  · intro own
    exact (a.binds_opened closure bindings f.region receiverName).trans (receiver own)

theorem Scene.Sound.exact_opened (h : a.Sound lies) (frames : τ.frames = f :: σ.frames)
    (exact : ∀ n, bindings.binds n = true → f.declares n = true) :
    ((a.opened closure bindings f.region).move a.next).Exact τ := by
  intro g outer inside n touched
  rw [frames] at inside
  cases inside
  rcases touched with bound | begun
  · exact exact n ((a.binds_opened closure bindings f.region n).symm.trans bound)
  · exact absurd (h.unfinished _ _ begun).2.1 (Nat.lt_irrefl _)

-- A method in a scope of its own with its receiver.
def Scene.given (a : Scene) (around : ScopeId) (f : Function) (i : Instance) (home : Home) : Scene :=
  (a.onStore (a.machine.store.openWithin around [(receiverName, .instance i)]).2.identity.2).attach f i home

section Given

variable (around : ScopeId) (f : Function) (i : Instance) (home : Home)

theorem Scene.grows_given : a.Grows [] (a.given around f i home) :=
  { Scene.grows_open (a.machine.store.chain around) [(receiverName, .instance i)] (.receiver home.methods) with
    homes := List.prefix_append _ _
    attached := List.prefix_append _ _ }

theorem Scene.Sound.given (h : a.Sound lies) (made : (Value.instance i).Sound lies a)
    (plain : a.Plain around) (closure : f.closure = a.next) (initializer : f.initializer = f.routine.isInitializer) :
    (a.given around f i home).Sound lies := by
  have grows : a.Grows [] (a.given around f i home) := Scene.grows_given around f i home
  have opens : a.Opens (a.given around f i home) around _ (.receiver home.methods) := ⟨rfl, rfl⟩
  refine h.step grows.toExtends rfl ?_ (fun _ _ _ => .inl) ?_ ?_ (fun s n begun => ⟨begun, ?_⟩)
    (opens.attach h.receivers h.labels plain rfl rfl rfl closure initializer) fun other label => ?_
  · intro s n w found
    change (a.machine.store.openScope _ _).2.own? s n = some w at found
    rw [Store.own?_openScope] at found
    split at found
    · rw [Names.get?_cons] at found
      split at found
      · cases found
        exact .inr (Value.Sound.later made grows.toExtends)
      · cases found
    · exact .inl found
  · show (a.labels ++ [_]).length = (a.machine.store.scopes.push _).size
    rw [List.length_append, Array.size_push, h.labels]
    rfl
  · show (a.homes ++ [_]).length = a.machine.store.nextIdentity + 1
    rw [List.length_append, h.homes]
    rfl
  · have known := (h.unfinished s n begun).2.1
    show ((a.machine.store.openScope _ _).2.own? s n).isSome = _
    rw [Store.own?_openScope, if_neg (Nat.ne_of_lt known)]
    rfl
  · rcases List.mem_append.mp label with old | new
    · exact .inl old
    · cases List.mem_singleton.mp new
      exact .inr trivial

theorem Scene.Stands.given {display : Display} (h : a.Stands σ display around) (sound : a.Sound lies)
    (frames : τ.frames = ⟨.receiver home.methods, [], []⟩ :: σ.frames) :
    (a.given around f i home).Stands τ (a.next :: display) a.next := by
  have opened : (a.opened around [(receiverName, .instance i)] (.receiver home.methods)).Stands τ
      (a.next :: display) a.next := h.opened sound frames rfl (by simp) fun _ => rfl
  exact ⟨opened.chain, opened.apart, opened.frames.imp fun _ _ holds =>
    ⟨holds.label, holds.declared, holds.initializing, holds.receiver⟩⟩

end Given

end Opened

end ScopeScript
