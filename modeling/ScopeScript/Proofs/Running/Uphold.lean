import ScopeScript.Proofs.Running.Spare

namespace ScopeScript

open Watching

-- How code may end where it lies.
def Ending.Allowed (σ : Setting) : Ending → Prop
  | normal => True
  | leave => 0 < σ.loops
  | giveBack v => σ.body ≠ .outside ∧ (σ.body = .initializer → v = .nil)

-- A reference at the moment it is looked up.
structure Moment.Looks (m : Moment) (σ : Setting) (i : RefId) (name : Token) : Prop where
  stands : m.scene.Stands σ m.standpoint.display m.scene.machine.scope
  alone : m.scene.machine.store.chain m.scene.machine.globals = [m.scene.machine.globals]
  bare : m.scene.labels[m.scene.machine.globals]? = some none
  depth : m.scene.machine.depths[i]? = σ.depth name.lexeme
  unfinished : ∀ s n, (s, n) ∈ m.scene.unfinished → m.scene.machine.store.binds s n = false

namespace Moment.Looks

variable {m : Moment} {σ : Setting} {i : RefId} {name : Token}

theorem near (h : m.Looks σ i name) (found : m.scene.machine.depths[i]? = some d) :
    ∃ f scope, σ.frames[d]? = some f ∧ f.declares name.lexeme = true ∧
      m.standpoint.display[d]? = some scope ∧ f.Holds m.scene scope ∧
      ∀ j < d, ∀ g, σ.frames[j]? = some g → g.declares name.lexeme = false := by
  have depth : σ.frames.findIdx? (·.declares name.lexeme) = some d := h.depth.symm.trans found
  obtain ⟨inside, declares, before⟩ := List.findIdx?_eq_some_iff_getElem.mp depth
  have frame : σ.frames[d]? = some σ.frames[d] := List.getElem?_eq_getElem inside
  obtain ⟨scope, there, holds⟩ := forall₂_at h.stands.frames frame
  refine ⟨_, scope, frame, declares, there, holds, fun j nearer g at_j => ?_⟩
  obtain ⟨known, same⟩ := List.getElem?_eq_some_iff.mp at_j
  rw [← same]
  exact Bool.eq_false_iff.mpr (before j nearer)

theorem far (h : m.Looks σ i name) (missing : m.scene.machine.depths[i]? = none) :
    ∀ f ∈ σ.frames, f.declares name.lexeme = false := by
  have depth : σ.frames.findIdx? (·.declares name.lexeme) = none := h.depth.symm.trans missing
  exact List.findIdx?_eq_none_iff.mp depth

theorem link {d : Nat} {scope : ScopeId} (h : m.Looks σ i name) (there : m.standpoint.display[d]? = some scope) :
    (m.scene.machine.store.chain m.scene.machine.scope)[d]? = some scope := by
  rw [h.stands.chain, List.getElem?_append_left (List.getElem?_eq_some_iff.mp there).1, there]

-- A local look-up goes to the scope of its region and to no other.
theorem target_near {d : Nat} {scope : ScopeId} (h : m.Looks σ i name) (found : m.scene.machine.depths[i]? = some d)
    (there : m.standpoint.display[d]? = some scope) : m.scene.machine.target? i name.lexeme =
      if m.scene.machine.store.binds scope name.lexeme then some scope else none := by
  unfold Machine.target? Store.binderAt?
  rw [found]
  dsimp only
  rw [h.link there]
  rfl

theorem target_far (h : m.Looks σ i name) (missing : m.scene.machine.depths[i]? = none) :
    m.scene.machine.target? i name.lexeme =
      if m.scene.machine.store.binds m.scene.machine.globals name.lexeme
      then some m.scene.machine.globals else none := by
  unfold Machine.target? Store.binder?
  rw [missing]
  dsimp only
  rw [h.alone, List.find?_cons]
  cases m.scene.machine.store.binds m.scene.machine.globals name.lexeme with
  | true => rfl
  | false => rfl

-- A slot that an assignment finds is loose.
theorem loose (h : m.Looks σ i name) (inside : lies ⟨σ, .expr (.assign i name e)⟩)
    (target : m.scene.machine.target? i name.lexeme = some scope) : m.scene.Loose lies scope name.lexeme := by
  intro region label
  cases found : m.scene.machine.depths[i]? with
  | none =>
    rw [h.target_far found] at target
    split at target
    · cases target
      cases h.bare.symm.trans label
    · cases target
  | some d =>
    obtain ⟨f, there, frame, _, inner, holds, _⟩ := h.near found
    rw [h.target_near found inner] at target
    split at target
    · cases target
      have same : region = f.region := Option.some.inj (Option.some.inj (label.symm.trans holds.label))
      refine ⟨σ, i, name, e, d, inside, rfl, h.depth.symm.trans found, ?_⟩
      rw [same, Setting.regions, List.getElem?_map, frame]
      rfl
    · cases target

end Moment.Looks

-- The instances that the values of a store are, or hold right in a field.
def Store.Holds (s : Store) (i : Instance) : Prop :=
  (∃ scope name, s.own? scope name = some (.instance i)) ∨
    ∃ j name, s.field? j name = some (.instance i)

def Store.Counts (s : Store) : Prop := ∀ i, s.Holds i → s.Has i

-- An initializer gives its receiver, and a class a new instance for which its initializer ran.
def Callee.Answers (before : Store) (v : Value) (a : Scene) : Callee → Prop
  | function f => f.initializer = true → ∃ i, (f, i) ∈ a.attached ∧ v = .instance i
  | classes c => ∃ i, v = .instance i ∧ i.madeBy = c ∧ ¬ before.Has i ∧ a.machine.store.Has i ∧
      ∀ m, c.initializer? = some m → ∃ f, (f, i) ∈ a.attached ∧ f.routine = m.routine
  | _ => True

def Moment.Tells (lies : Spot → Prop) (m : Moment) : Prop :=
  match m.event with
  | .refers i name => ∃ σ e, lies ⟨σ, .expr e⟩ ∧ e.Refers i name ∧ m.Looks σ i name
  | .ends s ending => ∃ σ, lies ⟨σ, .stmt s⟩ ∧ m.standpoint.Suits σ ∧ ending.Allowed σ
  | .returns c ending => ending ≠ .leave ∧
      (c.initializes = true → ∀ v, ending = .giveBack v → v = .nil)
  | .answers c before v => before.Counts ∧ c.Answers before v m.scene

-- A statement that ended normally has bound its names in a scope of the region where it lies. A call
-- changes no slot there was that is not loose.
def Moment.Shows (lies : Spot → Prop) (m : Moment) : Prop :=
  match m.event with
  | .ends s .normal => ∃ σ, lies ⟨σ, .stmt s⟩ ∧
      m.scene.labels[m.scene.machine.scope]? = some σ.regions.head? ∧
      ∀ t ∈ s.declares, m.scene.machine.store.binds m.scene.machine.scope t.lexeme = true
  | .answers _ before _ => ∀ s n v, ¬ m.scene.Loose lies s n → before.own? s n = some v →
      m.scene.machine.store.own? s n = some v
  | _ => True

structure Moment.Sound (lies : Spot → Prop) (m : Moment) : Prop where
  receivers : m.scene.Receivers
  tells : m.Tells lies
  shows : m.Shows lies
  furnished : m.scene.Furnished

structure Record.Sound (lies : Spot → Prop) (r : Record) : Prop where
  scene : r.scene.Sound lies
  moments : ∀ m ∈ r.moments, m.Sound lies
  -- Methods keep the receivers they were given.
  attached : ∀ m ∈ r.moments, m.scene.attached <+: r.scene.attached
  ordered : r.moments.Pairwise fun m later => m.scene.attached <+: later.scene.attached
  leads : ∀ m ∈ r.moments, m.scene.Leads lies r.scene
  constant : r.moments.Pairwise fun m later => m.scene.Leads lies later.scene
  furnished : r.scene.Furnished

theorem Scene.Sound.counts {a : Scene} (h : a.Sound lies) : a.machine.store.Counts := by
  rintro i (⟨scope, name, found⟩ | ⟨j, name, found⟩)
  · exact (h.values scope name _ found).2
  · exact (h.fields j name _ found).2

theorem Moment.Tells.widen {lies wider : Spot → Prop} {m : Moment} (h : m.Tells lies)
    (more : ∀ S, lies S → wider S) : m.Tells wider := by
  obtain ⟨here, scene, event⟩ := m
  cases event with
  | refers i name =>
    obtain ⟨σ, e, inside, rest⟩ := h
    exact ⟨σ, e, more _ inside, rest⟩
  | ends s ending =>
    obtain ⟨σ, inside, rest⟩ := h
    exact ⟨σ, more _ inside, rest⟩
  | returns c ending => exact h
  | answers c before v => exact h

theorem Moment.Shows.widen {lies wider : Spot → Prop} {m : Moment} (h : m.Shows lies)
    (more : ∀ S, lies S → wider S) : m.Shows wider := by
  obtain ⟨here, scene, event⟩ := m
  cases event with
  | answers c before v => exact fun s n v fixed own => h s n v (fun loose => fixed (Scene.Loose.widen loose more)) own
  | ends s ending =>
    cases ending with
    | leave | giveBack => trivial
    | normal =>
      obtain ⟨σ, inside, rest⟩ := h
      exact ⟨σ, more _ inside, rest⟩
  | refers | returns => trivial

theorem Moment.Sound.widen {lies wider : Spot → Prop} {m : Moment} (h : m.Sound lies)
    (more : ∀ S, lies S → wider S) : m.Sound wider :=
  ⟨h.receivers, h.tells.widen more, h.shows.widen more, h.furnished⟩

def Moment.Misses (m : Moment) (name : Token) : Prop :=
  ∃ i, m.event = .refers i name ∧ m.scene.machine.target? i name.lexeme = none

-- An undefined variable is what was looked up last.
def Record.Blames (r : Record) (halt : Halt) : Prop :=
  ∀ name, halt = .fault ⟨.undefinedVariable, name⟩ →
    ∃ before m, r.moments = before ++ [m] ∧ m.Misses name

-- A run keeps everything sound, however it ends, and a result is good.
def Upholds (lies : Spot → Prop) (names : List Token) (good : α → Scene → Prop) (x : Watching α)
    (here : Standpoint) (r : Record) : Prop :=
  match x here r with
  | .ok result after => r.scene.Steps lies names after.scene ∧ after.Sound lies ∧ good result after.scene
  | .error halt after => r.scene.Steps lies names after.scene ∧ after.Sound lies ∧ after.Blames halt

variable {lies : Spot → Prop} {names : List Token} {here : Standpoint} {r : Record}
  {good : α → Scene → Prop} {better : β → Scene → Prop}

theorem Record.Sound.onScene (h : r.Sound lies) {b : Scene} (later : r.scene.Leads lies b) (sound : b.Sound lies) :
    Record.Sound lies { r with scene := b } :=
  ⟨sound, h.moments, fun m member => (h.attached m member).trans later.attached, h.ordered,
    fun m member => (h.leads m member).trans later, h.constant, later.furnished h.furnished⟩

theorem Record.Sound.marked (h : r.Sound lies) {event : Event}
    (tells : Moment.Tells lies ⟨here, r.scene, event⟩) (shows : Moment.Shows lies ⟨here, r.scene, event⟩) :
    Record.Sound lies { r with moments := r.moments ++ [⟨here, r.scene, event⟩] } := by
  refine ⟨h.scene, fun m member => ?_, fun m member => ?_, ?_, fun m member => ?_, ?_, h.furnished⟩
  · rcases List.mem_append.mp member with before | last
    · exact h.moments m before
    · rw [List.mem_singleton.mp last]
      exact ⟨h.scene.receivers, tells, shows, h.furnished⟩
  · rcases List.mem_append.mp member with before | last
    · exact h.attached m before
    · cases List.mem_singleton.mp last
      exact List.prefix_refl _
  · refine List.pairwise_append.mpr ⟨h.ordered, List.pairwise_singleton .., fun m before n last => ?_⟩
    rw [List.mem_singleton.mp last]
    exact h.attached m before
  · rcases List.mem_append.mp member with before | last
    · exact h.leads m before
    · cases List.mem_singleton.mp last
      exact .refl _
  · refine List.pairwise_append.mpr ⟨h.constant, List.pairwise_singleton .., fun m before n last => ?_⟩
    rw [List.mem_singleton.mp last]
    exact h.leads m before

namespace Upholds

theorem pure (sound : r.Sound lies) (result : α) (fine : good result r.scene) :
    Upholds lies names good (pure result) here r :=
  ⟨.refl _ _, sound, fine⟩

theorem andThen {own : List Token} {x : Watching α} {k : α → Watching β}
    (first : Upholds lies own good x here r) (within : ∀ t ∈ own, t ∈ names)
    (next : ∀ result after, r.scene.Grows own after.scene → after.Sound lies →
      good result after.scene → Upholds lies names better (k result) here after) :
    Upholds lies names better (x >>= k) here r := by
  unfold Upholds at first ⊢
  show match EStateM.bind (x here) (fun result => k result here) r with | .ok .. => _ | .error .. => _
  unfold EStateM.bind
  cases run : x here r with
  | error halt after =>
    rw [run] at first
    exact ⟨first.1.widen within, first.2⟩
  | ok result after =>
    rw [run] at first
    obtain ⟨grows, sound, fine⟩ := first
    have rest := next result after grows.toGrows sound fine
    unfold Upholds at rest
    dsimp only
    cases later : k result here after with
    | ok last final =>
      rw [later] at rest
      exact ⟨(grows.widen within).trans rest.1, rest.2⟩
    | error halt final =>
      rw [later] at rest
      exact ⟨(grows.widen within).trans rest.1, rest.2⟩

theorem bind {x : Watching α} {k : α → Watching β} (first : Upholds lies names good x here r)
    (next : ∀ result after, r.scene.Grows names after.scene → after.Sound lies →
      good result after.scene → Upholds lies names better (k result) here after) :
    Upholds lies names better (x >>= k) here r :=
  first.andThen (fun _ member => member) next

theorem imp {other : α → Scene → Prop} {x : Watching α} (h : Upholds lies names good x here r)
    (implies : ∀ result after, r.scene.Grows names after → good result after → other result after) :
    Upholds lies names other x here r := by
  unfold Upholds at h ⊢
  cases run : x here r with
  | ok result after =>
    rw [run] at h
    exact ⟨h.1, h.2.1, implies result _ h.1.toGrows h.2.2⟩
  | error halt after =>
    rw [run] at h
    exact h

theorem widen {wider : List Token} {x : Watching α} (h : Upholds lies names good x here r)
    (more : ∀ t ∈ names, t ∈ wider) : Upholds lies wider good x here r := by
  unfold Upholds at h ⊢
  cases run : x here r with
  | ok result after =>
    rw [run] at h
    exact ⟨h.1.widen more, h.2⟩
  | error halt after =>
    rw [run] at h
    exact ⟨h.1.widen more, h.2⟩

theorem widen_nil {x : Watching α} (h : Upholds lies [] good x here r) :
    Upholds lies names good x here r := h.widen nofun

-- What a result is good for may speak of the whole step.
theorem steps {x : Watching α} (h : Upholds lies names good x here r) :
    Upholds lies names (fun result a => good result a ∧ r.scene.Steps lies names a) x here r := by
  unfold Upholds at h ⊢
  cases run : x here r with
  | ok result after =>
    rw [run] at h
    exact ⟨h.1, h.2.1, h.2.2, h.1⟩
  | error halt after =>
    rw [run] at h
    exact h

-- A step of the machine that succeeds.
theorem lift {y : Running α} {result : α} {machine : Machine} (sound : r.Sound lies)
    (run : y r.scene.machine = .ok result machine)
    (steps : r.scene.Steps lies names { r.scene with machine := machine })
    (kept : Scene.Sound lies { r.scene with machine := machine })
    (fine : good result { r.scene with machine := machine }) :
    Upholds lies names good (Watching.lift y) here r := by
  unfold Upholds Watching.lift
  rw [run]
  exact ⟨steps, sound.onScene steps.leads kept, fine⟩

-- A halt that does not come from a look-up.
theorem halt {y : Running α} {halt : Halt} {machine : Machine} (sound : r.Sound lies)
    (run : y r.scene.machine = .error halt machine)
    (steps : r.scene.Steps lies names { r.scene with machine := machine })
    (kept : Scene.Sound lies { r.scene with machine := machine })
    (other : ∀ name, halt ≠ .fault ⟨.undefinedVariable, name⟩) :
    Upholds lies names good (Watching.lift y) here r := by
  unfold Upholds Watching.lift
  rw [run]
  exact ⟨steps, sound.onScene steps.leads kept, fun name same => absurd same (other name)⟩

theorem fail (sound : r.Sound lies) (cause : RuntimeCause) (t : Token)
    (other : cause ≠ .undefinedVariable) :
    Upholds lies names good (Watching.lift (Running.fail cause t)) here r :=
  .halt sound rfl (.refl _ _) sound.scene fun name same => by
    cases same
    exact other rfl

theorem outOfFuel (sound : r.Sound lies) :
    Upholds lies names good (Watching.lift Running.outOfFuel) here r :=
  .halt sound rfl (.refl _ _) sound.scene nofun

theorem nested {x : Watching α} (s : Stmt) (h : Upholds lies names good x (here.nest s) r) :
    Upholds lies names good (Watching.nested s x) here r := h

theorem ending {x : Watching Ending} {good : Ending → Scene → Prop} (s : Stmt)
    (h : Upholds lies names good x here r)
    (tells : ∀ flow after, good flow after → Moment.Tells lies ⟨here, after, .ends s flow⟩)
    (shows : ∀ flow after, good flow after → Moment.Shows lies ⟨here, after, .ends s flow⟩) :
    Upholds lies names good (Watching.ending s x) here r :=
  h.bind fun flow after _ kept fine =>
    ⟨.refl _ _, kept.marked (tells flow after.scene fine) (shows flow after.scene fine), fine⟩

theorem returning {x : Watching Ending} {good : Ending → Scene → Prop} (c : Callee)
    (h : Upholds lies names good x here r)
    (tells : ∀ flow after, good flow after → Moment.Tells lies ⟨here, after, .returns c flow⟩) :
    Upholds lies names good (Watching.returning c x) here r :=
  h.bind fun flow after _ kept fine =>
    ⟨.refl _ _, kept.marked (tells flow after.scene fine) trivial, fine⟩

theorem answering {x : Watching Value} {good : Value → Scene → Prop} (c : Callee) (sound : r.Sound lies)
    (h : Upholds lies names (fun v a => good v a ∧ c.Answers r.scene.machine.store v a) x here r) :
    Upholds lies names good (Watching.answering c x) here r := by
  have counts := sound.scene.counts
  have asked : Upholds lies names good (x >>= fun v =>
      Watching.mark (.answers c r.scene.machine.store v) >>= fun _ => Pure.pure v) here r :=
    h.steps.bind fun v after _ kept fine => by
      have still : ∀ s n v, ¬ after.scene.Loose lies s n → r.scene.machine.store.own? s n = some v →
          after.scene.machine.store.own? s n = some v := fun s n v fixed own =>
        have known : s < r.scene.labels.length :=
          sound.scene.labels ▸ Store.known_of_own? _ _ _ _ own
        fine.2.leads.own s n v (fun loose => fixed (loose.later fine.2.toExtends known)) own
      exact ⟨.refl _ _, kept.marked ⟨counts, fine.1.2⟩ still, fine.1.1⟩
  exact asked

end Upholds

end ScopeScript
