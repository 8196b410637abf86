import ScopeScript.Proofs.Running.Stand

namespace ScopeScript

-- The scope that holds the receiver of a method holds nothing else.
structure Scene.Keeps (a : Scene) (f : Function) (i : Instance) : Prop where
  alone : ∃ outer, a.machine.store.scopes[f.closure]? = some ⟨[(receiverName, .instance i)], outer⟩
  label : ∃ methods, a.labels[f.closure]? = some (some (.receiver methods))
  initializer : f.initializer = f.routine.isInitializer

def Scene.Receives (a : Scene) (scope : ScopeId) : Prop :=
  ∃ methods, a.labels[scope]? = some (some (.receiver methods))

def Scene.Plain (a : Scene) (scope : ScopeId) : Prop :=
  ∃ label, a.labels[scope]? = some label ∧ ∀ methods, label ≠ some (.receiver methods)

-- A region may be opened there: right inside a receiver's scope only the body of its method.
def Scene.Fits (a : Scene) (closure : ScopeId) (region : Region) : Prop :=
  ∀ f i, (f, i) ∈ a.attached → f.closure = closure → region = .routine f.routine

structure Scene.Receivers (a : Scene) : Prop where
  kept : ∀ f i, (f, i) ∈ a.attached → a.Keeps f i
  made : ∀ scope, a.Receives scope → ∃ f i, (f, i) ∈ a.attached ∧ f.closure = scope
  single : ∀ f i g j, (f, i) ∈ a.attached → (g, j) ∈ a.attached → f.closure = g.closure → f = g
  known : ∀ s, ∀ t ∈ a.machine.store.chain s, t < a.machine.store.scopes.size
  bodies : ∀ s k t f i, (a.machine.store.chain s)[k]? = some t →
    (a.machine.store.chain s)[k + 1]? = some f.closure → (f, i) ∈ a.attached →
    a.labels[t]? = some (some (.routine f.routine))

variable {a b : Scene} {scope : ScopeId} {name : String}

theorem Scene.Keeps.own (h : a.Keeps f i) (name : String) : a.machine.store.own? f.closure name =
    if name = receiverName then some (.instance i) else none := by
  obtain ⟨outer, found⟩ := h.alone
  unfold Store.own?
  rw [found]
  exact Names.get?_cons ..

theorem Scene.Keeps.known (h : a.Keeps f i) : f.closure < a.machine.store.scopes.size := by
  obtain ⟨outer, found⟩ := h.alone
  exact (Array.getElem?_eq_some_iff.mp found).1

theorem Scene.Plain.not_receives (h : a.Plain scope) : ¬ a.Receives scope := by
  obtain ⟨label, there, plain⟩ := h
  rintro ⟨methods, receives⟩
  rw [there] at receives
  exact plain methods (Option.some.inj receives)

theorem Scene.Plain.later (h : a.Plain scope) (later : a.Extends b) : b.Plain scope := by
  obtain ⟨label, there, plain⟩ := h
  exact ⟨label, later.label there, plain⟩

namespace Scene.Receivers

-- No other name is bound in a receiver's scope.
theorem plain (h : a.Receivers) (bound : a.machine.store.binds scope name = true) (free : name ≠ receiverName) :
    ¬ a.Receives scope := by
  intro receives
  obtain ⟨f, i, member, rfl⟩ := h.made scope receives
  unfold Store.binds at bound
  rw [(h.kept f i member).own, if_neg free] at bound
  cases bound

theorem fits_plain (h : a.Receivers) (plain : a.Plain scope) (region : Region) : a.Fits scope region := by
  rintro f i member rfl
  exact absurd (h.kept f i member).label plain.not_receives

theorem fits_attached (h : a.Receivers) {f : Function} {i : Instance} (member : (f, i) ∈ a.attached) :
    a.Fits f.closure (.routine f.routine) := by
  intro g j other same
  rw [h.single g j f i other member same]

-- A step that opens no scope and leaves the receivers' scopes alone.
theorem still (h : a.Receivers) (attached : b.attached = a.attached) (labels : b.labels = a.labels)
    (scopes : ∀ s, a.Receives s → b.machine.store.scopes[s]? = a.machine.store.scopes[s]?)
    (chain : ∀ s, b.machine.store.chain s = a.machine.store.chain s)
    (size : b.machine.store.scopes.size = a.machine.store.scopes.size) : b.Receivers where
  kept f i member := by
    rw [attached] at member
    obtain ⟨alone, label, initializer⟩ := h.kept f i member
    exact ⟨by rw [scopes _ label]; exact alone, by rw [labels]; exact label, initializer⟩
  made s receives := by
    unfold Receives at receives
    rw [labels] at receives
    rw [attached]
    exact h.made s receives
  single := attached ▸ h.single
  known s t member := by
    rw [chain] at member
    exact size ▸ h.known s t member
  bodies s k t f i inner outer member := by
    rw [chain] at inner outer
    rw [labels]
    exact h.bodies s k t f i inner outer (attached ▸ member)

theorem put (h : a.Receivers) {v : Value} (plain : ¬ a.Receives scope) (attached : b.attached = a.attached)
    (labels : b.labels = a.labels) (store : b.machine.store = a.machine.store.put scope name v) : b.Receivers := by
  refine h.still attached labels (fun s receives => ?_) (fun s => ?_) ?_
  · have apart : scope ≠ s := by
      rintro rfl
      exact plain receives
    rw [store]
    show (a.machine.store.scopes.modify scope _)[s]? = _
    rw [Array.getElem?_modify, if_neg apart]
  · rw [store, Store.chain_put]
  · rw [store, Store.size_put]

theorem aside (h : a.Receivers) (attached : b.attached = a.attached) (labels : b.labels = a.labels)
    (scopes : b.machine.store.scopes = a.machine.store.scopes) : b.Receivers :=
  h.still attached labels (fun s _ => by rw [scopes]) (fun s => by unfold Store.chain; rw [scopes])
    (by rw [scopes])

end Scene.Receivers

-- A new scope right inside another one.
structure Scene.Opens (a b : Scene) (closure : ScopeId) (bindings : Names Value) (region : Region) : Prop where
  scopes : b.machine.store.scopes = (a.machine.store.openWithin closure bindings).2.scopes
  labels : b.labels = a.labels ++ [some region]

namespace Scene.Opens

variable {closure : ScopeId} {bindings : Names Value} {region : Region} (opens : a.Opens b closure bindings region)

include opens

theorem chain (s : ScopeId) : b.machine.store.chain s = if s = a.machine.store.scopes.size
    then s :: a.machine.store.chain closure else a.machine.store.chain s := by
  have same : b.machine.store.chain s = (a.machine.store.openWithin closure bindings).2.chain s := by
    unfold Store.chain
    rw [opens.scopes]
  rw [same]
  exact Store.chain_openScope ..

theorem keeps {f : Function} {i : Instance} (keeps : a.Keeps f i) : b.Keeps f i := by
  obtain ⟨⟨around, alone⟩, ⟨methods, label⟩, initializer⟩ := keeps
  refine ⟨⟨around, ?_⟩, ⟨methods, ?_⟩, initializer⟩
  · rw [opens.scopes]
    show (a.machine.store.scopes.push _)[f.closure]? = _
    rw [Array.getElem?_push, if_neg (Nat.ne_of_lt (Array.getElem?_eq_some_iff.mp alone).1), alone]
  · rw [opens.labels, List.getElem?_append_left (List.getElem?_eq_some_iff.mp label).1, label]

theorem receives {s : ScopeId} (receives : b.Receives s) :
    a.Receives s ∨ s = a.labels.length ∧ region.isReceiver = true := by
  obtain ⟨methods, label⟩ := receives
  rw [opens.labels] at label
  by_cases known : s < a.labels.length
  · rw [List.getElem?_append_left known] at label
    exact .inl ⟨methods, label⟩
  · have bound := (List.getElem?_eq_some_iff.mp label).1
    rw [List.length_append, List.length_singleton] at bound
    rw [List.getElem?_append_right (Nat.le_of_not_lt known)] at label
    cases List.mem_singleton.mp (List.mem_of_getElem? label)
    exact .inr ⟨Nat.le_antisymm (Nat.le_of_lt_succ bound) (Nat.le_of_not_lt known), rfl⟩

-- Behind its head a chain has only scopes that were there before.
theorem known_behind (h : a.Receivers) {s t : ScopeId} {k : Nat}
    (there : (b.machine.store.chain s)[k + 1]? = some t) : t < a.machine.store.scopes.size := by
  rw [opens.chain] at there
  split at there
  · exact h.known closure t (List.mem_of_getElem? there)
  · exact h.known s t (List.mem_of_getElem? there)

theorem known (h : a.Receivers) (s t : ScopeId) (member : t ∈ b.machine.store.chain s) :
    t < b.machine.store.scopes.size := by
  have grown : b.machine.store.scopes.size = a.machine.store.scopes.size + 1 := by
    rw [opens.scopes]
    exact Array.size_push ..
  rw [grown]
  obtain ⟨k, there⟩ := List.getElem?_of_mem member
  cases k with
  | succ k => exact Nat.lt_succ_of_lt (opens.known_behind h there)
  | zero =>
    rw [opens.chain] at there
    split at there
    · cases there
      exact Nat.lt_succ_of_le (Nat.le_of_eq ‹_›)
    · exact Nat.lt_succ_of_lt (h.known s t (List.mem_of_getElem? there))

theorem bodies (h : a.Receivers) (size : a.labels.length = a.machine.store.scopes.size)
    (fits : a.Fits closure region) {s k : Nat} {t : ScopeId} {f : Function} {i : Instance}
    (inner : (b.machine.store.chain s)[k]? = some t)
    (outer : (b.machine.store.chain s)[k + 1]? = some f.closure) (member : (f, i) ∈ a.attached) :
    b.labels[t]? = some (some (.routine f.routine)) := by
  have old : ∀ u j, (a.machine.store.chain u)[j]? = some t → (a.machine.store.chain u)[j + 1]? = some f.closure →
      b.labels[t]? = some (some (.routine f.routine)) := by
    intro u j inner outer
    have label := h.bodies u j t f i inner outer member
    rw [opens.labels, List.getElem?_append_left (List.getElem?_eq_some_iff.mp label).1, label]
  rw [opens.chain] at inner outer
  by_cases new : s = a.machine.store.scopes.size
  · rw [if_pos new] at inner outer
    cases k with
    | succ k => exact old closure k inner outer
    | zero =>
      cases inner
      have around : f.closure = closure := by
        cases chain : a.machine.store.chain closure with
        | nil =>
          rw [chain] at outer
          cases outer
        | cons first rest =>
          rw [chain] at outer
          cases outer
          exact a.machine.store.chain_head closure _ _ chain
      rw [opens.labels, new, ← size, List.getElem?_concat_length, fits f i member around]
  · rw [if_neg new] at inner outer
    exact old s k inner outer

-- A new scope that holds no receiver.
theorem receivers (h : a.Receivers) (size : a.labels.length = a.machine.store.scopes.size)
    (plain : region.isReceiver = false) (fits : a.Fits closure region) (attached : b.attached = a.attached) :
    b.Receivers where
  kept f i member := opens.keeps (h.kept f i (attached ▸ member))
  made s receives := by
    rw [attached]
    rcases opens.receives receives with before | ⟨_, own⟩
    · exact h.made s before
    · rw [plain] at own
      cases own
  single := attached ▸ h.single
  known := opens.known h
  bodies s k t f i inner outer member := opens.bodies h size fits inner outer (attached ▸ member)

-- A method gets a receiver in a new scope.
theorem attach (h : a.Receivers) (size : a.labels.length = a.machine.store.scopes.size) {f : Function}
    {i : Instance} {methods : List Routine} (around : a.Plain closure)
    (receiver : region = .receiver methods) (bound : bindings = [(receiverName, .instance i)])
    (attached : b.attached = a.attached ++ [(f, i)]) (new : f.closure = a.machine.store.scopes.size)
    (initializer : f.initializer = f.routine.isInitializer) : b.Receivers where
  kept g j member := by
    rw [attached] at member
    rcases List.mem_append.mp member with before | last
    · exact opens.keeps (h.kept g j before)
    · cases List.mem_singleton.mp last
      refine ⟨⟨a.machine.store.chain closure, ?_⟩, ⟨methods, ?_⟩, initializer⟩
      · rw [opens.scopes, new, bound]
        exact Array.getElem?_push_size
      · rw [opens.labels, new, ← size, receiver, List.getElem?_concat_length]
  made s receives := by
    rw [attached]
    rcases opens.receives receives with before | ⟨last, _⟩
    · obtain ⟨g, j, member, same⟩ := h.made s before
      exact ⟨g, j, List.mem_append_left _ member, same⟩
    · exact ⟨f, i, List.mem_append_right _ List.mem_cons_self, by rw [new, last, size]⟩
  single g j g' j' member member' same := by
    have old : ∀ g j, (g, j) ∈ a.attached → g.closure ≠ f.closure := fun g j before => by
      rw [new]
      exact Nat.ne_of_lt (h.kept g j before).known
    rw [attached] at member member'
    rcases List.mem_append.mp member with before | last <;> rcases List.mem_append.mp member' with before' | last'
    · exact h.single g j g' j' before before' same
    · cases List.mem_singleton.mp last'
      exact absurd same (old g j before)
    · cases List.mem_singleton.mp last
      exact absurd same.symm (old g' j' before')
    · cases List.mem_singleton.mp last
      cases List.mem_singleton.mp last'
      rfl
  known := opens.known h
  bodies s k t g j inner outer member := by
    rw [attached] at member
    rcases List.mem_append.mp member with before | last
    · exact opens.bodies h size (h.fits_plain around region) inner outer before
    · cases List.mem_singleton.mp last
      exact absurd (opens.known_behind h outer) (by rw [new]; exact Nat.lt_irrefl _)

end Scene.Opens

-- Statements and expressions never stand right inside a receiver's scope.
theorem Scene.Stands.plain {σ : Setting} {display : Display} (h : a.Stands σ display scope)
    (bare : a.labels[a.machine.globals]? = some none) (nested : Region.Nested σ.regions) : a.Plain scope := by
  have frames := h.frames
  cases given : display with
  | nil =>
    have chain := h.chain
    rw [given] at chain
    have top : a.machine.globals = scope := a.machine.store.chain_head scope _ _ chain
    exact ⟨none, top ▸ bare, nofun⟩
  | cons there outer =>
    rw [given] at h frames
    cases inside : σ.frames with
    | nil =>
      rw [inside] at frames
      cases frames
    | cons f rest =>
      rw [inside] at frames
      cases frames with
      | cons first _ =>
        refine ⟨some f.region, h.innermost ▸ first.label, fun methods own => ?_⟩
        have regions : σ.regions = f.region :: rest.map (·.region) := by
          unfold Setting.regions
          rw [inside, List.map_cons]
        have receives := (regions ▸ nested).head
        rw [Option.some.inj own] at receives
        cases receives

end ScopeScript
