import ScopeScript.Proofs.Scoping.Lawful
import ScopeScript.Proofs.Running.Grow

namespace ScopeScript

-- A scope was opened for the region of a frame and has what the frame promises of it.
structure Frame.Holds (f : Frame) (a : Scene) (scope : ScopeId) : Prop where
  label : a.labels[scope]? = some (some f.region)
  declared : ∀ t ∈ f.declared, a.machine.store.binds scope t.lexeme = true
  initializing : ∀ t ∈ f.initializing, a.Touched scope t.lexeme
  receiver : f.region.isReceiver = true → a.machine.store.binds scope receiverName = true

-- A scope and all around it are those of a display, and these were opened for the regions around
-- some code.
structure Scene.Stands (a : Scene) (σ : Setting) (display : Display) (scope : ScopeId) : Prop where
  chain : a.machine.store.chain scope = display ++ [a.machine.globals]
  apart : a.machine.globals ∉ display
  frames : List.Forall₂ (Frame.Holds · a ·) σ.frames display

theorem Frame.Holds.later {f : Frame} (h : f.Holds a there) (later : a.Extends b) : f.Holds b there where
  label := later.label h.label
  declared t member := later.binds _ _ (h.declared t member)
  initializing t member := later.touched _ _ (h.initializing t member)
  receiver own := later.binds _ _ (h.receiver own)

-- What a frame declares is touched in its scope.
theorem Frame.Holds.touched {f : Frame} (h : f.Holds a there) (declared : f.declares name = true) :
    a.Touched there name := by
  rcases Bool.or_eq_true_iff.mp declared with seen | own
  · obtain ⟨t, member, same⟩ := List.any_eq_true.mp seen
    rw [← beq_iff_eq.mp same]
    rcases List.mem_append.mp member with declared | begun
    · exact .inl (h.declared t declared)
    · exact h.initializing t begun
  · obtain ⟨receiver, same⟩ := Bool.and_eq_true_iff.mp own
    rw [← beq_iff_eq.mp same]
    exact .inl (h.receiver receiver)

theorem holds_labels {frames : List Frame} {display : Display}
    (holds : List.Forall₂ (Frame.Holds · a ·) frames display) :
    display.map (fun s => a.labels[s]?) = frames.map fun f => some (some f.region) := by
  induction holds with
  | nil => rfl
  | cons first _ ih => rw [List.map_cons, List.map_cons, first.label, ih]

theorem forall₂_at {R : α → β → Prop} {xs : List α} {ys : List β} (h : List.Forall₂ R xs ys) :
    ∀ {d : Nat} {x : α}, xs[d]? = some x → ∃ y, ys[d]? = some y ∧ R x y := by
  induction h with
  | nil =>
    intro d x found
    cases found
  | cons first _ ih =>
    intro d x found
    cases d with
    | zero =>
      cases found
      exact ⟨_, rfl, first⟩
    | succ d => exact ih found

namespace Scene.Stands

variable {a b : Scene} {σ : Setting} {display : Display} {scope : ScopeId}

theorem known (h : a.Stands σ display scope) : scope < a.machine.store.scopes.size := by
  refine a.machine.store.known_of_chain scope ?_
  rw [h.chain]
  simp

theorem later (h : a.Stands σ display scope) (later : a.Extends b) : b.Stands σ display scope where
  chain := by rw [later.chain scope h.known, h.chain, later.globals]
  apart := by rw [later.globals]; exact h.apart
  frames := h.frames.imp fun _ _ holds => holds.later later

theorem recast {τ : Setting} (h : a.Stands σ display scope) (same : τ.frames = σ.frames) :
    a.Stands τ display scope := ⟨h.chain, h.apart, same ▸ h.frames⟩

theorem labels (h : a.Stands σ display scope) :
    display.map (fun s => a.labels[s]?) = σ.regions.map fun region => some (some region) := by
  unfold Setting.regions
  rw [List.map_map]
  exact holds_labels h.frames

-- The label of the scope itself is its region, and nothing where it is the global one.
theorem label (h : a.Stands σ display scope) (bare : a.labels[a.machine.globals]? = some none) :
    a.labels[scope]? = some σ.regions.head? := by
  have labels := h.labels
  have chain := h.chain
  cases display with
  | nil =>
    rw [List.map_nil, eq_comm, List.map_eq_nil_iff] at labels
    rw [labels, ← a.machine.store.chain_head scope _ _ chain]
    exact bare
  | cons there outer =>
    rw [a.machine.store.chain_head scope _ _ chain] at labels
    cases regions : σ.regions with
    | nil => rw [regions] at labels; cases labels
    | cons region rest =>
      rw [regions] at labels
      exact (List.cons.inj labels).1

theorem innermost {there : ScopeId} {outer : Display} (h : a.Stands σ (there :: outer) scope) :
    there = scope :=
  a.machine.store.chain_head scope _ _ h.chain

-- Only the innermost frame changes, and its scope keeps up with it.
theorem onInnermost (h : a.Stands σ display scope) (change : Frame → Frame)
    (keeps : ∀ f there outer, display = there :: outer → there = scope → f.Holds a there →
      (change f).Holds a there) : a.Stands (σ.onInnermost change) display scope := by
  obtain ⟨frames, body, around⟩ := σ
  obtain ⟨chain, apart, holds⟩ := h
  refine ⟨chain, apart, ?_⟩
  cases holds with
  | nil => exact .nil
  | cons first rest =>
    exact .cons (keeps _ _ _ rfl (a.machine.store.chain_head scope _ _ chain) first) rest

theorem declare (h : a.Stands σ display scope) (names : List Token)
    (bound : ∀ t ∈ names, a.machine.store.binds scope t.lexeme = true) :
    a.Stands (σ.declare names) display scope := by
  refine h.onInnermost _ fun f there outer _ same holds => { holds with declared := ?_ }
  intro t member
  rcases List.mem_append.mp member with before | new
  · exact holds.declared t before
  · exact same ▸ bound t new

theorem initializing (h : a.Stands σ display scope) (name : Token)
    (begun : display ≠ [] → a.Touched scope name.lexeme) :
    a.Stands (σ.initializing name) display scope := by
  refine h.onInnermost _ fun f there outer inside same holds => { holds with initializing := ?_ }
  intro t member
  rcases List.mem_cons.mp member with rfl | before
  · exact same ▸ begun (inside ▸ List.cons_ne_nil _ _)
  · exact holds.initializing t before

theorem enter {τ : Setting} {f : Frame} {new : ScopeId} (h : a.Stands σ display scope)
    (frames : τ.frames = f :: σ.frames) (chain : a.machine.store.chain new = new :: a.machine.store.chain scope)
    (apart : new ≠ a.machine.globals) (holds : f.Holds a new) :
    a.Stands τ (new :: display) new where
  chain := by rw [chain, h.chain]; rfl
  apart member := by
    rcases List.mem_cons.mp member with same | before
    · exact apart same.symm
    · exact h.apart before
  frames := frames ▸ .cons holds h.frames

theorem top (alone : a.machine.store.chain a.machine.globals = [a.machine.globals]) :
    a.Stands .outermost [] a.machine.globals := ⟨alone, nofun, .nil⟩

end Scene.Stands

-- Nothing in the current scope is touched but what the innermost frame declares.
def Scene.Exact (a : Scene) (σ : Setting) : Prop :=
  ∀ f outer, σ.frames = f :: outer → ∀ name, a.Touched a.machine.scope name → f.declares name = true

theorem Scene.Exact.declare {a b : Scene} {σ : Setting} (h : a.Exact σ) (grows : a.Grows names b)
    (known : a.machine.scope < a.machine.store.scopes.size) : b.Exact (σ.declare names) := by
  obtain ⟨frames, body, around⟩ := σ
  intro f outer inside name touched
  cases frames with
  | nil => cases inside
  | cons g rest =>
    cases inside
    rw [Frame.declares_declared]
    rw [grows.scope] at touched
    rcases grows.fresh _ known name touched with before | ⟨_, named⟩
    · rw [h _ _ rfl name before, Bool.or_true]
    · rw [named, Bool.true_or]

def Callee.initializes : Callee → Bool
  | function f => f.initializer
  | _ => false

structure Standpoint.Suits (here : Standpoint) (σ : Setting) : Prop where
  around : here.around = σ.around
  running : here.running = none ↔ σ.body = .outside
  initializer : ∀ c, here.running = some c → c.initializes = true → σ.body = .initializer

-- A run is about to run the code at some place.
structure Scene.Meets (a : Scene) (here : Standpoint) (σ : Setting) : Prop where
  stands : a.Stands σ here.display a.machine.scope
  exact : a.Exact σ
  suits : here.Suits σ

namespace Scene.Meets

variable {a b : Scene} {here : Standpoint} {σ : Setting}

theorem declare (h : a.Meets here σ) (grows : a.Grows names b)
    (bound : ∀ t ∈ names, b.machine.store.binds a.machine.scope t.lexeme = true) :
    b.Meets here (σ.declare names) where
  stands := by
    rw [grows.scope]
    exact (h.stands.later grows.toExtends).declare names bound
  exact := h.exact.declare grows h.stands.known
  suits := by
    obtain ⟨frames, body, around⟩ := σ
    cases frames with
    | nil => exact h.suits
    | cons f outer => exact ⟨h.suits.around, h.suits.running, h.suits.initializer⟩

theorem grows (h : a.Meets here σ) (grows : a.Grows [] b) : b.Meets here σ := by
  have same := h.declare grows nofun
  rwa [Setting.declare_nil] at same

theorem nest (h : a.Meets here σ) (s : Stmt) : a.Meets (here.nest s) (σ.nest s) where
  stands := h.stands.recast rfl
  exact := h.exact
  suits := ⟨congrArg (s :: ·) h.suits.around, h.suits.running, h.suits.initializer⟩

end Scene.Meets

end ScopeScript
