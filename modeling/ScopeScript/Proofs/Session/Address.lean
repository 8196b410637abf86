import ScopeScript.Proofs.Session.Accept

namespace ScopeScript

-- A reference that was looked up stands in an accepted source, and the scopes it was looked up
-- from were opened for the regions around it.
def Moment.Stems (accepted : List Spot) (m : Moment) (i : RefId) (name : Token) : Prop :=
  ∃ root ∈ accepted, ∃ σ e, root.Within ⟨σ, .expr e⟩ ∧ e.Refers i name ∧
    m.standpoint.display.map (fun s => m.scene.labels[s]?) = σ.regions.map fun region => some (some region)

-- A scope was opened for a region that declares a name before a token.
def Scene.Declares (a : Scene) (scope : ScopeId) (name : Token) : Prop :=
  ∃ region, a.labels[scope]? = some (some region) ∧ region.DeclaresBefore name.lexeme name

structure Moment.Addressed (m : Moment) (i : RefId) (name : Token) : Prop where
  -- The scopes around are the ones that the running code was made in.
  chain : m.scene.machine.store.chain m.scene.machine.scope =
    m.standpoint.display ++ [m.scene.machine.globals]
  bare : m.scene.labels[m.scene.machine.globals]? = some none
  near : ∀ d, m.scene.machine.depths[i]? = some d → ∃ scope,
    (m.scene.machine.store.chain m.scene.machine.scope)[d]? = some scope ∧
    m.standpoint.display[d]? = some scope ∧ m.scene.Declares scope name ∧
    ∀ nearer ∈ m.standpoint.display.take d, ¬m.scene.Declares nearer name
  far : m.scene.machine.depths[i]? = none →
    (∀ scope ∈ m.standpoint.display, ¬m.scene.Declares scope name) ∧
    m.scene.machine.target? i name.lexeme =
      if m.scene.machine.store.binds m.scene.machine.globals name.lexeme
      then some m.scene.machine.globals else none

section Looks

variable {m : Moment} {σ : Setting} {i : RefId} {name : Token}

-- The region of a scope is that of the frame.
theorem Frame.Holds.declares_iff {f : Frame} (h : f.Holds a scope)
    (exact : f.declares name.lexeme = true ↔ f.region.DeclaresBefore name.lexeme name) :
    a.Declares scope name ↔ f.declares name.lexeme = true := by
  rw [exact]
  constructor
  · rintro ⟨region, label, declares⟩
    rw [h.label] at label
    cases label
    exact declares
  · exact fun declares => ⟨f.region, h.label, declares⟩

namespace Moment.Looks

theorem addressed (h : m.Looks σ i name)
    (exact : ∀ f ∈ σ.frames, f.declares name.lexeme = true ↔ f.region.DeclaresBefore name.lexeme name) :
    m.Addressed i name := by
  have declares : ∀ {scope}, scope ∈ m.standpoint.display → m.scene.Declares scope name →
      ∃ f ∈ σ.frames, f.declares name.lexeme = true := by
    intro scope member declares
    obtain ⟨j, at_j⟩ := List.getElem?_of_mem member
    obtain ⟨f, frame, holds⟩ := forall₂_at h.stands.frames.flip at_j
    have inside := List.mem_of_getElem? frame
    exact ⟨f, inside, (holds.declares_iff (exact f inside)).mp declares⟩
  refine ⟨h.stands.chain, h.bare, fun d found => ?_, fun missing => ⟨fun scope member given => ?_, ?_⟩⟩
  · obtain ⟨f, scope, frame, given, there, holds, before⟩ := h.near found
    refine ⟨scope, h.link there, there, ?_, fun nearer member declared => ?_⟩
    · exact (holds.declares_iff (exact f (List.mem_of_getElem? frame))).mpr given
    · obtain ⟨j, bound, at_j⟩ := List.mem_take_iff_getElem.mp member
      obtain ⟨g, frame, holds⟩ := forall₂_at h.stands.frames.flip (List.getElem?_eq_some_iff.mpr ⟨_, at_j⟩)
      have known := (holds.declares_iff (exact g (List.mem_of_getElem? frame))).mp declared
      rw [before j (Nat.lt_of_lt_of_le bound (Nat.min_le_left _ _)) g frame] at known
      cases known
  · obtain ⟨f, inside, known⟩ := declares member given
    rw [h.far missing f inside] at known
    cases known
  · exact h.target_far missing

end Moment.Looks

end Looks

theorem Chronicle.Sound.looks {c : Chronicle} (h : c.Sound) {m : Moment} (member : m ∈ c.record.moments)
    (event : m.event = .refers i name) : ∃ root ∈ c.accepted, ∃ σ e, root.Within ⟨σ, .expr e⟩ ∧
      e.Refers i name ∧ m.Looks σ i name := by
  have sound := (h.record.moments m member).tells
  unfold Moment.Tells at sound
  rw [event] at sound
  obtain ⟨σ, e, ⟨root, accepted, inside⟩, refers, looks⟩ := sound
  exact ⟨root, accepted, σ, e, inside, refers, looks⟩

-- Every look-up of every run on a session, whatever was asked before.
theorem references_addressed (sink : Sink) (clock : Nat) (qs : List Inquiry) :
    let c := (Chronicle.start sink clock).askAll qs
    c.session = qs.foldl (fun s q => (q.perform s).2) (.start sink clock) ∧
      ∀ m ∈ c.record.moments, ∀ i name, m.event = .refers i name →
        m.Stems c.accepted i name ∧ m.Addressed i name := by
  intro c
  have sound : c.Sound := .from_start sink clock qs
  refine ⟨(Chronicle.start sink clock).session_askAll qs, fun m member i name event => ?_⟩
  obtain ⟨root, accepted, σ, e, inside, refers, looks⟩ := sound.looks member event
  have accepts := sound.accepts root accepted
  obtain ⟨final, passed⟩ := accepts.passed
  have exact := inside.declares_iff passed accepts.placed refers name.lexeme
  exact ⟨⟨root, accepted, σ, e, inside, refers, looks.stands.labels⟩, looks.addressed exact⟩

end ScopeScript
