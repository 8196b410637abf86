import ScopeScript.Proofs.Session.Address

namespace ScopeScript

open Request

-- A reference in the initializer of the variable that it refers to.
def Spot.InInitializer (accepted : List Spot) (i : RefId) (name : Token) (d : Nat) : Prop :=
  ∃ root ∈ accepted, ∃ σ e f, root.Within ⟨σ, .expr e⟩ ∧ e.Refers i name ∧ σ.frames[d]? = some f ∧
    ∃ t ∈ f.initializing, t.lexeme = name.lexeme

-- The look-up of a local goes to a scope whose variable has an initializer still to end.
def Moment.Early (m : Moment) (i : RefId) (name : Token) : Prop :=
  ∃ d scope, m.scene.machine.depths[i]? = some d ∧ m.standpoint.display[d]? = some scope ∧
    (scope, name.lexeme) ∈ m.scene.unfinished

section

variable {m : Moment} {σ : Setting} {i : RefId} {name : Token} {d : Nat} {scope : ScopeId}

theorem Moment.Looks.misses_iff (h : m.Looks σ i name) (found : m.scene.machine.depths[i]? = some d)
    (there : m.standpoint.display[d]? = some scope) :
    m.scene.machine.target? i name.lexeme = none ↔ (scope, name.lexeme) ∈ m.scene.unfinished := by
  obtain ⟨f, other, frame, declares, same, holds, _⟩ := h.near found
  rw [there] at same
  cases same
  rw [h.target_near found there]
  constructor
  · intro missed
    rcases holds.touched declares with bound | begun
    · rw [bound] at missed
      cases missed
    · exact begun
  · intro begun
    rw [h.unfinished scope name.lexeme begun]
    rfl

-- What is not bound yet was not declared before: only its own initializer knows it.
theorem Moment.Looks.initializing (h : m.Looks σ i name) (found : m.scene.machine.depths[i]? = some d)
    (there : m.standpoint.display[d]? = some scope) (begun : (scope, name.lexeme) ∈ m.scene.unfinished) :
    ∃ f, σ.frames[d]? = some f ∧ ∃ t ∈ f.initializing, t.lexeme = name.lexeme := by
  obtain ⟨f, other, frame, declares, same, holds, _⟩ := h.near found
  rw [there] at same
  cases same
  have unbound := h.unfinished scope name.lexeme begun
  refine ⟨f, frame, ?_⟩
  rcases Bool.or_eq_true_iff.mp declares with seen | own
  · obtain ⟨t, member, spelled⟩ := List.any_eq_true.mp seen
    rcases List.mem_append.mp member with declared | initializing
    · have bound := holds.declared t declared
      rw [beq_iff_eq.mp spelled, unbound] at bound
      cases bound
    · exact ⟨t, initializing, beq_iff_eq.mp spelled⟩
  · obtain ⟨receiver, spelled⟩ := Bool.and_eq_true_iff.mp own
    have bound := holds.receiver receiver
    rw [beq_iff_eq.mp spelled, unbound] at bound
    cases bound

end

-- A local look-up fails exactly while the initializer of its variable has not ended, and then
-- it stands in that initializer. Every other undefined variable is global.
theorem local_misses_exact (sink : Sink) (clock : Nat) (qs : List Inquiry) :
    let c := (Chronicle.start sink clock).askAll qs
    c.session = qs.foldl (fun s q => (q.perform s).2) (.start sink clock) ∧
      (∀ m ∈ c.record.moments, ∀ i name d, m.event = .refers i name →
        m.scene.machine.depths[i]? = some d →
          (m.scene.machine.target? i name.lexeme = none ↔ m.Early i name) ∧
          (m.Early i name → Spot.InInitializer c.accepted i name d)) ∧
      ∀ q name, (q.perform c.session).1 = .rejected [.runtime ⟨.undefinedVariable, name⟩] →
        ∃ before m i, (c.ask q).record.moments = before ++ [m] ∧ m.event = .refers i name ∧
          m.scene.machine.target? i name.lexeme = none ∧
          (m.scene.machine.depths[i]? = none ∨ m.Early i name) := by
  intro c
  have sound : c.Sound := .from_start sink clock qs
  have exact : ∀ c' : Chronicle, c'.Sound → ∀ m ∈ c'.record.moments, ∀ i name d,
      m.event = .refers i name → m.scene.machine.depths[i]? = some d →
        (m.scene.machine.target? i name.lexeme = none ↔ m.Early i name) ∧
        (m.Early i name → Spot.InInitializer c'.accepted i name d) := by
    intro c' sound m member i name d event found
    obtain ⟨root, accepted, σ, e, inside, refers, looks⟩ := sound.looks member event
    obtain ⟨_, scope, _, _, there, _⟩ := looks.near found
    have early : m.Early i name ↔ (scope, name.lexeme) ∈ m.scene.unfinished := by
      constructor
      · rintro ⟨d', scope', found', there', begun⟩
        rw [found] at found'
        cases found'
        rw [there] at there'
        cases there'
        exact begun
      · exact fun begun => ⟨d, scope, found, there, begun⟩
    refine ⟨(looks.misses_iff found there).trans early.symm, fun given => ?_⟩
    obtain ⟨f, frame, initializing⟩ := looks.initializing found there (early.mp given)
    exact ⟨root, accepted, σ, e, f, inside, refers, frame, initializing⟩
  refine ⟨(Chronicle.start sink clock).session_askAll qs, exact c sound, fun q name failed => ?_⟩
  obtain ⟨before, m, last, i, event, missed⟩ := sound.ask_blames failed name rfl
  refine ⟨before, m, i, last, event, missed, ?_⟩
  have member : m ∈ (c.ask q).record.moments := by
    rw [last]
    exact List.mem_append_right _ List.mem_cons_self
  cases found : m.scene.machine.depths[i]? with
  | none => exact .inl rfl
  | some d => exact .inr ((exact _ (sound.ask_sound q) m member i name d event found).1.mp missed)

-- { var a = fun () { return a; }(); }
-- The lambda is called while the initializer of a runs: its reference is local and finds nothing.
theorem local_missed_in_initializer :
    let asked := Session.run 50 "\x7b var a = fun () \x7b return a; \x7d(); \x7d" (.start .unlimited 0)
    asked.1 = .rejected [.runtime ⟨.undefinedVariable, ⟨.identifier, "a", ⟨1, 27⟩⟩⟩] ∧
      asked.2.machine.depths[0]? = some 1 := by
  decide +kernel

end ScopeScript
