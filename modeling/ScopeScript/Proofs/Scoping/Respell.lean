import ScopeScript.Proofs.Scoping.Whole

namespace ScopeScript

-- A local variable or a parameter of a program.
inductive Spot.Slot (root : Spot) (t : Token) : Prop
  | var {σ : Setting} {initial : Option Expr} (inside : root.Within ⟨σ, .stmt (.var t initial)⟩) (framed : σ.frames ≠ [])
  | parameter {σ : Setting} {kind : BodyKind} {r : Routine} (inside : root.Within ⟨σ, .routine kind r⟩)
      (member : t ∈ r.parameters)

namespace Spot.Slot

variable {root : Spot}

theorem named (h : root.Slot t) : t ∈ root.code.names := by
  cases h with
  | var inside _ =>
    exact root.everywhere_names.mem_iff.mpr
      (List.mem_flatMap.mpr ⟨_, Spot.mem_everywhere.mpr inside, List.mem_singleton_self t⟩)
  | parameter inside member =>
    exact root.everywhere_names.mem_iff.mpr (List.mem_flatMap.mpr ⟨_, Spot.mem_everywhere.mpr inside, member⟩)

theorem free (h : root.Slot t) (proper : root.Proper) : t.Free := by
  cases h with
  | var inside _ => exact (inside.proper proper).code.declares t (List.mem_singleton_self t)
  | @parameter σ kind r inside member =>
    have entered := (inside.proper proper).part (List.mem_singleton_self _)
    exact entered.seen _ List.mem_cons_self t (List.mem_append_left _ member)

-- No other statement declares it, and the variable is no global.
theorem apart (h : root.Slot t) (single : root.code.names.Nodup) {σ : Setting} {s : Stmt}
    (inside : root.Within ⟨σ, .stmt s⟩) (declared : t ∈ s.declares) :
    σ.frames ≠ [] ∧ ∃ initial, s = .var t initial := by
  cases h with
  | var within framed =>
    cases Spot.named_unique single inside within declared (List.mem_singleton_self t)
    exact ⟨framed, _, rfl⟩
  | parameter within member => cases Spot.named_unique single inside within declared member

end Spot.Slot

-- A declaration and the references that lead to it get a new name.
def Revision.respell (root : Spot) (t : Token) (name : String) : Revision where
  declare u := if u = t then { t with lexeme := name } else u
  refer i u := if ⟨i, u, t⟩ ∈ root.linking then { u with lexeme := name } else u
  omits _ := false
  cuts _ := false
  takes other := other == name

namespace Revision.respell

variable {root : Spot} {t : Token} {name : String}

theorem whole (root : Spot) (t : Token) (name : String) : (respell root t name).Whole := ⟨fun _ => rfl, fun _ => rfl⟩

theorem declare_self : (respell root t name).declare t = { t with lexeme := name } := if_pos rfl

theorem declare_other (other : u ≠ t) : (respell root t name).declare u = u := if_neg other

theorem placed (u : Token) : ((respell root t name).declare u).position = u.position := by
  by_cases same : u = t
  · rw [same, declare_self]
  · rw [declare_other same]

theorem named_fresh (fresh : ∀ m ∈ root.code.mentions, m.token.lexeme ≠ name) {u : Token}
    (named : u ∈ root.code.names) : u.lexeme ≠ name := by
  obtain ⟨m, there, rfl⟩ := List.mem_map.mp ((namesOf_sublist _).subset named)
  exact fresh m there

-- Names get the new spelling only where they are the declaration.
theorem declare_lexeme (fresh : ∀ m ∈ root.code.mentions, m.token.lexeme ≠ name) {u : Token}
    (named : u ∈ root.code.names) : ((respell root t name).declare u).lexeme = name ↔ u = t := by
  constructor
  · intro same
    by_contra other
    rw [declare_other other] at same
    exact named_fresh fresh named same
  · rintro rfl
    rw [declare_self]

theorem injective (fresh : ∀ m ∈ root.code.mentions, m.token.lexeme ≠ name) :
    ∀ u ∈ root.code.names, ∀ v ∈ root.code.names,
      (respell root t name).declare u = (respell root t name).declare v → u = v := by
  intro u known v known' same
  have spelled := congrArg Token.lexeme same
  by_cases here : u = t
  · rw [here, declare_self] at spelled
    rw [here, ((declare_lexeme fresh known').mp spelled.symm)]
  · rw [declare_other here] at same spelled
    by_cases there : v = t
    · rw [there, declare_self] at spelled
      exact absurd spelled (named_fresh fresh known)
    · rwa [declare_other there] at same

theorem respects (slot : root.Slot t) (proper : root.Proper) (single : root.code.names.Nodup)
    (refs : (refsOf root.code.mentions).Nodup) (fresh : ∀ m ∈ root.code.mentions, m.token.lexeme ≠ name)
    (plain : name ≠ receiverName) : (respell root t name).Respects root := by
  -- Whether a reference changes is told by what it leads to.
  have leads : ∀ {σ e i u}, root.Within ⟨σ, .expr e⟩ → e.Refers i u →
      (⟨i, u, t⟩ ∈ root.linking ↔ σ.binder? u.lexeme = some t) := fun inside refers =>
    ⟨fun member => (Spot.linking_unique refs inside refers member rfl).2, fun binder =>
      Spot.mem_linking.mpr ⟨_, _, inside, refers, binder⟩⟩
  have changed : ∀ {σ e i u}, root.Within ⟨σ, .expr e⟩ → e.Refers i u → σ.binder? u.lexeme = some t →
      ((respell root t name).refer i u).lexeme = name := by
    intro σ e i u inside refers binder
    show Token.lexeme (if _ then _ else _) = name
    rw [if_pos ((leads inside refers).mpr binder)]
  have same : ∀ {σ e i u}, root.Within ⟨σ, .expr e⟩ → e.Refers i u → σ.binder? u.lexeme ≠ some t →
      (respell root t name).refer i u = u := by
    intro σ e i u inside refers other
    exact if_neg fun member => other ((leads inside refers).mp member)
  have spelled : ∀ {σ : Setting} {u : Token}, σ.binder? u.lexeme = some t → t.lexeme = u.lexeme := by
    intro σ u binder
    obtain ⟨_, _, _, _, _, same⟩ := Setting.binder?_some binder
    exact same
  refine ⟨nofun, fun _ _ _ => rfl, ?_, ?_, ?_, ?_, ?_, ?_⟩
  · intro σ s inside outside u declared
    refine ⟨rfl, declare_other fun here => ?_⟩
    subst here
    obtain ⟨framed, initial, rfl⟩ := slot.apart single inside declared
    rcases outside with global | other
    · exact framed global
    · exact other _ _ rfl
  · intro u known v known' alike
    by_cases here : u = t
    · rw [here, declare_self] at alike
      rw [here, (declare_lexeme fresh known').mp alike.symm]
    · rw [declare_other here] at alike
      by_cases there : v = t
      · rw [there, declare_self] at alike
        exact absurd alike (named_fresh fresh known)
      · rwa [declare_other there] at alike
  · intro σ e i u inside refers v binder
    refine ⟨rfl, ?_⟩
    by_cases here : v = t
    · subst here
      rw [changed inside refers binder, declare_self]
    · have other : σ.binder? u.lexeme ≠ some t := fun found => here (Option.some.inj (binder.symm.trans found))
      obtain ⟨_, _, _, _, _, alike⟩ := Setting.binder?_some binder
      rw [same inside refers other, declare_other here, alike]
  · intro σ e i u inside refers missing
    rw [same inside refers (by rw [missing]; nofun)]
  · intro σ e i u inside refers v known alike
    by_cases binder : σ.binder? u.lexeme = some t
    · rw [changed inside refers binder] at alike
      rw [(declare_lexeme fresh known).mp alike]
      exact spelled binder
    · rw [same inside refers binder] at alike
      by_cases here : v = t
      · rw [here, declare_self] at alike
        exact absurd alike.symm (fresh _ (inside.mentions _ refers.mentioned))
      · rwa [declare_other here] at alike
  · intro σ e i u inside refers
    by_cases binder : σ.binder? u.lexeme = some t
    · rw [changed inside refers binder, ← spelled binder]
      exact iff_of_false plain (slot.free proper)
    · rw [same inside refers binder]

end Revision.respell

end ScopeScript
