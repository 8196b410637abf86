import ScopeScript.Proofs.Running.Sound

namespace ScopeScript

-- Somewhere an assignment goes to a name of the region.
def Region.Assigned (lies : Spot → Prop) (region : Region) (name : String) : Prop :=
  ∃ σ i t value d, lies ⟨σ, .expr (.assign i t value)⟩ ∧ t.lexeme = name ∧
    σ.depth name = some d ∧ σ.regions[d]? = some region

-- A bound slot of a scope that may change: no region says otherwise.
def Scene.Loose (lies : Spot → Prop) (a : Scene) (s : ScopeId) (n : String) : Prop :=
  ∀ region, a.labels[s]? = some (some region) → region.Assigned lies n

def Scene.Local (a : Scene) (s : ScopeId) : Prop := ∃ region, a.labels[s]? = some (some region)

-- Wherever a routine runs its parameters are bound.
def Scene.Furnished (a : Scene) : Prop :=
  ∀ s r, a.labels[s]? = some (some (.routine r)) → ∀ t ∈ r.parameters, a.machine.store.binds s t.lexeme = true

-- What a later scene keeps of an earlier one.
structure Scene.Leads (lies : Spot → Prop) (a b : Scene) : Prop extends Scene.Extends a b where
  own : ∀ s n v, ¬ a.Loose lies s n → a.machine.store.own? s n = some v → b.machine.store.own? s n = some v
  furnished : a.Furnished → b.Furnished

-- A step binds names of the current scope, and changes only what is loose.
structure Scene.Steps (lies : Spot → Prop) (names : List Token) (a b : Scene) : Prop
    extends Scene.Grows names a b where
  own : ∀ s < a.machine.store.scopes.size, ∀ n,
    b.machine.store.own? s n = a.machine.store.own? s n ∨
    a.machine.store.binds s n = false ∧ s = a.machine.scope ∧ names.any (·.lexeme == n) = true ∨
    a.machine.store.binds s n = true ∧ a.Loose lies s n
  furnished : a.Furnished → b.Furnished

variable {lies wider : Spot → Prop} {a b c : Scene} {names : List Token}

theorem Region.Assigned.widen {region : Region} (h : region.Assigned lies name) (more : ∀ S, lies S → wider S) :
    region.Assigned wider name := by
  obtain ⟨σ, i, t, value, d, inside, rest⟩ := h
  exact ⟨σ, i, t, value, d, more _ inside, rest⟩

theorem Scene.Loose.widen (h : a.Loose lies s n) (more : ∀ S, lies S → wider S) : a.Loose wider s n :=
  fun region label => (h region label).widen more

theorem Scene.Loose.earlier (h : b.Loose lies s n) (later : a.Extends b) : a.Loose lies s n :=
  fun region label => h region (later.label label)

theorem Scene.Loose.later (h : a.Loose lies s n) (later : a.Extends b) (known : s < a.labels.length) :
    b.Loose lies s n := by
  obtain ⟨more, same⟩ := later.labels
  intro region label
  rw [← same, List.getElem?_append_left known] at label
  exact h region label

theorem Scene.Local.earlier (h : b.Local s) (later : a.Extends b) (sound : a.Sound lies)
    (known : s < a.machine.store.scopes.size) : a.Local s := by
  obtain ⟨more, same⟩ := later.labels
  obtain ⟨region, label⟩ := h
  rw [← same, List.getElem?_append_left (sound.labels ▸ known)] at label
  exact ⟨region, label⟩

theorem Store.binds_own? {s s' : Store} (same : s'.own? scope name = s.own? scope name) :
    s'.binds scope name = s.binds scope name := congrArg Option.isSome same

namespace Scene.Leads

theorem refl (a : Scene) : a.Leads lies a := ⟨.refl a, fun _ _ _ _ own => own, id⟩

theorem trans (first : a.Leads lies b) (second : b.Leads lies c) : a.Leads lies c where
  toExtends := first.toExtends.trans second.toExtends
  own s n v fixed own :=
    second.own s n v (fun loose => fixed (loose.earlier first.toExtends)) (first.own s n v fixed own)
  furnished := second.furnished ∘ first.furnished

theorem move (a : Scene) (scope : ScopeId) : a.Leads lies (a.move scope) :=
  ⟨.move a scope, fun _ _ _ _ own => own, id⟩

-- More code may assign more.
theorem widen (h : a.Leads lies b) (more : ∀ S, lies S → wider S) : a.Leads wider b where
  toExtends := h.toExtends
  own s n v fixed own := h.own s n v (fun loose => fixed (loose.widen more)) own
  furnished := h.furnished

end Scene.Leads

namespace Scene.Steps

theorem leads (h : a.Steps lies names b) : a.Leads lies b where
  toExtends := h.toExtends
  own s n v fixed own := by
    have bound := (Store.binds_exact ..).mpr ⟨v, own⟩
    rcases h.own s (a.machine.store.known_of_own? s n v own) n with same | ⟨unbound, _⟩ | ⟨_, loose⟩
    · exact same.trans own
    · rw [bound] at unbound
      cases unbound
    · exact absurd loose fixed
  furnished := h.furnished

-- Nothing but the given names is newly bound in a scope there was.
theorem unbound (h : a.Steps lies [] b) (known : s < a.machine.store.scopes.size)
    (before : a.machine.store.binds s n = false) : b.machine.store.binds s n = false := by
  rcases h.own s known n with same | ⟨_, _, named⟩ | ⟨bound, _⟩
  · exact (Store.binds_own? same).trans before
  · cases named
  · rw [before] at bound
    cases bound

-- A step that leaves the bindings of the scopes alone.
theorem of_own (grows : a.Grows names b)
    (own : ∀ s < a.machine.store.scopes.size, ∀ n, b.machine.store.own? s n = a.machine.store.own? s n)
    (furnished : a.Furnished → b.Furnished) : a.Steps lies names b :=
  ⟨grows, fun s known n => .inl (own s known n), furnished⟩

theorem furnished_of_labels (later : a.Extends b) (labels : b.labels = a.labels) (h : a.Furnished) : b.Furnished :=
  fun s r label t member => later.binds _ _ (h s r (labels ▸ label) t member)

theorem refl (a : Scene) (names : List Token) : a.Steps lies names a :=
  .of_own (.refl a names) (fun _ _ _ => rfl) id

theorem trans (first : a.Steps lies names b) (second : b.Steps lies names c) : a.Steps lies names c where
  toGrows := first.toGrows.trans second.toGrows
  own s known n := by
    rcases first.own s known n with same | fresh | loose
    · rw [← same, ← Store.binds_own? same, ← first.scope]
      exact (second.own s (Nat.lt_of_lt_of_le known first.size) n).imp_right <|
        .imp_right fun loose => ⟨loose.1, loose.2.earlier first.toExtends⟩
    · exact .inr (.inl fresh)
    · exact .inr (.inr loose)
  furnished := second.furnished ∘ first.furnished

theorem widen {wider : List Token} (h : a.Steps lies names b) (more : ∀ t ∈ names, t ∈ wider) :
    a.Steps lies wider b where
  toGrows := h.toGrows.widen more
  own s known n := (h.own s known n).imp_right <| .imp_left fun ⟨unbound, here, named⟩ => by
    obtain ⟨t, member, same⟩ := List.any_eq_true.mp named
    exact ⟨unbound, here, List.any_eq_true.mpr ⟨t, more t member, same⟩⟩
  furnished := h.furnished

theorem inside {scope : ScopeId} (entered : a.Steps lies [] b) (new : a.machine.store.scopes.size ≤ scope)
    (inner : (b.move scope).Steps lies names c) : a.Steps lies [] (c.move b.machine.scope) where
  toGrows := entered.toGrows.inside new inner.toGrows
  own s known n := by
    rcases entered.own s known n with same | fresh | loose
    · rw [← same, ← Store.binds_own? same]
      rcases inner.own s (Nat.lt_of_lt_of_le known entered.size) n with still | ⟨_, here, _⟩ | ⟨bound, loose⟩
      · exact .inl still
      · exact absurd (here ▸ new) (Nat.not_le_of_lt known)
      · exact .inr (.inr ⟨bound, Loose.earlier loose (entered.toExtends.trans (.move b scope))⟩)
    · exact .inr (.inl fresh)
    · exact .inr (.inr loose)
  furnished := inner.furnished ∘ entered.furnished

-- A step that leaves the scopes and the labels alone.
theorem aside (grows : a.Grows names b) (scopes : b.machine.store.scopes = a.machine.store.scopes)
    (labels : b.labels = a.labels) : a.Steps lies names b :=
  .of_own grows (fun s _ n => by unfold Store.own?; rw [scopes]) (furnished_of_labels grows.toExtends labels)

section

variable (name : String) (v : Value) (scope : ScopeId)

theorem rebind (bound : a.machine.store.binds scope name = true) (loose : a.Loose lies scope name) :
    a.Steps lies [] (a.onStore (a.machine.store.put scope name v)) where
  toGrows := Scene.grows_rebind name v scope bound
  own s _ n := by
    show Store.own? (Store.put ..) s n = _ ∨ _
    rw [Store.own?_put]
    split
    · obtain ⟨rfl, rfl, _⟩ := ‹_›
      exact .inr (.inr ⟨bound, loose⟩)
    · exact .inl rfl
  furnished := furnished_of_labels (Scene.grows_rebind name v scope bound).toExtends rfl

-- A name of a local scope is bound only once.
theorem binds_once (t : Token)
    (once : a.Local a.machine.scope → a.machine.store.binds a.machine.scope t.lexeme = false) :
    a.machine.store.binds a.machine.scope t.lexeme = false ∧ a.machine.scope = a.machine.scope ∧
        [t].any (·.lexeme == t.lexeme) = true ∨
      a.machine.store.binds a.machine.scope t.lexeme = true ∧ a.Loose lies a.machine.scope t.lexeme := by
  cases bound : a.machine.store.binds a.machine.scope t.lexeme with
  | false => exact .inl ⟨rfl, rfl, by simp⟩
  | true =>
    refine .inr ⟨rfl, fun region label => ?_⟩
    rw [once ⟨region, label⟩] at bound
    cases bound

theorem bind (t : Token) (known : a.machine.scope < a.machine.store.scopes.size)
    (once : a.Local a.machine.scope → a.machine.store.binds a.machine.scope t.lexeme = false) :
    a.Steps lies [t] ((a.onStore (a.machine.store.put a.machine.scope t.lexeme v)).complete t.lexeme) where
  toGrows := Scene.grows_bind v t known
  own s _ n := by
    show Store.own? (Store.put ..) s n = _ ∨ _
    rw [Store.own?_put]
    split
    · obtain ⟨rfl, rfl, _⟩ := ‹_›
      exact .inr (binds_once t once)
    · exact .inl rfl
  furnished := furnished_of_labels (Scene.grows_bind v t known).toExtends rfl

end

theorem begin (t : Token) : a.Steps lies [t] (a.begin t.lexeme) :=
  .of_own (Scene.grows_begin t) (fun _ _ _ => rfl) id

-- A new scope with the parameters of what it was opened for.
theorem opening (sound : a.Sound lies) (closure : ScopeId) (bindings : Names Value) (region : Region)
    (parameters : ∀ r, region = .routine r → ∀ t ∈ r.parameters, bindings.binds t.lexeme = true) :
    a.Steps lies [] (a.opened closure bindings region) := by
  refine .of_own (Scene.grows_open ..) (fun s known n => ?_) fun furnished s r label t member => ?_
  · exact (Store.own?_openScope ..).trans (if_neg (Nat.ne_of_lt known))
  · change (a.labels ++ [some region])[s]? = _ at label
    rw [List.getElem?_append] at label
    split at label
    · exact (Scene.grows_open ..).binds _ _ (furnished s r label t member)
    · rename_i behind
      rw [List.getElem?_singleton] at label
      split at label
      · rename_i first
        have last : s = a.labels.length :=
          Nat.le_antisymm (Nat.sub_eq_zero_iff_le.mp first) (Nat.le_of_not_lt behind)
        rw [last, sound.labels]
        refine (a.binds_opened closure bindings region t.lexeme).trans (parameters r ?_ t member)
        exact Option.some.inj (Option.some.inj label)
      · cases label

theorem attach (sound : a.Sound lies) (around : ScopeId) (f : Function) (i : Instance) (home : Home) :
    a.Steps lies [] (a.given around f i home) := by
  have opened : a.Steps lies [] _ :=
    opening sound around [(receiverName, .instance i)] (.receiver home.methods) nofun
  exact ⟨Scene.grows_given around f i home, opened.own, opened.furnished⟩

end Scene.Steps

end ScopeScript
