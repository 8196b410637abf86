import ScopeScript.Proofs.Running.Watch

namespace ScopeScript

namespace Store

variable (s : Store) (scope asked : ScopeId) (name other : String) (value : Value)

theorem chain_put : (s.put scope name value).chain asked = s.chain asked := by
  unfold chain put
  dsimp only
  rw [Array.getElem?_modify]
  by_cases here : scope = asked
  · rw [if_pos here]
    cases s.scopes[asked]? with
    | none => rfl
    | some found => rfl
  · rw [if_neg here]

theorem own?_put : (s.put scope name value).own? asked other =
    if asked = scope ∧ other = name ∧ scope < s.scopes.size then some value
    else s.own? asked other := by
  unfold own? put
  dsimp only
  rw [Array.getElem?_modify]
  by_cases here : scope = asked
  · subst here
    rw [if_pos rfl]
    by_cases known : scope < s.scopes.size
    · rw [Array.getElem?_eq_getElem known]
      show Names.get? (Names.put name value s.scopes[scope].bindings) other = _
      rw [Names.get?_put]
      simp [known]
    · rw [Array.getElem?_eq_none (Nat.le_of_not_lt known)]
      simp [known]
  · rw [if_neg here, if_neg fun h => here h.1.symm]

theorem size_put : (s.put scope name value).scopes.size = s.scopes.size := by
  unfold put
  simp

theorem chain_openScope (outer : List ScopeId) (bindings : Names Value) :
    (s.openScope outer bindings).2.chain asked =
      if asked = s.scopes.size then asked :: outer else s.chain asked := by
  unfold chain openScope
  dsimp only
  rw [Array.getElem?_push]
  by_cases new : asked = s.scopes.size
  · rw [if_pos new, if_pos new]
  · rw [if_neg new, if_neg new]

theorem own?_openScope (outer : List ScopeId) (bindings : Names Value) :
    (s.openScope outer bindings).2.own? asked name =
      if asked = s.scopes.size then bindings.get? name else s.own? asked name := by
  unfold own? openScope
  dsimp only
  rw [Array.getElem?_push]
  by_cases new : asked = s.scopes.size
  · rw [if_pos new, if_pos new]
    rfl
  · rw [if_neg new, if_neg new]

theorem binds_exact : s.binds scope name = true ↔ ∃ value, s.own? scope name = some value :=
  Option.isSome_iff_exists

theorem known_of_own? (bound : s.own? scope name = some value) : scope < s.scopes.size := by
  unfold own? at bound
  obtain ⟨found, there, _⟩ := Option.bind_eq_some_iff.mp bound
  exact (Array.getElem?_eq_some_iff.mp there).1

theorem known_of_binds (bound : s.binds scope name = true) : scope < s.scopes.size := by
  obtain ⟨value, bound⟩ := (s.binds_exact scope name).mp bound
  exact s.known_of_own? scope name value bound

theorem known_of_chain (inhabited : s.chain scope ≠ []) : scope < s.scopes.size := by
  unfold chain at inhabited
  split at inhabited
  · exact (Array.getElem?_eq_some_iff.mp ‹_›).1
  · exact absurd rfl inhabited

theorem chain_cons {s : Store} {scope : ScopeId} (known : scope < s.scopes.size) :
    ∃ outer, s.chain scope = scope :: outer := by
  unfold chain
  rw [Array.getElem?_eq_getElem known]
  exact ⟨_, rfl⟩

theorem chain_head (first : ScopeId) (rest : List ScopeId) (given : s.chain scope = first :: rest) :
    first = scope := by
  unfold chain at given
  split at given
  · exact (List.cons.inj given).1.symm
  · cases given

theorem binds_put : (s.put scope name value).binds asked other = true ↔
    asked = scope ∧ other = name ∧ scope < s.scopes.size ∨ s.binds asked other = true := by
  unfold binds
  rw [own?_put]
  split
  · simp [*]
  · simp [*]

-- A field has the value that was set or the one it had.
theorem field?_setField {i j : Instance} {found : Value} (there : (s.setField i name value).field? j other = some found) :
    found = value ∨ s.field? j other = some found := by
  unfold field? setField at there
  dsimp only at there
  rw [Array.getElem?_modify] at there
  obtain ⟨names, fields, bound⟩ := Option.bind_eq_some_iff.mp there
  split at fields
  · obtain ⟨old, before, rfl⟩ := Option.map_eq_some_iff.mp fields
    rw [Names.get?_put] at bound
    split at bound
    · exact .inl (Option.some.inj bound).symm
    · exact .inr (Option.bind_eq_some_iff.mpr ⟨old, ‹i.identity = j.identity› ▸ before, bound⟩)
  · exact .inr (Option.bind_eq_some_iff.mpr ⟨names, fields, bound⟩)

-- A new instance has no fields.
theorem field?_newInstance {madeBy : Class} {i : Instance} {found : Value}
    (there : (s.newInstance madeBy).2.field? i name = some found) : s.field? i name = some found := by
  unfold field? newInstance at there
  dsimp only at there
  rw [Array.getElem?_push] at there
  split at there
  · cases there
  · exact there

end Store

-- A name in a scope is touched once it is bound there or its initializer has begun.
def Scene.Touched (a : Scene) (scope : ScopeId) (name : String) : Prop :=
  a.machine.store.binds scope name = true ∨ (scope, name) ∈ a.unfinished

structure Scene.Extends (a b : Scene) : Prop where
  globals : b.machine.globals = a.machine.globals
  size : a.machine.store.scopes.size ≤ b.machine.store.scopes.size
  chain : ∀ s < a.machine.store.scopes.size, b.machine.store.chain s = a.machine.store.chain s
  binds : ∀ s n, a.machine.store.binds s n = true → b.machine.store.binds s n = true
  touched : ∀ s n, a.Touched s n → b.Touched s n
  labels : a.labels <+: b.labels
  homes : a.homes <+: b.homes
  attached : a.attached <+: b.attached
  fields : a.machine.store.fields.size ≤ b.machine.store.fields.size

-- What a step leaves as it was. Among the scopes there were, only the current one gets names,
-- and only the given ones.
structure Scene.Grows (names : List Token) (a b : Scene) : Prop extends Scene.Extends a b where
  scope : b.machine.scope = a.machine.scope
  depths : b.machine.depths = a.machine.depths
  fresh : ∀ s < a.machine.store.scopes.size, ∀ n, b.Touched s n →
    a.Touched s n ∨ s = a.machine.scope ∧ names.any (·.lexeme == n) = true

variable {a b c : Scene} {names : List Token}

namespace Scene.Extends

theorem refl (a : Scene) : a.Extends a :=
  ⟨rfl, Nat.le_refl _, fun _ _ => rfl, fun _ _ h => h, fun _ _ h => h, List.prefix_refl _,
    List.prefix_refl _, List.prefix_refl _, Nat.le_refl _⟩

theorem trans (first : a.Extends b) (second : b.Extends c) : a.Extends c where
  globals := second.globals.trans first.globals
  size := Nat.le_trans first.size second.size
  chain s known := (second.chain s (Nat.lt_of_lt_of_le known first.size)).trans (first.chain s known)
  binds s n bound := second.binds s n (first.binds s n bound)
  touched s n h := second.touched s n (first.touched s n h)
  labels := first.labels.trans second.labels
  homes := first.homes.trans second.homes
  attached := first.attached.trans second.attached
  fields := Nat.le_trans first.fields second.fields

theorem move (a : Scene) (scope : ScopeId) : a.Extends (a.move scope) := { Extends.refl a with }

theorem home {identity : Identity} {home : Home} (h : a.Extends b)
    (there : a.homes[identity]? = some home) : b.homes[identity]? = some home := by
  obtain ⟨more, same⟩ := h.homes
  rw [← same, List.getElem?_append_left (List.getElem?_eq_some_iff.mp there).1, there]

theorem label {s : ScopeId} {region : Option Region} (h : a.Extends b)
    (there : a.labels[s]? = some region) : b.labels[s]? = some region := by
  obtain ⟨more, same⟩ := h.labels
  rw [← same, List.getElem?_append_left (List.getElem?_eq_some_iff.mp there).1, there]

end Scene.Extends

namespace Scene.Grows

theorem refl (a : Scene) (names : List Token) : a.Grows names a :=
  ⟨.refl a, rfl, rfl, fun _ _ _ h => .inl h⟩

theorem trans (first : a.Grows names b) (second : b.Grows names c) : a.Grows names c where
  toExtends := first.toExtends.trans second.toExtends
  scope := second.scope.trans first.scope
  depths := second.depths.trans first.depths
  fresh s known n h := by
    rcases second.fresh s (Nat.lt_of_lt_of_le known first.size) n h with before | ⟨here, named⟩
    · exact first.fresh s known n before
    · exact .inr ⟨here.trans first.scope, named⟩

theorem widen {wider : List Token} (h : a.Grows names b) (more : ∀ t ∈ names, t ∈ wider) :
    a.Grows wider b :=
  { h with
    fresh := fun s known n touched => by
      rcases h.fresh s known n touched with before | ⟨here, named⟩
      · exact .inl before
      · obtain ⟨t, member, same⟩ := List.any_eq_true.mp named
        exact .inr ⟨here, List.any_eq_true.mpr ⟨t, more t member, same⟩⟩ }

-- A run in a scope that was not there before.
theorem inside {scope : ScopeId} (entered : a.Grows [] b) (new : a.machine.store.scopes.size ≤ scope)
    (inner : (b.move scope).Grows names c) : a.Grows [] (c.move b.machine.scope) where
  toExtends := entered.toExtends.trans <| (Extends.move b scope).trans <|
    inner.toExtends.trans (Extends.move c _)
  scope := entered.scope
  depths := inner.depths.trans entered.depths
  fresh s known n h := by
    rcases inner.fresh s (Nat.lt_of_lt_of_le known entered.size) n h with before | ⟨here, _⟩
    · exact entered.fresh s known n before
    · exact absurd (here ▸ new) (Nat.not_le_of_lt known)

-- A change that leaves scopes and marks alone.
theorem aside (scopes : b.machine.store.scopes = a.machine.store.scopes)
    (scope : b.machine.scope = a.machine.scope) (globals : b.machine.globals = a.machine.globals)
    (depths : b.machine.depths = a.machine.depths) (unfinished : b.unfinished = a.unfinished)
    (labels : b.labels = a.labels) (homes : a.homes <+: b.homes) (attached : b.attached = a.attached)
    (fields : a.machine.store.fields.size ≤ b.machine.store.fields.size) : a.Grows names b := by
  have chain : ∀ s, b.machine.store.chain s = a.machine.store.chain s := fun s => by
    unfold Store.chain; rw [scopes]
  have binds : ∀ s n, b.machine.store.binds s n = a.machine.store.binds s n := fun s n => by
    unfold Store.binds Store.own?; rw [scopes]
  have touched : ∀ s n, b.Touched s n ↔ a.Touched s n := fun s n => by
    unfold Touched; rw [binds, unfinished]
  refine ⟨⟨globals, ?_, fun s _ => chain s, fun s n h => (binds s n).trans h,
    fun s n h => (touched s n).mpr h, labels ▸ List.prefix_refl _, homes, attached ▸ List.prefix_refl _,
    fields⟩, scope, depths, fun s _ n h => .inl ((touched s n).mp h)⟩
  exact Nat.le_of_eq (congrArg Array.size scopes.symm)

end Scene.Grows

end ScopeScript
