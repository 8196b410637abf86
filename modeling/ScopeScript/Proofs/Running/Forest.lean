import ScopeScript.Proofs.Running.Grow

namespace ScopeScript

namespace Store

-- The scope right around a scope.
def enclosing? (s : Store) (scope : ScopeId) : Option ScopeId :=
  s.scopes[scope]?.bind fun found => found.outer.head?

-- The scope so many links out.
inductive Out (s : Store) : ScopeId → Nat → ScopeId → Prop where
  | here (known : scope < s.scopes.size) : Out s scope 0 scope
  | link (around : s.enclosing? scope = some outer) (further : Out s outer depth target) : Out s scope (depth + 1) target

-- The first scope, link by link, that binds a name itself.
inductive Innermost (s : Store) (name : String) : ScopeId → ScopeId → Prop where
  | here (bound : s.binds scope name = true) : Innermost s name scope scope
  | link (free : s.binds scope name = false) (around : s.enclosing? scope = some outer)
      (further : Innermost s name outer target) : Innermost s name scope target

-- The stores that scopes come to by being opened and written to, in any order.
inductive Forest : Store → Prop where
  | bare (none : s.scopes = #[]) : Forest s
  | root (before : Forest s) : Forest (s.openScope [] bindings).2
  | within (before : Forest s) (known : scope < s.scopes.size) : Forest (s.openWithin scope bindings).2
  | define (before : Forest s) : Forest (s.put scope name value)
  | assign (before : Forest s) (done : s.change? scope name value = some t) : Forest t
  | assignAt (before : Forest s) (done : s.changeAt? scope depth name value = some t) : Forest t

-- One store differs from another in one slot.
structure Sets (s t : Store) (scope : ScopeId) (name : String) (value : Value) : Prop where
  size : t.scopes.size = s.scopes.size
  links : ∀ asked, t.enclosing? asked = s.enclosing? asked
  own : ∀ asked other, t.own? asked other = if asked = scope ∧ other = name then some value else s.own? asked other
  fields : t.fields = s.fields
  identity : t.nextIdentity = s.nextIdentity

-- The list of scopes that a scope keeps is what the links lead through, and a link leads to an older scope.
structure Linked (s : Store) : Prop where
  chain : ∀ scope < s.scopes.size, s.chain scope = scope :: (s.enclosing? scope).elim [] s.chain
  older : ∀ scope outer, s.enclosing? scope = some outer → outer < scope

theorem enclosing?_eq (s : Store) (scope : ScopeId) : s.enclosing? scope = (s.chain scope)[1]? := by
  unfold enclosing? chain
  cases s.scopes[scope]? with
  | none => rfl
  | some found => exact List.head?_eq_getElem?

theorem chain_unknown {s : Store} {scope : ScopeId} (unknown : ¬ scope < s.scopes.size) : s.chain scope = [] :=
  Decidable.byContradiction fun inhabited => unknown (s.known_of_chain scope inhabited)

theorem known_of_link {s : Store} {scope outer : ScopeId} (link : s.enclosing? scope = some outer) : scope < s.scopes.size := by
  refine s.known_of_chain scope fun none => ?_
  rw [enclosing?_eq, none] at link
  cases link

theorem enclosing?_put (s : Store) (scope asked : ScopeId) (name : String) (value : Value) :
    (s.put scope name value).enclosing? asked = s.enclosing? asked := by
  rw [enclosing?_eq, enclosing?_eq, chain_put]

theorem put_sets {s : Store} {scope : ScopeId} (known : scope < s.scopes.size) (name : String) (value : Value) :
    s.Sets (s.put scope name value) scope name value where
  size := s.size_put scope name value
  links asked := s.enclosing?_put scope asked name value
  own asked other := by simp [own?_put, known]
  fields := rfl
  identity := rfl

theorem binder?_bound {s : Store} {scope : ScopeId} {name : String} (bound : s.binds scope name = true) :
    s.binder? scope name = some scope := by
  obtain ⟨outer, same⟩ := chain_cons (s.known_of_binds scope name bound)
  unfold binder?
  rw [same]
  simp [bound]

namespace Linked

variable {s : Store}

theorem put (linked : s.Linked) (scope : ScopeId) (name : String) (value : Value) : (s.put scope name value).Linked where
  chain asked known := by
    rw [size_put] at known
    have same : (s.put scope name value).chain = s.chain := funext fun other => s.chain_put scope other name value
    rw [same, enclosing?_put, linked.chain asked known]
  older asked outer around := by
    rw [enclosing?_put] at around
    exact linked.older asked outer around

-- A new scope stands alone or right inside one that there was.
theorem openScope (linked : s.Linked) (bindings : Names Value) {outer : List ScopeId} (around : Option ScopeId)
    (known : ∀ scope ∈ around, scope < s.scopes.size) (same : outer = around.elim [] s.chain) :
    (s.openScope outer bindings).2.Linked := by
  have kept : ∀ scope < s.scopes.size, (s.openScope outer bindings).2.chain scope = s.chain scope := by
    intro scope there
    rw [chain_openScope, if_neg (Nat.ne_of_lt there)]
  have new : (s.openScope outer bindings).2.chain s.scopes.size = s.scopes.size :: outer := by
    rw [chain_openScope, if_pos rfl]
  have inside : (s.openScope outer bindings).2.enclosing? s.scopes.size = around := by
    rw [enclosing?_eq, new, same]
    cases around with
    | none => rfl
    | some first =>
      obtain ⟨rest, starts⟩ := chain_cons (known first rfl)
      simp [starts]
  have old : ∀ scope < s.scopes.size, (s.openScope outer bindings).2.enclosing? scope = s.enclosing? scope := by
    intro scope there
    rw [enclosing?_eq, kept scope there, enclosing?_eq]
  have size : (s.openScope outer bindings).2.scopes.size = s.scopes.size + 1 := Array.size_push _
  have lead : ∀ o : Option ScopeId, (∀ scope ∈ o, scope < s.scopes.size) →
      o.elim [] (s.openScope outer bindings).2.chain = o.elim [] s.chain := by
    rintro (_ | first) there
    · rfl
    · exact kept first (there first rfl)
  constructor
  · intro scope there
    rcases Nat.lt_succ_iff_lt_or_eq.mp (size ▸ there) with before | rfl
    · have back : ∀ outer ∈ s.enclosing? scope, outer < s.scopes.size :=
        fun outer link => Nat.lt_trans (linked.older scope outer link) before
      rw [kept scope before, old scope before, lead _ back, linked.chain scope before]
    · rw [new, inside, lead _ known, same]
  · intro scope first link
    rcases Nat.lt_succ_iff_lt_or_eq.mp (size ▸ known_of_link link) with before | rfl
    · exact linked.older scope first ((old scope before).symm.trans link)
    · exact known first (inside.symm.trans link)

end Linked

theorem Forest.linked {s : Store} (forest : s.Forest) : s.Linked := by
  induction forest with
  | @bare s none =>
    refine ⟨fun scope known => ?_, fun scope outer link => ?_⟩
    · simp [none] at known
    · simp [enclosing?, none] at link
  | root before ih => exact ih.openScope _ none nofun rfl
  | @within s scope bindings before known ih => exact ih.openScope _ (some scope) (by simpa using known) rfl
  | define before ih => exact ih.put _ _ _
  | assign before done ih =>
    obtain ⟨target, -, rfl⟩ := Option.map_eq_some_iff.mp done
    exact ih.put _ _ _
  | assignAt before done ih =>
    obtain ⟨target, -, rfl⟩ := Option.map_eq_some_iff.mp done
    exact ih.put _ _ _

namespace Linked

variable {s : Store}

theorem link (linked : s.Linked) (around : s.enclosing? scope = some outer) : s.chain scope = scope :: s.chain outer := by
  rw [linked.chain scope (known_of_link around), around]
  rfl

theorem last (linked : s.Linked) (known : scope < s.scopes.size) (alone : s.enclosing? scope = none) :
    s.chain scope = [scope] := by
  rw [linked.chain scope known, alone]
  rfl

theorem out_iff (linked : s.Linked) : s.Out scope depth target ↔ (s.chain scope)[depth]? = some target := by
  constructor
  · intro out
    induction out with
    | here known =>
      obtain ⟨outer, same⟩ := chain_cons known
      rw [same]
      rfl
    | link around further ih =>
      rw [linked.link around]
      exact ih
  · intro there
    induction depth generalizing scope with
    | zero =>
      have known : scope < s.scopes.size := s.known_of_chain scope fun none => by rw [none] at there; cases there
      obtain ⟨outer, same⟩ := chain_cons known
      rw [same] at there
      cases there
      exact .here known
    | succ depth ih =>
      have known : scope < s.scopes.size := s.known_of_chain scope fun none => by rw [none] at there; cases there
      cases around : s.enclosing? scope with
      | none =>
        rw [linked.last known around] at there
        cases there
      | some outer =>
        rw [linked.link around] at there
        exact .link around (ih there)

theorem binder?_link (linked : s.Linked) (around : s.enclosing? scope = some outer) (name : String) :
    s.binder? scope name = if s.binds scope name then some scope else s.binder? outer name := by
  unfold binder?
  rw [linked.link around, List.find?_cons]
  cases s.binds scope name <;> rfl

theorem binder?_last (linked : s.Linked) (alone : s.enclosing? scope = none) (free : s.binds scope name = false) :
    s.binder? scope name = none := by
  unfold binder?
  by_cases known : scope < s.scopes.size
  · rw [linked.last known alone]
    simp [free]
  · rw [chain_unknown known]
    rfl

-- The look-up on the list finds the scope that the links lead to.
theorem innermost_iff (linked : s.Linked) (name : String) :
    s.Innermost name scope target ↔ s.binder? scope name = some target := by
  constructor
  · intro innermost
    induction innermost with
    | here bound => exact binder?_bound bound
    | link free around further ih =>
      rw [linked.binder?_link around, free]
      exact ih
  · intro found
    induction scope using Nat.strongRecOn with
    | _ scope ih =>
      cases bound : s.binds scope name with
      | true =>
        rw [binder?_bound bound] at found
        cases found
        exact .here bound
      | false =>
        cases around : s.enclosing? scope with
        | none =>
          rw [linked.binder?_last around bound] at found
          cases found
        | some outer =>
          rw [linked.binder?_link around, bound] at found
          exact .link bound around (ih outer (linked.older scope outer around) found)

-- A name is found on a chain exactly where one of its scopes binds it.
theorem binder?_isSome (linked : s.Linked) (scope : ScopeId) (name : String) :
    (s.binder? scope name).isSome ↔ ∃ depth target, s.Out scope depth target ∧ s.binds target name = true := by
  unfold binder?
  rw [List.find?_isSome]
  constructor
  · rintro ⟨target, member, bound⟩
    obtain ⟨depth, there⟩ := List.mem_iff_getElem?.mp member
    exact ⟨depth, target, linked.out_iff.mpr there, bound⟩
  · rintro ⟨depth, target, out, bound⟩
    exact ⟨target, List.mem_of_getElem? (linked.out_iff.mp out), bound⟩

theorem binderAt?_iff (linked : s.Linked) (depth : Nat) (name : String) :
    s.binderAt? scope depth name = some target ↔ s.Out scope depth target ∧ s.binds target name = true := by
  unfold binderAt?
  rw [Option.filter_eq_some_iff, linked.out_iff]

end Linked

-- A change of a binding binds nothing new.
theorem binder?_put {s : Store} {scope : ScopeId} {name : String} (bound : s.binds scope name = true) (value : Value)
    (asked : ScopeId) (other : String) : (s.put scope name value).binder? asked other = s.binder? asked other := by
  have same : ∀ id, (s.put scope name value).binds id other = s.binds id other := by
    intro id
    rw [Bool.eq_iff_iff, binds_put]
    refine ⟨?_, .inr⟩
    rintro (⟨rfl, rfl, -⟩ | before)
    · exact bound
    · exact before
  unfold binder?
  rw [chain_put]
  exact congrArg (fun test => (s.chain asked).find? test) (funext same)

theorem find?_put {s : Store} {scope : ScopeId} {name : String} (bound : s.binds scope name = true) (value : Value)
    (asked : ScopeId) (other : String) : (s.put scope name value).find? asked other =
      if other = name ∧ s.binder? asked name = some scope then some value else s.find? asked other := by
  have known := s.known_of_binds scope name bound
  unfold find?
  rw [binder?_put bound]
  by_cases same : other = name
  · subst same
    cases found : s.binder? asked other with
    | none => simp
    | some target => simp [own?_put, known]
  · simp [own?_put, same]

end Store

-- What a read comes to: a value, or a fault.
def Machine.told (m : Machine) (name : Token) : Option Value → EStateM.Result Halt Machine Value
  | some value => .ok value m
  | none => .error (.fault ⟨.undefinedVariable, name⟩) m

-- What a write comes to: a new store, or a fault and the machine as it was.
def Machine.rewritten (m : Machine) (name : Token) : Option Store → EStateM.Result Halt Machine Unit
  | some t => .ok () { m with store := t }
  | none => .error (.fault ⟨.undefinedVariable, name⟩) m

theorem Running.rebind_put (m : Machine) (target : Option ScopeId) (name : Token) (value : Value) :
    Running.rebind target name value m = m.rewritten name (target.map fun scope => m.store.put scope name.lexeme value) := by
  cases target <;> rfl

theorem Machine.target?_local {m : Machine} {id : RefId} (deep : m.depths[id]? = some depth) (name : String) :
    m.target? id name = m.store.binderAt? m.scope depth name := by
  unfold target?
  rw [deep]

namespace Store

-- What the operations on a forest do from one of its scopes.
structure Operates (s : Store) (scope : ScopeId) (name : String) (value : Value) (depth : Nat) : Prop where
  finds : ∀ found, s.find? scope name = some found ↔
    ∃ target, s.Innermost name scope target ∧ s.own? target name = some found
  changes : (s.change? scope name value).isSome ↔ ∃ links target, s.Out scope links target ∧ s.binds target name = true
  changed : ∀ t, s.change? scope name value = some t → ∃ target, s.Innermost name scope target ∧
    s.Sets t target name value ∧ ∀ asked,
      (s.Innermost name asked target → t.find? asked name = some value) ∧
      (¬ s.Innermost name asked target → t.find? asked name = s.find? asked name) ∧
      ∀ other, other ≠ name → t.find? asked other = s.find? asked other
  changesAt : (s.changeAt? scope depth name value).isSome ↔ ∃ target, s.Out scope depth target ∧ s.binds target name = true
  changedAt : ∀ t, s.changeAt? scope depth name value = some t →
    ∃ target, s.Out scope depth target ∧ s.Sets t target name value
  defined : s.Sets (s.put scope name value) scope name value
  findsAt : ∀ target, s.Out scope depth target → s.binds target name = true →
    s.findAt? scope depth name = s.find? target name
  missesAt : (¬ ∃ target, s.Out scope depth target ∧ s.binds target name = true) → s.findAt? scope depth name = none
  -- A machine in the scope reads and writes what the operations give, and is left as it was where they give nothing.
  reads : ∀ (m : Machine) (id : RefId) (token : Token), m.store = s → m.scope = scope → token.lexeme = name →
    m.depths[id]? = some depth → Running.read id token m = m.told token (s.findAt? scope depth name)
  reassigns : ∀ (m : Machine) (token : Token), m.store = s → m.scope = scope → token.lexeme = name →
    Running.reassign token value m = m.rewritten token (s.change? scope name value)
  writes : ∀ (m : Machine) (id : RefId) (token : Token), m.store = s → m.scope = scope → token.lexeme = name →
    m.depths[id]? = some depth → Running.write id token value m = m.rewritten token (s.changeAt? scope depth name value)

theorem Forest.operates {s : Store} (forest : s.Forest) {scope : ScopeId} (known : scope < s.scopes.size) (name : String)
    (value : Value) (depth : Nat) : s.Operates scope name value depth := by
  have linked := forest.linked
  constructor
  case finds =>
    intro found
    simp only [linked.innermost_iff]
    exact Option.bind_eq_some_iff
  case changes =>
    rw [← linked.binder?_isSome, change?, Option.isSome_map]
  case changed =>
    intro t done
    obtain ⟨target, found, rfl⟩ := Option.map_eq_some_iff.mp done
    have bound : s.binds target name = true := by simpa using List.find?_some found
    refine ⟨target, (linked.innermost_iff name).mpr found, put_sets (s.known_of_binds target name bound) name value, ?_⟩
    intro asked
    simp only [linked.innermost_iff, find?_put bound]
    refine ⟨fun here => by simp [here], fun other => by simp [other], fun other apart => by simp [apart]⟩
  case changesAt =>
    rw [changeAt?, Option.isSome_map, Option.isSome_iff_exists]
    simp only [linked.binderAt?_iff]
  case changedAt =>
    intro t done
    obtain ⟨target, found, rfl⟩ := Option.map_eq_some_iff.mp done
    obtain ⟨out, bound⟩ := (linked.binderAt?_iff depth name).mp found
    exact ⟨target, out, put_sets (s.known_of_binds target name bound) name value⟩
  case defined => exact put_sets known name value
  case findsAt =>
    intro target out bound
    rw [findAt?, (linked.binderAt?_iff depth name).mpr ⟨out, bound⟩, find?, binder?_bound bound]
  case missesAt =>
    intro misses
    have none : s.binderAt? scope depth name = none := by
      refine Option.eq_none_iff_forall_ne_some.mpr fun target found => misses ⟨target, ?_⟩
      exact (linked.binderAt?_iff depth name).mp found
    rw [findAt?, none]
    rfl
  case reads =>
    rintro m id token rfl rfl rfl deep
    unfold Running.read
    rw [Machine.target?_local deep]
    show _ = m.told token ((m.store.binderAt? m.scope depth token.lexeme).bind _)
    cases (m.store.binderAt? m.scope depth token.lexeme).bind fun target => m.store.own? target token.lexeme <;> rfl
  case reassigns =>
    rintro m token rfl rfl rfl
    exact Running.rebind_put m _ token value
  case writes =>
    rintro m id token rfl rfl rfl deep
    show Running.rebind _ token value m = _
    rw [Machine.target?_local deep, Running.rebind_put]
    rfl

section

-- Two scopes inside the first, and one more inside the earlier of them, where the name of the first is bound again.
def shadedStore : Store :=
  let root := (empty.openScope [] [("x", .bool true)]).2
  let inner := (root.openWithin 0 []).2
  let shaded := (inner.openWithin 1 [("x", .nil)]).2
  (shaded.openWithin 0 []).2

theorem shadedStore_forest : shadedStore.Forest :=
  .within (.within (.within (.root (.bare rfl)) (by decide)) (by decide)) (by decide)

theorem Forest.operates_shaded : shadedStore.Forest ∧ 1 < shadedStore.scopes.size ∧
    ∃ t, shadedStore.change? 1 "x" (.bool false) = some t ∧ t.find? 1 "x" = some (.bool false) ∧
      t.find? 3 "x" = some (.bool false) ∧ t.find? 2 "x" = some .nil := by
  have known : 1 < shadedStore.scopes.size := by decide
  have operates := Forest.operates shadedStore_forest known "x" (.bool false) 1
  have out : shadedStore.Out 1 1 0 := .link rfl (.here (by decide))
  obtain ⟨t, done⟩ := Option.isSome_iff_exists.mp (operates.changes.mpr ⟨1, 0, out, rfl⟩)
  obtain ⟨target, innermost, -, shows⟩ := operates.changed t done
  have first : target = 0 := by
    have found := (shadedStore_forest.linked.innermost_iff "x").mp innermost
    cases found
    rfl
  subst first
  have beside : shadedStore.Innermost "x" 3 0 := .link rfl rfl (.here rfl)
  have shaded : ¬ shadedStore.Innermost "x" 2 0 := by
    intro reaches
    cases reaches with
    | link free around further => cases free
  exact ⟨shadedStore_forest, known, t, done, (shows 1).1 innermost, (shows 3).1 beside, (shows 2).2.1 shaded⟩

end

end Store

end ScopeScript
