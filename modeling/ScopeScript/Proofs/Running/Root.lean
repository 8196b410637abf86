import ScopeScript.Proofs.Running.Bear
import ScopeScript.Proofs.Running.Forest
import ScopeScript.Proofs.Running.Return

namespace ScopeScript

def Class.closures (c : Class) : List ScopeId := c.methods.map fun row => row.2.closure

def Callee.closures : Callee → List ScopeId
  | .clock => []
  | .function f => [f.closure]
  | .lambda l => [l.closure]
  | .classes c => c.closures

-- The scopes in which a value runs what it is made of.
def Value.closures : Value → List ScopeId
  | .callee c => c.closures
  | .instance i => i.madeBy.closures
  | _ => []

-- Scopes are numbered as they are opened, so these are scopes of a store that has so many.
def Value.Within (size : Nat) (v : Value) : Prop := ∀ closure ∈ v.closures, closure < size

def Ending.Within (size : Nat) : Ending → Prop
  | .giveBack v => v.Within size
  | _ => True

-- Every scope lies in the globals, and every closure is a scope.
structure Store.Rooted (s : Store) (globals : ScopeId) : Prop where
  linked : s.Linked
  root : globals < s.scopes.size
  alone : s.enclosing? globals = none
  inside : ∀ scope < s.scopes.size, scope = globals ∨ ∃ outer, s.enclosing? scope = some outer
  bindings : ∀ {scope name v}, s.own? scope name = some v → v.Within s.scopes.size
  fields : ∀ {i name v}, s.field? i name = some v → v.Within s.scopes.size

-- A look-up that follows the links, as many as its turns allow.
def Store.seek (s : Store) (name : String) : Nat → ScopeId → Option (Option ScopeId)
  | 0, _ => none
  | turns + 1, scope =>
    if s.binds scope name then some (some scope)
    else match s.enclosing? scope with
      | some outer => s.seek name turns outer
      | none => some none

-- The scope that so many links lead to.
def Store.climb (s : Store) : Nat → ScopeId → Option ScopeId
  | 0, scope => some scope
  | links + 1, scope => (s.enclosing? scope).bind (s.climb links)

-- However links are followed, they come to an end in the globals.
structure Store.Ends (s : Store) (globals : ScopeId) : Prop where
  founded : WellFounded fun outer scope => s.enclosing? scope = some outer
  outermost : ∀ scope < s.scopes.size, ∃ depth ≤ scope, s.Out scope depth globals
  last : s.enclosing? globals = none
  seeks : ∀ scope name, s.seek name (scope + 1) scope = some (s.binder? scope name)
  climbs : ∀ scope < s.scopes.size, ∀ depth name,
    s.binderAt? scope depth name = (s.climb depth scope).filter fun target => s.binds target name

structure Machine.Rooted (m : Machine) : Prop where
  store : m.store.Rooted m.globals
  scope : m.scope < m.store.scopes.size

-- Every scope there was is still there with its link, and binds every name that it bound.
structure Store.Outlives (s after : Store) : Prop where
  size : s.scopes.size ≤ after.scopes.size
  links : ∀ scope < s.scopes.size, after.enclosing? scope = s.enclosing? scope
  binds : ∀ scope name, s.binds scope name = true → after.binds scope name = true

structure Machine.Retains (m after : Machine) : Prop where
  scope : after.scope = m.scope
  globals : after.globals = m.globals
  store : m.store.Outlives after.store

namespace Value.Within

variable {size : Nat}

theorem mono {v : Value} {n : Nat} (h : v.Within size) (more : size ≤ n) : v.Within n :=
  fun closure member => Nat.lt_of_lt_of_le (h closure member) more

theorem plain {v : Value} (none : v.closures = []) : v.Within size := by
  intro closure member
  rw [none] at member
  cases member

theorem simple {v : Value} (h : v.Simple) : v.Within size := by
  cases v with
  | callee | «instance» => exact h.elim
  | _ => exact plain rfl

theorem ofLiteral (value : Literal) : (Value.ofLiteral value).Within size := by
  cases value <;> exact plain rfl

theorem classes_iff {c : Class} : (∀ closure ∈ c.closures, closure < size) ↔ ∀ row ∈ c.methods, row.2.closure < size :=
  List.forall_mem_map

theorem method {c : Class} {m : Method} (h : ∀ closure ∈ c.closures, closure < size) (found : c.methods.get? name = some m) :
    m.closure < size :=
  Names.get?_all (p := fun m : Method => m.closure < size) (classes_iff.mp h) found

end Value.Within

theorem Ending.Within.result {flow : Ending} {size : Nat} (h : flow.Within size) : flow.result.Within size := by
  cases flow with
  | giveBack v => exact h
  | _ => exact .plain rfl

theorem parameterBindings_within (ps : List Token) {values : List Value} (all : ∀ v ∈ values, v.Within size) :
    ∀ row ∈ parameterBindings ps values, row.2.Within size :=
  Names.putAll_all (fun pair : Token × Value => pair.1.lexeme) Prod.snd (fun _ absent => absurd absent List.not_mem_nil)
    fun pair member => all pair.2 (List.of_mem_zip member).2

namespace Store

namespace Outlives

theorem refl (s : Store) : s.Outlives s := ⟨Nat.le_refl _, fun _ _ => rfl, fun _ _ => id⟩

theorem trans {s middle after : Store} (first : s.Outlives middle) (second : middle.Outlives after) : s.Outlives after where
  size := Nat.le_trans first.size second.size
  links scope known :=
    (second.links scope (Nat.lt_of_lt_of_le known first.size)).trans (first.links scope known)
  binds scope name bound := second.binds scope name (first.binds scope name bound)

theorem of_stays {s after : Store} (stays : s.Stays after)
    (binds : ∀ scope name, s.binds scope name = true → after.binds scope name = true) : s.Outlives after where
  size := stays.size
  links scope known := by rw [enclosing?_eq, stays.chain scope known, enclosing?_eq]
  binds := binds

theorem put (s : Store) (scope : ScopeId) (name : String) (v : Value) : s.Outlives (s.put scope name v) :=
  of_stays (.put s scope name v) fun asked other bound => (s.binds_put scope asked name other v).mpr (.inr bound)

theorem openScope (s : Store) (outer : List ScopeId) (bindings : Names Value) : s.Outlives (s.openScope outer bindings).2 := by
  refine of_stays (.openScope s outer bindings) fun asked name bound => ?_
  have known := s.known_of_binds asked name bound
  unfold Store.binds at bound ⊢
  rw [own?_openScope, if_neg (Nat.ne_of_lt known)]
  exact bound

theorem aside {s after : Store} (same : after.scopes = s.scopes) : s.Outlives after := by
  refine of_stays (.aside same) fun scope name bound => ?_
  unfold Store.binds own? at bound ⊢
  rw [same]
  exact bound

end Outlives

namespace Rooted

variable {s : Store} {globals : ScopeId}

theorem put (h : s.Rooted globals) (scope : ScopeId) (name : String) {v : Value} (within : v.Within s.scopes.size) :
    (s.put scope name v).Rooted globals where
  linked := h.linked.put scope name v
  root := by
    rw [size_put]
    exact h.root
  alone := by
    rw [enclosing?_put]
    exact h.alone
  inside asked known := by
    rw [size_put] at known
    rw [enclosing?_put]
    exact h.inside asked known
  bindings found := by
    rw [size_put]
    rw [own?_put] at found
    split at found
    · exact Option.some.inj found ▸ within
    · exact h.bindings found
  fields found := by
    rw [size_put]
    exact h.fields found

theorem openWithin (h : s.Rooted globals) {scope : ScopeId} (known : scope < s.scopes.size) {bindings : Names Value}
    (all : ∀ row ∈ bindings, row.2.Within s.scopes.size) : (s.openWithin scope bindings).2.Rooted globals := by
  have more : s.scopes.size ≤ (s.openWithin scope bindings).2.scopes.size := (Outlives.openScope s _ bindings).size
  have linked : (s.openWithin scope bindings).2.Linked := h.linked.openScope bindings (some scope) (by simpa using known) rfl
  have old := (Outlives.openScope s (s.chain scope) bindings).links
  refine ⟨linked, Nat.lt_of_lt_of_le h.root more, (old globals h.root).trans h.alone, fun asked there => ?_, fun found => ?_,
    fun found => (h.fields found).mono more⟩
  · have size : (s.openWithin scope bindings).2.scopes.size = s.scopes.size + 1 := Array.size_push _
    rcases Nat.lt_succ_iff_lt_or_eq.mp (size ▸ there) with before | rfl
    · have same : (s.openWithin scope bindings).2.enclosing? asked = s.enclosing? asked := old asked before
      rw [same]
      exact h.inside asked before
    · refine .inr ⟨scope, ?_⟩
      obtain ⟨rest, starts⟩ := chain_cons known
      rw [enclosing?_eq, Store.openWithin, chain_openScope, if_pos rfl, starts]
      rfl
  · rw [Store.openWithin, own?_openScope] at found
    split at found
    · exact (Names.get?_all all found).mono more
    · exact (h.bindings found).mono more

theorem identity (h : s.Rooted globals) : s.identity.2.Rooted globals :=
  ⟨⟨h.linked.chain, h.linked.older⟩, h.root, h.alone, h.inside, h.bindings, h.fields⟩

theorem setField (h : s.Rooted globals) (i : Instance) (name : String) {v : Value} (within : v.Within s.scopes.size) :
    (s.setField i name v).Rooted globals where
  linked := ⟨h.linked.chain, h.linked.older⟩
  root := h.root
  alone := h.alone
  inside := h.inside
  bindings found := h.bindings found
  fields there := by
    rcases s.field?_setField name _ v there with rfl | before
    · exact within
    · exact h.fields before

theorem newInstance (h : s.Rooted globals) (c : Class) : (s.newInstance c).2.Rooted globals where
  linked := ⟨h.linked.chain, h.linked.older⟩
  root := h.root
  alone := h.alone
  inside := h.inside
  bindings found := h.bindings found
  fields there := h.fields (s.field?_newInstance _ there)

-- Each link leads closer to the globals, as it leads to an older scope.
theorem outermost (h : s.Rooted globals) (known : scope < s.scopes.size) : ∃ depth ≤ scope, s.Out scope depth globals := by
  induction scope using Nat.strongRecOn with
  | _ scope ih =>
    rcases h.inside scope known with rfl | ⟨outer, around⟩
    · exact ⟨0, Nat.zero_le _, .here known⟩
    · have older := h.linked.older scope outer around
      obtain ⟨depth, few, out⟩ := ih outer older (Nat.lt_trans older known)
      exact ⟨depth + 1, Nat.lt_of_le_of_lt few older, .link around out⟩

end Rooted

namespace Linked

variable {s : Store}

theorem seek (linked : s.Linked) (name : String) {turns : Nat} (enough : scope < turns) :
    s.seek name turns scope = some (s.binder? scope name) := by
  induction turns generalizing scope with
  | zero => cases enough
  | succ turns ih =>
    unfold Store.seek
    cases bound : s.binds scope name with
    | true => simp [binder?_bound bound]
    | false =>
      cases around : s.enclosing? scope with
      | none => simp [linked.binder?_last around bound]
      | some outer =>
        have older := Nat.lt_of_lt_of_le (linked.older scope outer around) (Nat.le_of_lt_succ enough)
        simp [linked.binder?_link around, bound, ih older]

theorem climb (linked : s.Linked) (known : scope < s.scopes.size) (depth : Nat) :
    s.climb depth scope = (s.chain scope)[depth]? := by
  induction depth generalizing scope with
  | zero =>
    obtain ⟨outer, same⟩ := chain_cons known
    rw [same]
    rfl
  | succ depth ih =>
    unfold Store.climb
    cases around : s.enclosing? scope with
    | none =>
      rw [linked.last known around]
      rfl
    | some outer =>
      rw [linked.link around]
      exact ih (Nat.lt_trans (linked.older scope outer around) known)

end Linked

theorem Rooted.ends {s : Store} {globals : ScopeId} (h : s.Rooted globals) : s.Ends globals where
  founded := Subrelation.wf (h.linked.older _ _) Nat.lt_wfRel.wf
  outermost _ known := h.outermost known
  last := h.alone
  seeks scope name := h.linked.seek name (Nat.lt_succ_self scope)
  climbs scope known depth name := by rw [h.linked.climb known, binderAt?]

end Store

namespace Machine

theorem Retains.refl (m : Machine) : m.Retains m := ⟨rfl, rfl, .refl _⟩

theorem Retains.trans {m middle after : Machine} (first : m.Retains middle) (second : middle.Retains after) :
    m.Retains after :=
  ⟨second.scope.trans first.scope, second.globals.trans first.globals, first.store.trans second.store⟩

theorem Rooted.onStore {m : Machine} (h : m.Rooted) {store : Store} (more : m.store.scopes.size ≤ store.scopes.size)
    (rooted : store.Rooted m.globals) : Rooted { m with store := store } :=
  ⟨rooted, Nat.lt_of_lt_of_le h.scope more⟩

-- In the beginning there are the globals alone.
theorem start_rooted (sink : Sink) (clock : Nat) : (Machine.start sink clock).Rooted := by
  have store : (Machine.start sink clock).store = (Store.empty.openScope [] [("clock", .callee .clock)]).2 := rfl
  refine ⟨⟨?_, Nat.zero_lt_one, rfl, fun scope known => .inl (Nat.lt_one_iff.mp known), fun found => ?_, fun found => ?_⟩,
    Nat.zero_lt_one⟩
  · exact Store.Forest.linked (.root (.bare rfl))
  · rw [store, Store.own?_openScope] at found
    split at found
    · rw [Names.get?_cons] at found
      split at found
      · exact Option.some.inj found ▸ .plain rfl
      · cases found
    · simp [Store.own?, Store.empty] at found
  · simp [Machine.start, Store.field?, Store.openScope, Store.empty] at found

end Machine

namespace Running

-- An action that keeps every machine rooted which has so many scopes, and keeps what is there. Its result may speak of
-- the scopes that there are in the end.
def Lasts (size : Nat) (x : Running α) (p : Nat → α → Prop) : Prop :=
  ∀ m : Machine, m.Rooted → size ≤ m.store.scopes.size → match x m with
    | .ok a after => m.Retains after ∧ after.Rooted ∧ p after.store.scopes.size a
    | .error _ after => m.Retains after ∧ after.Rooted

namespace Lasts

variable {size : Nat} {p : Nat → α → Prop} {q : Nat → β → Prop}

theorem pure {a : α} (h : ∀ more, size ≤ more → p more a) : Lasts size (Pure.pure a) p :=
  fun m rooted known => ⟨.refl m, rooted, h _ known⟩

theorem outOfFuel : Lasts size (outOfFuel : Running α) p := fun m rooted _ => ⟨.refl m, rooted⟩

theorem fail (cause : RuntimeCause) (t : Token) : Lasts size (fail cause t : Running α) p :=
  fun m rooted _ => ⟨.refl m, rooted⟩

theorem bind {x : Running α} {k : α → Running β} (first : Lasts size x p)
    (next : ∀ a more, size ≤ more → p more a → Lasts more (k a) q) : Lasts size (x >>= k) q := by
  intro m rooted known
  have given := first m rooted known
  show match EStateM.bind x k m with
    | .ok b after => m.Retains after ∧ after.Rooted ∧ q after.store.scopes.size b
    | .error _ after => m.Retains after ∧ after.Rooted
  unfold EStateM.bind
  cases ran : x m with
  | error halt after => simpa only [ran] using given
  | ok a middle =>
    simp only [ran] at given
    obtain ⟨retains, there, result⟩ := given
    have behind := next a _ (Nat.le_trans known retains.store.size) result middle there (Nat.le_refl _)
    dsimp only
    cases then_ : k a middle with
    | ok b after =>
      simp only [then_] at behind
      exact ⟨retains.trans behind.1, behind.2⟩
    | error halt after =>
      simp only [then_] at behind
      exact ⟨retains.trans behind.1, behind.2⟩

theorem within {x : Running α} (inner : Lasts size x p) {scope : ScopeId} (there : scope < size) :
    Lasts size (within scope x) p := by
  intro m rooted known
  have given := inner { m with scope := scope } ⟨rooted.store, Nat.lt_of_lt_of_le there known⟩ known
  have back : ∀ after : Machine, Machine.Retains { m with scope := scope } after → after.Rooted →
      m.Retains { after with scope := m.scope } ∧ Machine.Rooted { after with scope := m.scope } := fun after retains rooted' =>
    ⟨⟨rfl, retains.globals, retains.store⟩, rooted'.store, Nat.lt_of_lt_of_le rooted.scope retains.store.size⟩
  unfold Running.within
  dsimp only
  cases ran : x { m with scope := scope } with
  | ok a after =>
    simp only [ran] at given
    obtain ⟨retains, still, result⟩ := given
    exact ⟨(back after retains still).1, (back after retains still).2, result⟩
  | error halt after =>
    simp only [ran] at given
    exact back after given.1 given.2

theorem withStore {step : Store → α × Store} (h : ∀ (s : Store) (globals : ScopeId), s.Rooted globals → size ≤ s.scopes.size →
    s.Outlives (step s).2 ∧ (step s).2.Rooted globals ∧ p (step s).2.scopes.size (step s).1) :
    Lasts size (withStore step) p := by
  intro m rooted known
  obtain ⟨outlives, still, result⟩ := h m.store m.globals rooted.store known
  exact ⟨⟨rfl, rfl, outlives⟩, rooted.onStore outlives.size still, result⟩

theorem currentScope : Lasts size currentScope fun n scope => scope < n :=
  fun m rooted _ => ⟨.refl m, rooted, rooted.scope⟩

theorem store : Lasts size store fun n s => s.scopes.size = n ∧ ∃ globals, s.Rooted globals :=
  fun m rooted _ => ⟨.refl m, rooted, rfl, m.globals, rooted.store⟩

theorem bindHere (name : String) {v : Value} (inside : v.Within size) : Lasts size (bindHere name v) fun _ _ => True := by
  intro m rooted known
  have outlives := Store.Outlives.put m.store m.scope name v
  exact ⟨⟨rfl, rfl, outlives⟩, rooted.onStore outlives.size (rooted.store.put m.scope name (inside.mono known)), trivial⟩

theorem read (i : RefId) (name : Token) : Lasts size (read i name) fun n v => v.Within n := by
  intro m rooted _
  unfold Running.read
  cases found : (m.target? i name.lexeme).bind fun scope => m.store.own? scope name.lexeme with
  | none => exact ⟨.refl m, rooted⟩
  | some v =>
    obtain ⟨scope, _, bound⟩ := Option.bind_eq_some_iff.mp found
    exact ⟨.refl m, rooted, rooted.store.bindings bound⟩

theorem rebind (target : Option ScopeId) (name : Token) {v : Value} (inside : v.Within size) :
    Lasts size (rebind target name v) fun _ _ => True := by
  intro m rooted known
  cases target with
  | none => exact ⟨.refl m, rooted⟩
  | some scope =>
    have outlives := Store.Outlives.put m.store scope name.lexeme v
    exact ⟨⟨rfl, rfl, outlives⟩, rooted.onStore outlives.size (rooted.store.put scope name.lexeme (inside.mono known)), trivial⟩

theorem write (i : RefId) (name : Token) {v : Value} (inside : v.Within size) :
    Lasts size (write i name v) fun _ _ => True := fun m => rebind _ name inside m

theorem reassign (name : Token) {v : Value} (inside : v.Within size) : Lasts size (reassign name v) fun _ _ => True :=
  fun m => rebind _ name inside m

theorem print (keyword : Token) (text : String) : Lasts size (print keyword text) fun _ _ => True := by
  intro m rooted _
  unfold Running.print
  dsimp only
  cases (m.sink.write text).1 with
  | none => exact ⟨⟨rfl, rfl, .refl _⟩, ⟨rooted.store, rooted.scope⟩, trivial⟩
  | some failure => exact ⟨⟨rfl, rfl, .refl _⟩, rooted.store, rooted.scope⟩

theorem seconds : Lasts size seconds fun n v => v.Within n :=
  fun _ rooted _ => ⟨⟨rfl, rfl, .refl _⟩, ⟨rooted.store, rooted.scope⟩, .plain rfl⟩

theorem flush : Lasts size flush fun _ _ => True := by
  intro m rooted _
  unfold Running.flush
  cases m.sink.flush with
  | none => exact ⟨.refl m, rooted, trivial⟩
  | some failure => exact ⟨.refl m, rooted⟩

theorem ofExcept {result : Except RuntimeFault Value} (simply : Simply result) :
    Lasts size (ofExcept result) fun n v => v.Within n := by
  cases result with
  | ok v => exact .pure fun _ _ => .simple simply
  | error f => exact .fail _ _

theorem attach {m : Method} {receiver : Instance} (known : m.closure < size)
    (inside : ∀ closure ∈ receiver.madeBy.closures, closure < size) :
    Lasts size (m.attach receiver) fun n f => f.closure < n := by
  refine .withStore fun s globals rooted more => ?_
  have all : ∀ row ∈ [(receiverName, Value.instance receiver)], row.2.Within s.scopes.size := by
    intro row member
    rw [List.mem_singleton.mp member]
    exact fun closure mine => Nat.lt_of_lt_of_le (inside closure mine) more
  have opened := rooted.openWithin (Nat.lt_of_lt_of_le known more) all
  exact ⟨(Store.Outlives.openScope s _ _).trans (.aside rfl), opened.identity, by
    simp [Store.openWithin, Store.openScope, Store.identity]⟩

theorem get {i : Instance} (name : Token) (inside : ∀ closure ∈ i.madeBy.closures, closure < size) :
    Lasts size (i.get name) fun n v => v.Within n := by
  refine .bind .store fun s more grown held => ?_
  obtain ⟨same, globals, rooted⟩ := held
  cases found : s.field? i name.lexeme with
  | some v => exact .pure fun n most => (rooted.fields found).mono (same ▸ most)
  | none =>
    cases method : i.madeBy.methods.get? name.lexeme with
    | none => exact .fail _ _
    | some m =>
      have there : ∀ closure ∈ i.madeBy.closures, closure < more :=
        fun closure member => Nat.lt_of_lt_of_le (inside closure member) grown
      refine .bind (.attach (Value.Within.method there method) there) fun f n _ known => .pure fun most _ => ?_
      intro closure member
      rw [List.mem_singleton.mp member]
      exact Nat.lt_of_lt_of_le known ‹_›

theorem receiver (f : Function) : Lasts size f.receiver fun n v => v.Within n := by
  refine .bind .store fun s more grown held => .pure fun n most => ?_
  obtain ⟨same, globals, rooted⟩ := held
  cases found : s.own? f.closure receiverName with
  | none => exact .plain rfl
  | some v => exact (rooted.bindings found).mono (same ▸ most)

-- What is made closes over the current scope.
theorem making {make : ScopeId → Identity → Value}
    (closes : ∀ scope identity, ∀ closure ∈ (make scope identity).closures, closure = scope) : Lasts size (do
      let closure ← Running.currentScope
      let identity ← Running.withStore Store.identity
      return make closure identity) fun n v => v.Within n :=
  .bind .currentScope fun scope more _ known =>
    .bind (.withStore (p := fun _ _ => True) fun s _ rooted _ => ⟨.aside rfl, rooted.identity, trivial⟩)
      fun identity n grown _ => .pure fun most further closure member => by
        rw [closes scope identity closure member]
        exact Nat.lt_of_lt_of_le known (Nat.le_trans grown further)

theorem newClass (name : String) (methods : List Routine) : Lasts size (newClass name methods) fun n v => v.Within n := by
  refine making fun scope identity => ?_
  exact List.forall_mem_map.mpr (Names.putAll_all (p := fun m : Method => m.closure = scope) Routine.name (Method.mk · scope)
    (fun _ absent => absurd absent List.not_mem_nil) fun _ _ => rfl)

theorem checkedCall (close : Token) {callee : Value} (inside : callee.Within size) (values : List Value) :
    Lasts size (checkedCall close callee values) fun n c => ∀ closure ∈ c.closures, closure < n := by
  unfold ScopeScript.checkedCall
  cases callee with
  | callee c =>
    dsimp only [Value.callee?]
    split
    · exact .pure fun n more closure member => Nat.lt_of_lt_of_le (inside closure member) more
    · exact .fail _ _
  | _ => exact .fail _ _

theorem enterBlock : Lasts size enterBlock fun n scope => scope < n :=
  .bind .currentScope fun around more _ known => .withStore fun s _ rooted grown =>
    ⟨.openScope s _ _, rooted.openWithin (Nat.lt_of_lt_of_le known grown) fun _ absent => absurd absent List.not_mem_nil, by
      simp [Store.openWithin, Store.openScope]⟩

theorem enterBody (r : Routine) {closure : ScopeId} (known : closure < size) {values : List Value}
    (all : ∀ v ∈ values, v.Within size) : Lasts size (enterBody r closure values) fun n scope => scope < n :=
  .withStore fun s _ rooted grown =>
    ⟨.openScope s _ _, rooted.openWithin (Nat.lt_of_lt_of_le known grown)
      (parameterBindings_within _ fun v member => (all v member).mono grown), by simp [Store.openWithin, Store.openScope]⟩

end Lasts

end Running

open Running (Lasts)

structure Rooting (fuel : Nat) : Prop where
  expr : ∀ size (e : Expr), Lasts size (e.evaluate fuel) fun n v => v.Within n
  exprs : ∀ size es, Lasts size (Expr.evaluateAll fuel es) fun n vs => ∀ v ∈ vs, v.Within n
  callee : ∀ {size} {c : Callee} {values : List Value}, (∀ closure ∈ c.closures, closure < size) →
    (∀ v ∈ values, v.Within size) → Lasts size (c.call fuel values) fun n v => v.Within n
  routine : ∀ {size} (r : Routine) {closure : ScopeId} {values : List Value}, closure < size →
    (∀ v ∈ values, v.Within size) → Lasts size (r.run fuel closure values) fun n flow => flow.Within n
  stmt : ∀ size (s : Stmt), Lasts size (s.execute fuel) fun n flow => flow.Within n
  stmts : ∀ size ss, Lasts size (Stmt.executeAll fuel ss) fun n flow => flow.Within n
  turn : ∀ size condition body, Lasts size (Stmt.turn fuel condition body) fun n flow => flow.Within n

namespace Rooting

theorem zero : Rooting 0 where
  expr _ _ := .outOfFuel
  exprs _ _ := .outOfFuel
  callee _ _ := .outOfFuel
  routine _ _ _ _ _ := .outOfFuel
  stmt _ _ := .outOfFuel
  stmts _ _ := .outOfFuel
  turn _ _ _ := .outOfFuel

variable {fuel : Nat}

theorem expr_succ (h : Rooting fuel) (size : Nat) (e : Expr) : Lasts size (e.evaluate (fuel + 1)) fun n v => v.Within n := by
  cases e with
  | literal value => exact .pure fun _ _ => .ofLiteral value
  | grouping inner => exact h.expr size inner
  | unary operator operand => exact .bind (h.expr size operand) fun v _ _ _ => .ofExcept (unaryResult_simply operator v)
  | binary left operator right =>
    exact .bind (h.expr size left) fun a _ _ _ => .bind (h.expr _ right) fun b _ _ _ =>
      .ofExcept (binaryResult_simply operator a b)
  | logical left operator right =>
    refine .bind (h.expr size left) fun a n _ decided => ?_
    split
    · exact .pure fun _ => decided.mono
    · exact h.expr n right
  | assign i name value =>
    exact .bind (h.expr size value) fun v _ _ given => .bind (.write i name given) fun _ _ more _ =>
      .pure fun _ most => given.mono (Nat.le_trans more most)
  | call callee close arguments =>
    exact .bind (h.expr size callee) fun f _ _ called => .bind (h.exprs _ arguments) fun values _ grown all =>
      .bind (.checkedCall close (called.mono grown) values) fun c _ more known =>
        h.callee known fun v member => (all v member).mono more
  | lambda routine => exact .making fun scope identity closure member => List.mem_singleton.mp member
  | get object name =>
    refine .bind (h.expr size object) fun v _ _ given => ?_
    cases v with
    | nil | bool | number | string | callee => exact .fail _ _
    | _ i => exact .get name given
  | set object name value =>
    refine .bind (h.expr size object) fun v n _ given => ?_
    cases v with
    | nil | bool | number | string | callee => exact .fail _ _
    | _ i =>
      refine .bind (h.expr n value) fun v more _ stored => ?_
      exact .bind (.withStore (p := fun _ _ => True) fun s _ rooted grown =>
        ⟨.aside rfl, rooted.setField i name.lexeme (stored.mono grown), trivial⟩)
        fun _ _ further _ => .pure fun _ most => stored.mono (Nat.le_trans further most)
  | _ => exact .read _ _

theorem exprs_succ (h : Rooting fuel) (size : Nat) (es : List Expr) :
    Lasts size (Expr.evaluateAll (fuel + 1) es) fun n vs => ∀ v ∈ vs, v.Within n := by
  cases es with
  | nil => exact .pure fun _ _ _ absent => absurd absent List.not_mem_nil
  | cons e rest =>
    exact .bind (h.expr size e) fun v _ _ here => .bind (h.exprs _ rest) fun vs _ more there => .pure fun _ most =>
      List.forall_mem_cons.mpr ⟨here.mono (Nat.le_trans more most), fun w member => (there w member).mono most⟩

theorem callee_succ (h : Rooting fuel) {size : Nat} {c : Callee} {values : List Value}
    (known : ∀ closure ∈ c.closures, closure < size) (all : ∀ v ∈ values, v.Within size) :
    Lasts size (c.call (fuel + 1) values) fun n v => v.Within n := by
  cases c with
  | clock => exact .seconds
  | function f =>
    refine .bind (h.routine _ (known _ List.mem_cons_self) all) fun flow n _ given => ?_
    split
    · exact .receiver f
    · exact .pure fun _ => (Ending.Within.result given).mono
  | lambda l =>
    exact .bind (h.routine _ (known _ List.mem_cons_self) all) fun flow n _ given =>
      .pure fun _ => (Ending.Within.result given).mono
  | classes c =>
    refine .bind (.withStore (p := fun _ i => i.madeBy = c) fun s _ rooted _ => ⟨.aside rfl, rooted.newInstance c, rfl⟩)
      fun i n grown made => ?_
    have there : ∀ closure ∈ i.madeBy.closures, closure < n :=
      fun closure member => Nat.lt_of_lt_of_le (known closure (made ▸ member)) grown
    cases found : c.initializer? with
    | none => exact .pure fun _ => Value.Within.mono (v := .instance i) there
    | some m =>
      refine .bind (.attach (Value.Within.method there (made ▸ found)) there) fun f n _ bound => ?_
      refine .bind (h.callee (c := .function f) (by simpa [Callee.closures] using bound) fun v member => ?_) fun _ _ more _ =>
        .pure fun _ most => ?_
      · exact (all v member).mono (by omega)
      · exact Value.Within.mono (v := .instance i) there (by omega)

theorem routine_succ (h : Rooting fuel) {size : Nat} (r : Routine) {closure : ScopeId} {values : List Value}
    (known : closure < size) (all : ∀ v ∈ values, v.Within size) :
    Lasts size (r.run (fuel + 1) closure values) fun n flow => flow.Within n :=
  .bind (.enterBody r known all) fun _ n _ there => .within (h.stmts n r.body) there

theorem stmt_succ (h : Rooting fuel) (size : Nat) (s : Stmt) :
    Lasts size (s.execute (fuel + 1)) fun n flow => flow.Within n := by
  cases s with
  | expression value => exact .bind (h.expr size value) fun _ _ _ _ => .pure fun _ _ => trivial
  | print keyword value =>
    exact .bind (h.expr size value) fun v _ _ _ => .bind (.print keyword _) fun _ _ _ _ => .pure fun _ _ => trivial
  | var name initial =>
    cases initial with
    | none => exact .bind (.bindHere _ (.plain rfl)) fun _ _ _ _ => .pure fun _ _ => trivial
    | some e =>
      exact .bind (h.expr size e) fun v _ _ given => .bind (.bindHere _ given) fun _ _ _ _ => .pure fun _ _ => trivial
  | block body => exact .bind .enterBlock fun _ n _ there => .within (h.stmts n body) there
  | branch condition yes no =>
    refine .bind (h.expr size condition) fun v n _ _ => ?_
    split
    · exact h.stmt n yes
    · cases no with
      | none => exact .pure fun _ _ => trivial
      | some no => exact h.stmt n no
  | loop condition body => exact h.turn size condition body
  | leave keyword => exact .pure fun _ _ => trivial
  | function routine =>
    exact .bind (.making fun scope identity closure member => List.mem_singleton.mp member) fun f _ _ made =>
      .bind (.bindHere _ made) fun _ _ _ _ => .pure fun _ _ => trivial
  | giveBack keyword value =>
    cases value with
    | none => exact .pure fun _ _ => Value.Within.plain rfl
    | some e => exact .bind (h.expr size e) fun v _ _ given => .pure fun _ => given.mono
  | classes name methods =>
    exact .bind (.bindHere _ (.plain rfl)) fun _ _ _ _ => .bind (.newClass _ methods) fun v _ _ made =>
      .bind (.reassign name made) fun _ _ _ _ => .pure fun _ _ => trivial

theorem stmts_succ (h : Rooting fuel) (size : Nat) (ss : List Stmt) :
    Lasts size (Stmt.executeAll (fuel + 1) ss) fun n flow => flow.Within n := by
  cases ss with
  | nil => exact .pure fun _ _ => trivial
  | cons s rest =>
    refine .bind (h.stmt size s) fun flow n _ given => ?_
    cases flow with
    | normal => exact h.stmts n rest
    | leave => exact .pure fun _ _ => trivial
    | giveBack v => exact .pure fun _ => given.mono

theorem turn_succ (h : Rooting fuel) (size : Nat) (condition : Expr) (body : Stmt) :
    Lasts size (Stmt.turn (fuel + 1) condition body) fun n flow => flow.Within n := by
  refine .bind (h.expr size condition) fun v n _ _ => ?_
  split
  · refine .bind (h.stmt n body) fun flow more _ given => ?_
    cases flow with
    | normal => exact h.turn more condition body
    | leave => exact .pure fun _ _ => trivial
    | giveBack v => exact .pure fun _ => given.mono
  · exact .pure fun _ _ => trivial

end Rooting

theorem rooting (fuel : Nat) : Rooting fuel := by
  induction fuel with
  | zero => exact .zero
  | succ fuel ih =>
    exact ⟨ih.expr_succ, ih.exprs_succ, ih.callee_succ, ih.routine_succ, ih.stmt_succ, ih.stmts_succ, ih.turn_succ⟩

theorem runProgram_lasts (fuel size : Nat) (program : List Stmt) : Lasts size (runProgram fuel program) fun _ _ => True :=
  .bind ((rooting fuel).stmts size program) fun _ _ _ _ => .flush

end ScopeScript
