import ScopeScript.Running.Evaluate
import ScopeScript.Proofs.Scoping.Rename

namespace ScopeScript

section

variable (ρ : Renaming)

def Function.rename (f : Function) : Function := { f with routine := f.routine.rename ρ }

def Lambda.rename (l : Lambda) : Lambda := { l with routine := l.routine.rename ρ }

def Method.rename (m : Method) : Method := { m with routine := m.routine.rename ρ }

def Class.rename (c : Class) : Class := { c with methods := c.methods.mapThings (Method.rename ρ) }

def Instance.rename (i : Instance) : Instance := { i with madeBy := i.madeBy.rename ρ }

def Callee.rename : Callee → Callee
  | .clock => .clock
  | .function f => .function (f.rename ρ)
  | .lambda l => .lambda (l.rename ρ)
  | .classes c => .classes (c.rename ρ)

def Value.rename : Value → Value
  | .callee c => .callee (c.rename ρ)
  | .instance i => .instance (i.rename ρ)
  | plain => plain

def Ending.rename : Ending → Ending
  | .giveBack v => .giveBack (v.rename ρ)
  | other => other

def Scope.rename (s : Scope) : Scope := { s with bindings := s.bindings.mapThings (Value.rename ρ) }

def Store.rename (s : Store) : Store :=
  { s with scopes := s.scopes.map (Scope.rename ρ), fields := s.fields.map (Names.mapThings (Value.rename ρ)) }

def RuntimeFault.rename (f : RuntimeFault) : RuntimeFault := { f with token := f.token.rename ρ }

def Halt.rename : Halt → Halt
  | .fault f => .fault (f.rename ρ)
  | .outOfFuel => .outOfFuel

-- The machine for renamed code, with the depths of the new ids.
def Machine.rename (depths : Depths) (m : Machine) : Machine :=
  { m with store := m.store.rename ρ, depths := depths }

end

-- Nothing that a value shows changes.
section

variable (ρ : Renaming)

@[simp] theorem Class.rename_initializer? (c : Class) :
    (c.rename ρ).initializer? = c.initializer?.map (Method.rename ρ) :=
  Names.get?_mapThings _ _ _

@[simp] theorem Callee.rename_arity (c : Callee) : (c.rename ρ).arity = c.arity := by
  cases c with
  | clock => rfl
  | function f => exact f.routine.rename_arity ρ
  | lambda l => exact l.routine.rename_arity ρ
  | classes c =>
    unfold rename arity
    dsimp only
    rw [Class.rename_initializer?]
    cases c.initializer? with
    | none => rfl
    | some m => exact m.routine.rename_arity ρ

@[simp] theorem Callee.rename_text (c : Callee) : (c.rename ρ).text = c.text := by
  cases c with
  | function f =>
    unfold rename text Function.rename
    dsimp only
    rw [Routine.rename_name]
  | _ => rfl

theorem Callee.rename_same (a b : Callee) : (a.rename ρ).same (b.rename ρ) = a.same b := by
  cases a <;> cases b <;> rfl

@[simp] theorem Value.rename_holds (v : Value) : (v.rename ρ).holds = v.holds := by
  cases v <;> rfl

@[simp] theorem Value.rename_text (v : Value) : (v.rename ρ).text = v.text := by
  cases v with
  | callee c => exact c.rename_text ρ
  | bool b => cases b <;> rfl
  | _ => rfl

@[simp] theorem Value.rename_same (a b : Value) : (a.rename ρ).same (b.rename ρ) = a.same b := by
  cases a with
  | callee c =>
    cases b with
    | callee d => exact c.rename_same ρ d
    | _ => rfl
  | _ => cases b <;> rfl

theorem Value.rename_callee? (v : Value) : (v.rename ρ).callee? = v.callee?.map (Callee.rename ρ) := by
  cases v <;> rfl

theorem Value.rename_ofLiteral (l : Literal) : (Value.ofLiteral l).rename ρ = .ofLiteral l := by
  cases l <;> rfl

theorem Ending.rename_result (e : Ending) : (e.rename ρ).result = e.result.rename ρ := by
  cases e <;> rfl

end

namespace Store

variable (ρ : Renaming) (s : Store)

theorem rename_chain (scope : ScopeId) : (s.rename ρ).chain scope = s.chain scope := by
  unfold chain rename
  dsimp only
  rw [Array.getElem?_map]
  cases s.scopes[scope]? <;> rfl

theorem rename_openScope (outer : List ScopeId) (bindings : Names Value) :
    (s.rename ρ).openScope outer (bindings.mapThings (Value.rename ρ)) =
      ((s.openScope outer bindings).1, (s.openScope outer bindings).2.rename ρ) := by
  simp [openScope, rename, Scope.rename]

theorem rename_openWithin (scope : ScopeId) (bindings : Names Value) :
    (s.rename ρ).openWithin scope (bindings.mapThings (Value.rename ρ)) =
      ((s.openWithin scope bindings).1, (s.openWithin scope bindings).2.rename ρ) := by
  unfold openWithin
  rw [rename_chain, rename_openScope]

theorem rename_own? (scope : ScopeId) (name : String) :
    (s.rename ρ).own? scope name = (s.own? scope name).map (Value.rename ρ) := by
  unfold own? rename
  dsimp only
  rw [Array.getElem?_map]
  cases s.scopes[scope]? with
  | none => rfl
  | some found => exact Names.get?_mapThings _ _ _

theorem rename_binds (scope : ScopeId) (name : String) :
    (s.rename ρ).binds scope name = s.binds scope name := by
  unfold binds
  rw [rename_own?, Option.isSome_map]

theorem rename_binder? (scope : ScopeId) (name : String) :
    (s.rename ρ).binder? scope name = s.binder? scope name := by
  unfold binder?
  simp only [rename_chain, rename_binds]

theorem rename_binderAt? (scope : ScopeId) (depth : Nat) (name : String) :
    (s.rename ρ).binderAt? scope depth name = s.binderAt? scope depth name := by
  unfold binderAt?
  simp only [rename_chain, rename_binds]

theorem map_modify (f : α → β) (change : α → α) (change' : β → β) (same : ∀ a, f (change a) = change' (f a))
    (xs : Array α) (i : Nat) : (xs.modify i change).map f = (xs.map f).modify i change' := by
  apply Array.ext_getElem?
  intro j
  rw [Array.getElem?_map, Array.getElem?_modify, Array.getElem?_modify, Array.getElem?_map]
  split
  · cases xs[j]? with
    | none => rfl
    | some a => exact congrArg some (same a)
  · rfl

theorem rename_put (scope : ScopeId) (name : String) (v : Value) :
    (s.rename ρ).put scope name (v.rename ρ) = (s.put scope name v).rename ρ := by
  have changed := map_modify (Scope.rename ρ) (fun found => { found with bindings := found.bindings.put name v })
    (fun found => { found with bindings := found.bindings.put name (v.rename ρ) })
    (fun found => congrArg (Scope.mk · found.outer) (Names.put_mapThings _ _ _ _).symm) s.scopes scope
  unfold put rename
  dsimp only
  rw [changed]

theorem rename_newInstance (c : Class) : (s.rename ρ).newInstance (c.rename ρ) =
    ((s.newInstance c).1.rename ρ, (s.newInstance c).2.rename ρ) := by
  simp [newInstance, rename, Instance.rename, Names.mapThings]

theorem rename_field? (i : Instance) (name : String) :
    (s.rename ρ).field? (i.rename ρ) name = (s.field? i name).map (Value.rename ρ) := by
  unfold field? rename Instance.rename
  dsimp only
  rw [Array.getElem?_map]
  cases s.fields[i.identity]? with
  | none => rfl
  | some found => exact Names.get?_mapThings _ _ _

theorem rename_setField (i : Instance) (name : String) (v : Value) :
    (s.rename ρ).setField (i.rename ρ) name (v.rename ρ) = (s.setField i name v).rename ρ := by
  have changed := map_modify (Names.mapThings (Value.rename ρ)) (fun names => names.put name v)
    (fun names => names.put name (v.rename ρ)) (fun names => (Names.put_mapThings _ _ _ _).symm) s.fields i.identity
  unfold setField rename Instance.rename
  dsimp only
  rw [changed]

end Store

-- Two renamings in a row.
section

variable (ρ τ : Renaming)

theorem Names.mapThings_mapThings (f : α → β) (g : β → γ) (names : Names α) :
    (names.mapThings f).mapThings g = names.mapThings (g ∘ f) := by
  unfold mapThings
  rw [List.map_map]
  rfl

theorem Method.rename_rename (m : Method) : (m.rename ρ).rename τ = m.rename (ρ.andThen τ) :=
  congrArg (Method.mk · m.closure) (m.routine.rename_rename ρ τ)

theorem Class.rename_rename (c : Class) : (c.rename ρ).rename τ = c.rename (ρ.andThen τ) := by
  unfold rename
  rw [Names.mapThings_mapThings, show Method.rename τ ∘ Method.rename ρ = _ from funext fun m => m.rename_rename ρ τ]

theorem Value.rename_rename (v : Value) : (v.rename ρ).rename τ = v.rename (ρ.andThen τ) := by
  cases v with
  | callee c =>
    cases c with
    | clock => rfl
    | function f =>
      exact congrArg (fun r => callee (.function ⟨f.identity, r, f.closure, f.initializer⟩))
        (f.routine.rename_rename ρ τ)
    | lambda l =>
      exact congrArg (fun r => callee (.lambda ⟨l.identity, r, l.closure⟩)) (l.routine.rename_rename ρ τ)
    | classes c => exact congrArg (fun c => callee (.classes c)) (c.rename_rename ρ τ)
  | nil | bool | number | string => rfl
  | _ i => exact congrArg (fun c => Value.instance ⟨i.identity, c⟩) (i.madeBy.rename_rename ρ τ)

theorem Store.rename_rename (s : Store) : (s.rename ρ).rename τ = s.rename (ρ.andThen τ) := by
  have values : Value.rename τ ∘ Value.rename ρ = Value.rename (ρ.andThen τ) :=
    funext fun v => v.rename_rename ρ τ
  have names : Names.mapThings (Value.rename τ) ∘ Names.mapThings (Value.rename ρ) =
      Names.mapThings (Value.rename (ρ.andThen τ)) := by
    funext names
    rw [Function.comp_apply, Names.mapThings_mapThings, values]
  have scopes : Scope.rename τ ∘ Scope.rename ρ = Scope.rename (ρ.andThen τ) :=
    funext fun s => congrArg (Scope.mk · s.outer) (congrFun names s.bindings)
  unfold rename
  rw [Array.map_map, Array.map_map, names, scopes]

theorem Machine.rename_rename (first second : Depths) (m : Machine) :
    (m.rename ρ first).rename τ second = m.rename (ρ.andThen τ) second := by
  unfold rename
  dsimp only
  rw [Store.rename_rename]

end

end ScopeScript
