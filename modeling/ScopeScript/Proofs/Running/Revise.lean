import ScopeScript.Proofs.Grammar.Revise
import ScopeScript.Proofs.Running.Recast
import ScopeScript.Proofs.Running.Rename
import ScopeScript.Proofs.Running.Watch

namespace ScopeScript

namespace Names

-- New keys for names; a name without one is gone.
def rekey (k : String → Option String) (f : α → β) (names : Names α) : Names β :=
  names.filterMap fun row => (k row.1).map fun name => (name, f row.2)

-- No two names get one key.
def Single (k : String → Option String) : Prop := ∀ n n' m, k n = some m → k n' = some m → n = n'

section

variable {k : String → Option String} {f : α → β} {names : Names α}

theorem rekey_cons (other : String) (x : α) : rekey k f ((other, x) :: names) =
    match k other with
    | none => rekey k f names
    | some name => (name, f x) :: rekey k f names := by
  unfold rekey
  rw [List.filterMap_cons]
  cases k other <;> rfl

theorem rekey_get? (single : Single k) (kept : k n = some m) : (names.rekey k f).get? m = (names.get? n).map f := by
  induction names with
  | nil => rfl
  | cons row rest ih =>
    obtain ⟨other, x⟩ := row
    rw [rekey_cons, get?_cons]
    by_cases here : n = other
    · subst here
      rw [kept]
      dsimp only
      rw [get?_cons, if_pos rfl, if_pos rfl, Option.map_some]
    · rw [if_neg here, ← ih]
      cases key : k other with
      | none => rfl
      | some name =>
        dsimp only
        rw [get?_cons, if_neg fun (same : m = name) => here (single n other m kept (same ▸ key))]

theorem rekey_put (single : Single k) (kept : k n = some m) (x : α) :
    (put n x names).rekey k f = put m (f x) (names.rekey k f) := by
  induction names with
  | nil =>
    show rekey k f [(n, x)] = _
    rw [rekey_cons, kept]
    rfl
  | cons row rest ih =>
    obtain ⟨other, y⟩ := row
    rw [put, rekey_cons]
    by_cases here : n = other
    · subst here
      rw [if_pos rfl, rekey_cons, kept]
      dsimp only
      rw [put, if_pos rfl]
    · rw [if_neg here, rekey_cons, ih]
      cases key : k other with
      | none => rfl
      | some name =>
        dsimp only
        rw [put, if_neg fun (same : m = name) => here (single n other m kept (same ▸ key))]

theorem rekey_put_gone (gone : k n = none) (x : α) : (put n x names).rekey k f = names.rekey k f := by
  induction names with
  | nil =>
    show rekey k f [(n, x)] = _
    rw [rekey_cons, gone]
  | cons row rest ih =>
    obtain ⟨other, y⟩ := row
    rw [put]
    by_cases here : n = other
    · subst here
      rw [if_pos rfl, rekey_cons, rekey_cons, gone]
    · rw [if_neg here, rekey_cons, rekey_cons, ih]

end

end Names

namespace Revision

variable (V : Revision)

-- What the scopes of a region call something that they had under a name.
def key (region : Region) (name : String) : Option String :=
  if V.takes name then none
  else match region.declares.find? (·.lexeme == name) with
    | none => some name
    | some t => if V.omits t then none else some (V.declare t).lexeme

-- The globals keep their names.
def keyAt : Option (Option Region) → String → Option String
  | some (some region) => V.key region
  | _ => some

-- The keys of every region tell its names apart, and leave the receiver's alone.
structure Keyed : Prop where
  single : ∀ region, Names.Single (V.key region)
  receiver : ∀ region, V.key region receiverName = some receiverName

variable {V}

theorem key_spelled {region : Region} {name : String} {t : Token}
    (found : region.declares.find? (·.lexeme == name) = some t) : t.lexeme = name := by
  simpa using List.find?_some found

-- Where no name changes, every key is the name or there is none.
theorem keyed_same (declare : ∀ t, V.declare t = t) (plain : V.takes receiverName = false)
    (free : ∀ t, V.omits t = true → t.lexeme ≠ receiverName) : V.Keyed where
  single region := by
    have same : ∀ n m, V.key region n = some m → n = m := by
      intro n m given
      unfold key at given
      split at given
      · cases given
      · split at given
        · exact Option.some.inj given
        · next t found =>
          split at given
          · cases given
          · rw [declare, key_spelled found] at given
            exact Option.some.inj given
    intro n n' m first second
    exact (same n m first).trans (same n' m second).symm
  receiver region := by
    unfold key
    rw [plain, if_neg Bool.false_ne_true]
    split
    · rfl
    · next t found =>
      rw [if_neg fun omitted => free t omitted (key_spelled found), declare, key_spelled found]

theorem Keyed.singleAt (h : V.Keyed) (label : Option (Option Region)) : Names.Single (V.keyAt label) := by
  match label with
  | some (some region) => exact h.single region
  | some none | none =>
    intro n n' m first second
    cases first
    cases second
    rfl

theorem Keyed.receiverAt (h : V.Keyed) (label : Option (Option Region)) :
    V.keyAt label receiverName = some receiverName := by
  match label with
  | some (some region) => exact h.receiver region
  | some none | none => rfl

end Revision

theorem Routine.revise_alike (V : Revision) : Routine.Alike (Routine.revise V) :=
  ⟨Routine.revise_name V, Routine.revise_arity V⟩

section

variable (V : Revision)

def Value.revise : Value → Value := Value.recast (Routine.revise V)

def Scope.revise (label : Option (Option Region)) (s : Scope) : Scope :=
  { s with bindings := s.bindings.rekey (V.keyAt label) (Value.revise V) }

-- The store of the changed program. Labels tell what the scopes were opened for.
def Store.revise (labels : List (Option Region)) (s : Store) : Store :=
  { s with
    scopes := s.scopes.mapIdx fun i scope => scope.revise V labels[i]?
    fields := s.fields.map (Names.mapThings (Value.revise V)) }

def Scene.revise (a : Scene) : Machine := { a.machine with store := a.machine.store.revise V a.labels }

end

namespace Store

variable {V : Revision} {labels : List (Option Region)} {s : Store}

theorem revise_scope (scope : ScopeId) :
    (s.revise V labels).scopes[scope]? = s.scopes[scope]?.map (Scope.revise V labels[scope]?) := by
  unfold revise
  rw [Array.getElem?_mapIdx]

theorem revise_chain (scope : ScopeId) : (s.revise V labels).chain scope = s.chain scope := by
  unfold chain
  rw [revise_scope]
  cases s.scopes[scope]? <;> rfl

theorem revise_own? (keyed : V.Keyed) {scope : ScopeId} (kept : V.keyAt labels[scope]? n = some m) :
    (s.revise V labels).own? scope m = (s.own? scope n).map (Value.revise V) := by
  unfold own?
  rw [revise_scope]
  cases s.scopes[scope]? with
  | none => rfl
  | some found => exact Names.rekey_get? (keyed.singleAt _) kept

theorem revise_binds (keyed : V.Keyed) {scope : ScopeId} (kept : V.keyAt labels[scope]? n = some m) :
    (s.revise V labels).binds scope m = s.binds scope n := by
  unfold binds
  rw [revise_own? keyed kept, Option.isSome_map]

theorem revise_modify (V : Revision) (labels : List (Option Region)) (s : Store) (scope : ScopeId) (change change' : Scope → Scope)
    (same : ∀ found, (change found).revise V labels[scope]? = change' (found.revise V labels[scope]?)) :
    (s.scopes.modify scope change).mapIdx (fun i found => found.revise V labels[i]?) =
      (s.scopes.mapIdx fun i found => found.revise V labels[i]?).modify scope change' := by
  apply Array.ext_getElem?
  intro j
  rw [Array.getElem?_mapIdx, Array.getElem?_modify, Array.getElem?_modify, Array.getElem?_mapIdx]
  split
  · rename_i here
    subst here
    cases s.scopes[scope]? with
    | none => rfl
    | some found => exact congrArg some (same found)
  · rfl

theorem revise_put (keyed : V.Keyed) {scope : ScopeId} (kept : V.keyAt labels[scope]? n = some m) (v : Value) :
    (s.put scope n v).revise V labels = (s.revise V labels).put scope m (v.revise V) := by
  have changed := revise_modify V labels s scope
    (fun found => { found with bindings := found.bindings.put n v })
    (fun found => { found with bindings := found.bindings.put m (v.revise V) })
    fun found => congrArg (Scope.mk · found.outer) (Names.rekey_put (keyed.singleAt _) kept v)
  unfold revise put
  dsimp only
  rw [changed]

theorem revise_put_gone {scope : ScopeId} (gone : V.keyAt labels[scope]? n = none) (v : Value) :
    (s.put scope n v).revise V labels = s.revise V labels := by
  have changed := revise_modify V labels s scope
    (fun found => { found with bindings := found.bindings.put n v }) id
    fun found => congrArg (Scope.mk · found.outer) (Names.rekey_put_gone gone v)
  have still : (s.scopes.mapIdx fun i found => found.revise V labels[i]?).modify scope id =
      s.scopes.mapIdx fun i found => found.revise V labels[i]? := by
    apply Array.ext_getElem?
    intro j
    rw [Array.getElem?_modify]
    split <;> simp
  unfold revise put
  dsimp only
  rw [changed, still]

-- A new scope gets the label behind the others.
theorem revise_openScope (even : labels.length = s.scopes.size) (label : Option Region) (outer : List ScopeId)
    (bindings : Names Value) : (s.openScope outer bindings).2.revise V (labels ++ [label]) =
      ((s.revise V labels).openScope outer (bindings.rekey (V.keyAt (some label)) (Value.revise V))).2 := by
  unfold openScope revise
  dsimp only
  congr 1
  apply Array.ext_getElem?
  intro j
  rw [Array.getElem?_mapIdx, Array.getElem?_push, Array.getElem?_push, Array.getElem?_mapIdx, Array.size_mapIdx]
  split
  · subst_vars
    rw [← even, List.getElem?_append_right (Nat.le_refl _), Nat.sub_self]
    rfl
  · cases found : s.scopes[j]? with
    | none => rfl
    | some scope =>
      have known : j < labels.length := even ▸ (Array.getElem?_eq_some_iff.mp found).1
      rw [List.getElem?_append_left known]

theorem revise_size : (s.revise V labels).scopes.size = s.scopes.size := Array.size_mapIdx

theorem revise_field? (i : Instance) (name : String) :
    (s.revise V labels).field? (i.recast (Routine.revise V)) name = (s.field? i name).map (Value.revise V) := by
  unfold field? revise Instance.recast
  dsimp only
  rw [Array.getElem?_map]
  cases s.fields[i.identity]? with
  | none => rfl
  | some found => exact Names.get?_mapThings _ _ _

theorem revise_setField (i : Instance) (name : String) (v : Value) : (s.setField i name v).revise V labels =
    (s.revise V labels).setField (i.recast (Routine.revise V)) name (v.revise V) := by
  have changed := map_modify (Names.mapThings (Value.revise V)) (fun names => names.put name v)
    (fun names => names.put name (v.revise V)) (fun names => (Names.put_mapThings _ _ _ _).symm) s.fields i.identity
  unfold setField revise Instance.recast
  dsimp only
  rw [changed]

end Store

end ScopeScript
