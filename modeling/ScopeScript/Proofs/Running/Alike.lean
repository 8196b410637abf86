import Mathlib.Algebra.Order.BigOperators.Group.List
import Mathlib.Algebra.Order.Group.Nat
import Mathlib.Data.List.Nodup
import ScopeScript.Proofs.Running.Commute
import ScopeScript.Proofs.Running.Fuel
import ScopeScript.Proofs.Scoping.Locate

namespace ScopeScript

open Running (Exhausted Renames)

-- A table in which every code below a bound stands for its own depth.
def Depths.codes (bound : Nat) : Depths :=
  Depths.record {} ((List.range bound).map fun depth => ⟨depth + 1, some depth⟩)

theorem Depths.codes_get (bound : Nat) (depth : Option Nat) (small : ∀ d, depth = some d → d < bound) :
    (codes bound)[depthCode depth]? = depth := by
  have ids : ((List.range bound).map fun depth => (⟨depth + 1, some depth⟩ : Note)).map Note.id =
      (List.range bound).map (· + 1) := by
    rw [List.map_map]
    rfl
  cases depth with
  | none =>
    refine (Depths.record_other {} _ 0 fun member => ?_).trans Std.TreeMap.getElem?_emptyc
    rw [ids] at member
    obtain ⟨d, -, impossible⟩ := List.mem_map.mp member
    cases impossible
  | some d =>
    have single : (((List.range bound).map fun depth => (⟨depth + 1, some depth⟩ : Note)).map Note.id).Nodup := by
      rw [ids]
      exact List.Nodup.map (fun _ _ => Nat.succ.inj) List.nodup_range
    exact Depths.record_exact {} _ single ⟨d + 1, some d⟩
      (List.mem_map_of_mem (f := fun depth => (⟨depth + 1, some depth⟩ : Note)) (List.mem_range.mpr (small d rfl)))

theorem Depths.bounded (depths : Depths) : ∃ bound, ∀ i d : Nat, depths[i]? = some d → d < bound := by
  refine ⟨(depths.toList.map Prod.snd).sum + 1, fun i d found => Nat.lt_succ_of_le ?_⟩
  have member := List.mem_map_of_mem (f := Prod.snd) (Std.TreeMap.mem_toList_iff_getElem?_eq_some.mpr found)
  exact List.le_sum_of_mem member

-- The codes of two tables in one.
theorem Depths.common (first second : Depths) (place : Position → Position) : ∃ table : Depths,
    Renaming.Agrees ⟨first.code, place⟩ first table ∧ Renaming.Agrees ⟨second.code, place⟩ second table := by
  obtain ⟨bound, small⟩ := first.bounded
  obtain ⟨bound', small'⟩ := second.bounded
  refine ⟨codes (bound + bound'), fun i => codes_get _ _ fun d found => ?_, fun i => codes_get _ _ fun d found => ?_⟩
  · exact Nat.lt_add_right bound' (small i d found)
  · exact Nat.lt_add_left bound (small' i d found)

-- Two machines that differ in the ids of references, with the same depths for them, and in the
-- places of tokens as far as these are forgotten. The depths themselves are left out.
structure Machine.Alike (place : Position → Position) (m n : Machine) : Prop where
  store : m.store.rename ⟨m.depths.code, place⟩ = n.store.rename ⟨n.depths.code, place⟩
  globals : m.globals = n.globals
  scope : m.scope = n.scope
  sink : m.sink = n.sink
  clock : m.clock = n.clock

-- Two runs that come to the same, with results that become one.
inductive Twins (place : Position → Position) (f : α → γ) (g : β → γ) :
    EStateM.Result Halt Machine α → EStateM.Result Halt Machine β → Prop where
  | ok {a : α} {b : β} {m n : Machine} (results : f a = g b) (alike : m.Alike place n) :
      Twins place f g (.ok a m) (.ok b n)
  | error {halt halt' : Halt} {m n : Machine} (halts : halt.rename ⟨id, place⟩ = halt'.rename ⟨id, place⟩)
      (alike : m.Alike place n) : Twins place f g (.error halt m) (.error halt' n)

-- Two runs of statements, of which it matters only whether they went through.
inductive Together (place : Position → Position) : EStateM.Result Halt Machine Ending →
    EStateM.Result Halt Machine Ending → Prop where
  | ok {flow flow' : Ending} {m n : Machine} (flows : flow = .normal ↔ flow' = .normal) (alike : m.Alike place n) :
      Together place (.ok flow m) (.ok flow' n)
  | fault {f g : RuntimeFault} {m n : Machine} (faults : f.rename ⟨id, place⟩ = g.rename ⟨id, place⟩)
      (alike : m.Alike place n) : Together place (.error (.fault f) m) (.error (.fault g) n)
  | outOfFuel {m n : Machine} (alike : m.Alike place n) :
      Together place (.error .outOfFuel m) (.error .outOfFuel n)

namespace Together

variable {place : Position → Position} {x y : EStateM.Result Halt Machine Ending} {n : Machine}

theorem of_normal (h : Together place x (.ok .normal n)) : ∃ m, x = .ok .normal m ∧ m.Alike place n := by
  cases h with
  | ok flows alike =>
    obtain rfl := flows.mpr rfl
    exact ⟨_, rfl, alike⟩

theorem of_fault {f : RuntimeFault} (h : Together id x (.error (.fault f) n)) :
    ∃ m, x = .error (.fault f) m ∧ m.Alike id n := by
  cases h with
  | @fault g f m n faults alike =>
    obtain rfl : g = f := faults
    exact ⟨m, rfl, alike⟩

theorem exhausted (h : Together place x y) : Exhausted x ↔ Exhausted y := by
  cases h with
  | ok flows alike => exact ⟨nofun, nofun⟩
  | fault faults alike => exact ⟨nofun, nofun⟩
  | @outOfFuel m n alike => exact ⟨fun _ => ⟨n, rfl⟩, fun _ => ⟨m, rfl⟩⟩

end Together

theorem Ending.rename_normal (ρ : Renaming) (e : Ending) : e.rename ρ = .normal ↔ e = .normal := by
  cases e <;> simp [rename]

theorem Twins.together {place : Position → Position} {ρ τ : Renaming} {x y : EStateM.Result Halt Machine Ending}
    (h : Twins place (Ending.rename ρ) (Ending.rename τ) x y) : Together place x y := by
  cases h with
  | @ok flow flow' m n flows alike =>
    refine .ok ?_ alike
    rw [← flow.rename_normal ρ, flows, flow'.rename_normal]
  | @error halt halt' m n halts alike =>
    cases halt with
    | fault f =>
      cases halt' with
      | fault g => exact .fault (Halt.fault.inj halts) alike
      | outOfFuel => cases halts
    | outOfFuel =>
      cases halt' with
      | fault g => cases halts
      | outOfFuel => exact .outOfFuel alike

namespace Machine.Alike

variable {place : Position → Position} {m n : Machine}

theorem refl (m : Machine) : m.Alike place m := ⟨rfl, rfl, rfl, rfl, rfl⟩

theorem symm (h : m.Alike place n) : n.Alike place m :=
  ⟨h.store.symm, h.globals.symm, h.scope.symm, h.sink.symm, h.clock.symm⟩

theorem trans {last : Machine} (h : m.Alike place n) (more : n.Alike place last) : m.Alike place last :=
  ⟨h.store.trans more.store, h.globals.trans more.globals, h.scope.trans more.scope, h.sink.trans more.sink,
    h.clock.trans more.clock⟩

theorem renamed (h : m.Alike place n) (table : Depths) :
    m.rename ⟨m.depths.code, place⟩ table = n.rename ⟨n.depths.code, place⟩ table := by
  obtain ⟨store, globals, scope, sink, clock⟩ := h
  unfold Machine.rename
  rw [store, globals, scope, sink, clock]

theorem of_renamed {table : Depths}
    (h : m.rename ⟨m.depths.code, place⟩ table = n.rename ⟨n.depths.code, place⟩ table) : m.Alike place n := by
  obtain ⟨store, globals, scope, -, sink, clock⟩ := Machine.mk.inj h
  exact ⟨store, globals, scope, sink, clock⟩

theorem forget (h : m.Alike id n) (place : Position → Position) : m.Alike place n := by
  refine ⟨?_, h.globals, h.scope, h.sink, h.clock⟩
  have store := congrArg (Store.rename ⟨id, place⟩) h.store
  rwa [Store.rename_rename, Store.rename_rename] at store

-- Two runs that one run stands for, after renaming, come to the same.
theorem twins (h : m.Alike place n) {table : Depths} {f : α → γ} {g : β → γ} {x : Running α} {y : Running β}
    {z : Running γ} (one : Renames ⟨m.depths.code, place⟩ m.depths table f x z)
    (other : Renames ⟨n.depths.code, place⟩ n.depths table g y z) : Twins place f g (x m) (y n) := by
  have first := one m rfl
  have second := other n rfl
  rw [h.renamed table] at first
  cases ran : x m with
  | ok a after =>
    rw [ran] at first
    cases ran' : y n with
    | ok b after' =>
      rw [ran'] at second
      obtain ⟨results, machines⟩ := EStateM.Result.ok.inj (first.2.symm.trans second.2)
      rw [← first.1.depths, ← second.1.depths] at machines
      exact .ok results (.of_renamed machines)
    | error halt' after' =>
      rw [ran', first.2] at second
      cases second.2
  | error halt after =>
    rw [ran] at first
    cases ran' : y n with
    | ok b after' =>
      rw [ran', first.2] at second
      cases second.2
    | error halt' after' =>
      rw [ran'] at second
      obtain ⟨halts, machines⟩ := EStateM.Result.error.inj (first.2.symm.trans second.2)
      rw [← first.1.depths, ← second.1.depths] at machines
      exact .error halts (.of_renamed machines)

-- Code that is the same up to its ids does the same on both.
theorem together (h : m.Alike place n) {ss ts : List Stmt} (fuel : Nat)
    (same : Stmt.renameAll ⟨m.depths.code, place⟩ ss = Stmt.renameAll ⟨n.depths.code, place⟩ ts) :
    Together place (Stmt.executeAll fuel ss m) (Stmt.executeAll fuel ts n) := by
  obtain ⟨table, agrees, agrees'⟩ := m.depths.common n.depths place
  have one := (commuting agrees fuel).stmts ss
  rw [same] at one
  exact (h.twins one ((commuting agrees' fuel).stmts ts)).together

end Machine.Alike

end ScopeScript
