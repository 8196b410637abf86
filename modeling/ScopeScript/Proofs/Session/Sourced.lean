import ScopeScript.Proofs.Running.Bear
import ScopeScript.Proofs.Scoping.Remain
import ScopeScript.Proofs.Session.Read

namespace ScopeScript

-- Code somewhere in a tree that was read from a source.
def Code.Sourced (code : Code) : Prop :=
  ∃ (q : Inquiry) (s : Session) (root S : Spot), (q.root s).1 = .done root ∧ root.Within S ∧ S.code = code

-- The same of a tree that the resolver has nothing against.
def Code.Cleared (code : Code) : Prop :=
  ∃ (q : Inquiry) (s : Session) (root S : Spot), (q.root s).1 = .done root ∧ root.code.resolution.faults = [] ∧
    root.Within S ∧ S.code = code

theorem Code.Cleared.sourced {code : Code} (h : code.Cleared) : code.Sourced := by
  obtain ⟨q, s, root, S, done, -, inside, same⟩ := h
  exact ⟨q, s, root, S, done, inside, same⟩

theorem Spot.Within.onward {root S : Spot} (inside : root.Within S) {part : Code} (member : part ∈ S.code.parts) :
    ∃ T, root.Within T ∧ T.code = part := by
  rw [← S.parts_code] at member
  obtain ⟨T, among, rfl⟩ := List.mem_map.mp member
  exact ⟨T, .part inside among, rfl⟩

theorem Code.sourced_inherits : Code.Inherits Code.Sourced := by
  rintro _ ⟨q, s, root, S, done, inside, rfl⟩ part member
  obtain ⟨T, within, same⟩ := inside.onward member
  exact ⟨q, s, root, T, done, within, same⟩

theorem Code.cleared_inherits : Code.Inherits Code.Cleared := by
  rintro _ ⟨q, s, root, S, done, clean, inside, rfl⟩ part member
  obtain ⟨T, within, same⟩ := inside.onward member
  exact ⟨q, s, root, T, done, clean, within, same⟩

namespace Code.Derived

variable {code : Code} {w : List Token}

theorem apt (h : code.Derived w) : code.Throughout Code.Apt := by
  cases h with
  | stmts h => exact h.apt
  | expr h => exact h.apt

theorem obeys (h : code.Derived w) (clean : code.resolution.faults = []) : Spot.Obeys ⟨.outermost, code⟩ := by
  refine (Spot.findings_nil_iff _).mp ?_
  cases h with
  | stmts h => exact (resolveProgram_finds h.formed).symm.trans clean
  | expr h =>
    have found := Expr.resolve_finds (w := .start) (σ := .outermost) _ h.formed ⟨.nil, rfl, rfl, rfl⟩ .nil
    exact found.symm.trans clean

end Code.Derived

theorem Code.Sourced.apt {code : Code} (h : code.Sourced) : code.Apt := by
  obtain ⟨q, s, root, S, done, inside, rfl⟩ := h
  obtain ⟨body, stop, -, -, -, derived, -, -⟩ := Inquiry.root_done (Prod.ext done rfl)
  exact (derived.apt.within inside).here

-- Parameters of one routine have different names.
theorem Routine.Owned.distinct {r : Routine} (h : r.Owned Code.Cleared) : (r.parameters.map (·.lexeme)).Nodup := by
  obtain ⟨kind, q, s, root, ⟨σ, _⟩, done, clean, inside, rfl⟩ := h
  obtain ⟨body, stop, -, -, outermost, derived, -, -⟩ := Inquiry.root_done (Prod.ext done rfl)
  obtain ⟨setting, code⟩ := root
  cases outermost
  exact (derived.obeys clean).parameters inside

end ScopeScript
