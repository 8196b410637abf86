import ScopeScript.Proofs.Scoping.Caution

namespace ScopeScript

theorem Spot.mem_alerts {root : Spot} {w : Warning} : w ∈ root.alerts ↔ ∃ S, root.Within S ∧ w ∈ S.cautions := by
  unfold Spot.alerts
  rw [List.mem_flatMap]
  refine exists_congr fun S => and_congr_left' ?_
  rw [root.closing_perm.mem_iff, Spot.mem_everywhere]

theorem Spot.unused_caution {S : Spot} : ⟨.unusedVariable, t⟩ ∈ S.cautions ↔ t ∈ S.opens ∧ t ∉ S.bound := by
  unfold Spot.cautions spare
  simp [List.mem_mergeSort]

-- A region has the names of the code that it is opened for.
theorem Spot.Opener.opens {S : Spot} {region : Region} (h : S.Opener region) (declared : t ∈ region.declares) :
    t ∈ S.opens := by
  cases h with
  | block | routine => exact declared
  | receiver => cases declared

-- What refers to a name of a region lies in the code that opens the region.
theorem Spot.Clean.bound_iff {root S : Spot} (clean : root.Clean) (single : root.code.names.Nodup)
    (within : root.Within S) (opened : t ∈ S.opens) : t ∈ S.bound ↔ t ∈ root.bound := by
  constructor
  · intro bound
    obtain ⟨link, member, rfl⟩ := List.mem_map.mp bound
    obtain ⟨σ, e, inside, given⟩ := Spot.mem_linking.mp member
    exact List.mem_map_of_mem (Spot.mem_linking.mpr ⟨σ, e, within.inside inside, given⟩)
  · intro bound
    obtain ⟨link, member, rfl⟩ := List.mem_map.mp bound
    obtain ⟨σ, e, inside, refers, binder⟩ := Spot.mem_linking.mp member
    obtain ⟨f, around, -, -, seen, -⟩ := Setting.binder?_some binder
    have outside : f.region ∉ root.setting.regions := by
      rw [clean.outermost]
      exact List.not_mem_nil
    obtain ⟨T, within', opener, below⟩ := inside.opener (List.mem_map_of_mem around) outside
    cases Spot.opens_unique single within within' opened (opener.opens (clean.seen inside around seen))
    exact List.mem_map_of_mem (Spot.mem_linking.mpr ⟨σ, e, below, refers, binder⟩)

-- Nothing anywhere refers to a name that is warned of.
theorem Spot.Clean.unbound {root : Spot} (clean : root.Clean) (single : root.code.names.Nodup)
    (alerted : ⟨.unusedVariable, t⟩ ∈ root.alerts) : t ∉ root.bound := by
  obtain ⟨S, within, caution⟩ := Spot.mem_alerts.mp alerted
  obtain ⟨opened, unbound⟩ := Spot.unused_caution.mp caution
  exact fun bound => unbound ((clean.bound_iff single within opened).mpr bound)

namespace Revision

-- Leaves out the declaration.
def without (t : Token) : Revision := ⟨id, fun _ => id, (· == t), fun _ => false, fun _ => false⟩

-- Leaves out what follows the return.
def cut (keyword : Token) : Revision := ⟨id, fun _ => id, fun _ => false, (· == keyword), fun _ => false⟩

variable {root : Spot} {t : Token}

theorem without_respects {σ : Setting} {initial : Option Expr} (clean : root.Clean) (single : root.code.names.Nodup)
    (inside : root.Within ⟨σ, .stmt (.var t initial)⟩) (framed : σ.frames ≠ [])
    (idle : initial = none ∨ ∃ value, initial = some (.literal value))
    (alerted : ⟨.unusedVariable, t⟩ ∈ root.alerts) : (without t).Respects root where
  omits here u declared omitted := by
    cases beq_iff_eq.mp omitted
    cases Spot.named_unique single here inside declared (List.mem_singleton_self t)
    rcases idle with rfl | ⟨value, rfl⟩
    · exact beq_self_eq_true t
    · exact beq_self_eq_true t
  parameters here u declared := by
    refine beq_eq_false_iff_ne.mpr fun same => ?_
    subst same
    cases Spot.named_unique single here inside declared (List.mem_singleton_self u)
  still here outside u declared := by
    refine ⟨beq_eq_false_iff_ne.mpr fun same => ?_, rfl⟩
    subst same
    cases Spot.named_unique single here inside declared (List.mem_singleton_self u)
    rcases outside with global | other
    · exact framed global
    · exact other _ _ rfl
  apart _ _ _ _ same := same
  follows here refers u binder := by
    refine ⟨beq_eq_false_iff_ne.mpr fun same => ?_, ?_⟩
    · subst same
      have linked : ⟨_, _, u⟩ ∈ root.linking := Spot.mem_linking.mpr ⟨_, _, here, refers, binder⟩
      exact clean.unbound single alerted (List.mem_map_of_mem linked)
    · obtain ⟨_, _, _, _, _, same⟩ := Setting.binder?_some binder
      exact same.symm
  stays _ _ _ := rfl
  meets _ _ _ _ same := same
  receivers _ _ := .rfl

theorem cut_respects (root : Spot) (keyword : Token) : (cut keyword).Respects root where
  omits := nofun
  parameters _ _ _ := rfl
  still _ _ _ _ := ⟨rfl, rfl⟩
  apart _ _ _ _ same := same
  follows _ _ _ binder := by
    obtain ⟨_, _, _, _, _, same⟩ := Setting.binder?_some binder
    exact ⟨rfl, same.symm⟩
  stays _ _ _ := rfl
  meets _ _ _ _ same := same
  receivers _ _ := .rfl

end Revision

end ScopeScript
