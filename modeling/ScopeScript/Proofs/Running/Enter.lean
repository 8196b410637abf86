import ScopeScript.Proofs.Running.Run

namespace ScopeScript

theorem foldl_put_other {pairs : List (Token × Value)} {name : String} (apart : ∀ pair ∈ pairs, pair.1.lexeme ≠ name)
    (start : Names Value) :
    (pairs.foldl (fun names pair => Names.put pair.1.lexeme pair.2 names) start).get? name = start.get? name := by
  induction pairs generalizing start with
  | nil => rfl
  | cons pair rest ih =>
    obtain ⟨first, others⟩ := List.forall_mem_cons.mp apart
    exact (ih others _).trans ((Names.get?_put ..).trans (if_neg (Ne.symm first)))

theorem foldl_put_own {pairs : List (Token × Value)} (single : (pairs.map (·.1.lexeme)).Nodup) (start : Names Value) :
    ∀ pair ∈ pairs, (pairs.foldl (fun names pair => Names.put pair.1.lexeme pair.2 names) start).get? pair.1.lexeme =
      some pair.2 := by
  induction pairs generalizing start with
  | nil => exact nofun
  | cons first rest ih =>
    obtain ⟨apart, later⟩ := List.nodup_cons.mp single
    intro pair member
    rcases List.mem_cons.mp member with rfl | further
    · have others : ∀ other ∈ rest, other.1.lexeme ≠ pair.1.lexeme := fun other inside same =>
        apart (List.mem_map.mpr ⟨other, inside, same⟩)
      exact (foldl_put_other others _).trans ((Names.get?_put ..).trans (if_pos rfl))
    · exact ih later _ pair further

variable {parameters : List Token} {values : List Value}

-- With as many values as parameters, pairing them leaves out none.
theorem zip_whole (counted : values.length = parameters.length) :
    (parameters.zip values).map Prod.fst = parameters ∧ (parameters.zip values).map Prod.snd = values :=
  ⟨List.map_fst_zip (Nat.le_of_eq counted.symm), List.map_snd_zip (Nat.le_of_eq counted)⟩

theorem parameterBindings_own (counted : values.length = parameters.length)
    (single : (parameters.map (·.lexeme)).Nodup) :
    ∀ pair ∈ parameters.zip values, (parameterBindings parameters values).get? pair.1.lexeme = some pair.2 := by
  refine foldl_put_own ?_ []
  have keys : (parameters.zip values).map (·.1.lexeme) = ((parameters.zip values).map Prod.fst).map (·.lexeme) := by
    rw [List.map_map]
    rfl
  rw [keys, (zip_whole counted).1]
  exact single

-- A body begins in a scope of its own that binds the parameters.
theorem enterBody_exact (r : Routine) (closure : ScopeId) (values : List Value) (m : Machine) :
    ∃ scope after, enterBody r closure values m = .ok scope after ∧
      ∀ name, after.store.own? scope name = (parameterBindings r.parameters values).get? name := by
  refine ⟨_, _, rfl, fun name => ?_⟩
  exact (Store.own?_openScope ..).trans (if_pos rfl)

end ScopeScript
