namespace ScopeScript

-- Things bound to names. Only put adds to it, so a name stands in it at most once.
abbrev Names (α : Type) := List (String × α)

namespace Names

def get? (names : Names α) (name : String) : Option α := names.lookup name

def binds (names : Names α) (name : String) : Bool := (names.get? name).isSome

def put (name : String) (thing : α) : Names α → Names α
  | [] => [(name, thing)]
  | (other, old) :: rest =>
    if name = other then (name, thing) :: rest else (other, old) :: put name thing rest

theorem get?_nil (name : String) : get? ([] : Names α) name = none := rfl

theorem get?_cons (name other : String) (thing : α) (rest : Names α) :
    get? ((other, thing) :: rest) name = if name = other then some thing else rest.get? name := by
  unfold get?
  rw [List.lookup_cons]
  by_cases same : name = other
  · simp [same]
  · have differ : (name == other) = false := beq_eq_false_iff_ne.mpr same
    rw [if_neg same, differ]

theorem get?_put (names : Names α) (name : String) (thing : α) (asked : String) :
    get? (put name thing names) asked = if asked = name then some thing else names.get? asked := by
  induction names with
  | nil => exact get?_cons asked name thing []
  | cons row rest ih =>
    obtain ⟨other, old⟩ := row
    unfold put
    by_cases same : name = other
    · rw [if_pos same, get?_cons, get?_cons]
      subst same
      by_cases here : asked = name
      · rw [if_pos here, if_pos here]
      · rw [if_neg here, if_neg here, if_neg here]
    · rw [if_neg same, get?_cons, get?_cons, ih]
      by_cases there : asked = other
      · have apart : asked ≠ name := fun h => same (h ▸ there)
        rw [if_pos there, if_neg apart, if_pos there]
      · rw [if_neg there, if_neg there]

theorem binds_put (names : Names α) (name : String) (thing : α) (asked : String) :
    binds (put name thing names) asked = (asked == name || names.binds asked) := by
  unfold binds
  rw [get?_put]
  by_cases same : asked = name
  · simp [same]
  · simp [same]

end Names

end ScopeScript
