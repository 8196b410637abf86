import ScopeScript.Proofs.Running.Echo
import ScopeScript.Proofs.Running.Uphold
import ScopeScript.Proofs.Scoping.Remain

namespace ScopeScript

namespace Revision

variable {V : Revision} {region : Region}

theorem key_declared (plain : V.takes t.lexeme = false)
    (find : region.declares.find? (·.lexeme == t.lexeme) = some t) :
    V.key region t.lexeme = if V.omits t then none else some (V.declare t).lexeme := by
  unfold key
  rw [plain, if_neg Bool.false_ne_true, find]

theorem key_bare (plain : V.takes name = false) (none : region.declares = []) : V.key region name = some name := by
  unfold key
  rw [plain, if_neg Bool.false_ne_true, none]
  rfl

namespace Respects

variable {root : Spot} {σ : Setting}

-- Where a statement binds its names, the changed program has them as it spells them.
theorem settles (h : V.Respects root) (clean : root.Clean)
    (plain : ∀ m ∈ root.code.mentions, V.takes m.token.lexeme = false) {s : Stmt} {a : Scene} {flow : Ending}
    (inside : root.Within ⟨σ, .stmt s⟩)
    (label : a.labels[a.machine.scope]? = some σ.regions.head?) : V.Settles s flow a := by
  intro _ t member
  have dropped : V.drops s = V.omits t := by
    cases omitted : V.omits t with
    | true => exact h.omits inside t member omitted
    | false =>
      refine Bool.eq_false_iff.mpr fun dropped => ?_
      obtain ⟨u, initial, rfl, gone, -⟩ := Revision.dropped_var dropped
      cases List.mem_singleton.mp member
      rw [omitted] at gone
      cases gone
  refine ⟨?_, fun other => (h.still inside (.inr other) t member).2⟩
  rw [label, dropped]
  cases frames : σ.frames with
  | nil =>
    obtain ⟨kept, same⟩ := h.still inside (.inl frames) t member
    have bare : σ.regions.head? = none := by
      rw [Setting.regions, frames]
      rfl
    rw [bare, kept, same]
    rfl
  | cons f outer =>
    have near : σ.regions.head? = some f.region := by
      rw [Setting.regions, frames]
      rfl
    have around : f.region ∈ σ.regions := List.mem_of_mem_head? near
    have named : t ∈ root.code.names := declares_named inside member
    have mentioned : V.takes t.lexeme = false := by
      obtain ⟨m, there, rfl⟩ := List.mem_map.mp ((namesOf_sublist _).subset named)
      exact plain m there
    rw [near]
    exact key_declared mentioned (clean.find inside around (clean.mine inside frames member))

theorem fits (h : V.Respects root) (clean : root.Clean)
    (plain : ∀ m ∈ root.code.mentions, V.takes m.token.lexeme = false) {region : Region}
    (laid : region.Laid root.Within) : V.Fits region := by
  cases region with
  | block | receiver => trivial
  | routine r =>
    obtain ⟨σ, kind, inside⟩ := laid
    have body : root.Within ⟨σ.enterRoutine kind r, .stmts r.body⟩ := .part inside (List.mem_singleton_self _)
    refine ⟨Routine.Ordered.formed (clean.ordered inside), fun t member => ?_⟩
    have named : t ∈ (Code.routine kind r).names := by
      have own := (Spot.parts_names ⟨σ, .routine kind r⟩).mem_iff (a := t)
      exact own.mpr (List.mem_append_left _ member)
    have mentioned : V.takes t.lexeme = false := by
      obtain ⟨m, there, rfl⟩ := List.mem_map.mp ((namesOf_sublist _).subset named)
      exact plain m (inside.mentions m there)
    have found := clean.find body List.mem_cons_self (List.mem_append_left _ member)
    rw [key_declared mentioned found, h.parameters inside t member]
    rfl

-- What keeps the name of a reference, where it is found.
theorem key_near (h : V.Respects root) (clean : root.Clean)
    (plain : ∀ m ∈ root.code.mentions, V.takes m.token.lexeme = false) {e : Expr} {i : RefId} {name : Token} {f : Frame}
    (inside : root.Within ⟨σ, .expr e⟩) (refers : e.Refers i name)
    (first : σ.frames.find? (·.declares name.lexeme) = some f) :
    V.key f.region name.lexeme = some (V.refer i name).lexeme := by
  have mentioned : V.takes name.lexeme = false := plain _ (inside.mentions _ refers.mentioned)
  have member : f ∈ σ.frames := List.mem_of_find?_eq_some first
  have binder : σ.binder? name.lexeme = f.binder? name.lexeme := by
    unfold Setting.binder?
    rw [first]
    rfl
  cases found : f.binder? name.lexeme with
  | some t =>
    obtain ⟨kept, same⟩ := h.follows inside refers t (binder.trans found)
    have seen : t ∈ f.seen := List.mem_of_find?_eq_some found
    have spelled : t.lexeme = name.lexeme := beq_iff_eq.mp (List.find?_some (p := fun t : Token => t.lexeme == name.lexeme) found)
    have around : f.region ∈ σ.regions := List.mem_map_of_mem member
    rw [← spelled] at mentioned ⊢
    rw [key_declared mentioned (clean.find inside around (clean.seen inside member seen)), kept, same]
    rfl
  | none =>
    have unseen : f.seen.any (·.lexeme == name.lexeme) = false := by
      refine Bool.eq_false_iff.mpr fun seen => ?_
      obtain ⟨t, known, same⟩ := List.any_eq_true.mp seen
      exact List.find?_eq_none.mp found t known same
    have declared := List.find?_some first
    change (_ || _) = true at declared
    rw [unseen, Bool.false_or] at declared
    have receiver := (Bool.and_eq_true_iff.mp declared).1
    have none : f.region.declares = [] := by
      cases region : f.region with
      | receiver => rfl
      | block | routine =>
        rw [region] at receiver
        cases receiver
    rw [key_bare mentioned none, h.stays inside refers (binder.trans found)]

-- A look-up of the changed program goes where it went.
theorem finds (h : V.Respects root) (keyed : V.Keyed) (clean : root.Clean)
    (plain : ∀ m ∈ root.code.mentions, V.takes m.token.lexeme = false) {e : Expr} {i : RefId} {name : Token} {m : Moment}
    (inside : root.Within ⟨σ, .expr e⟩) (refers : e.Refers i name) (looks : m.Looks σ i name) :
    V.Finds m.scene i name := by
  have depths : (m.scene.revise V).depths[i]? = m.scene.machine.depths[i]? := rfl
  cases depth : m.scene.machine.depths[i]? with
  | some d =>
    obtain ⟨f, scope, frame, declares, there, holds, nearer⟩ := looks.near depth
    have first : σ.frames.find? (·.declares name.lexeme) = some f := by
      obtain ⟨known, same⟩ := List.getElem?_eq_some_iff.mp frame
      refine List.find?_eq_some_iff_getElem.mpr ⟨declares, d, known, same, fun j before => ?_⟩
      have other := nearer j before _ (List.getElem?_eq_getElem (Nat.lt_trans before known))
      rw [other]
      rfl
    have kept : V.keyAt m.scene.labels[scope]? name.lexeme = some (V.refer i name).lexeme := by
      rw [holds.label]
      exact h.key_near clean plain inside refers first
    have target := looks.target_near depth there
    refine ⟨?_, fun other found => ?_⟩
    · rw [target]
      unfold Machine.target?
      rw [depths, depth]
      dsimp only
      unfold Store.binderAt?
      show ((m.scene.machine.store.revise V m.scene.labels).chain m.scene.machine.scope)[d]?.filter _ = _
      rw [Store.revise_chain, looks.link there, Option.filter_some]
      show (if (m.scene.machine.store.revise V m.scene.labels).binds scope _ = true then _ else _) = _
      rw [Store.revise_binds keyed kept]
    · rw [target] at found
      split at found
      · cases found
        exact kept
      · cases found
  | none =>
    have far := looks.far depth
    have missing : σ.binder? name.lexeme = none := by
      unfold Setting.binder?
      rw [List.find?_eq_none.mpr fun f member found => by
        rw [far f member] at found
        cases found]
      rfl
    have same := h.stays inside refers missing
    have kept : V.keyAt m.scene.labels[m.scene.machine.globals]? name.lexeme = some name.lexeme := by
      rw [looks.bare]
      rfl
    have target := looks.target_far depth
    unfold Finds
    rw [same]
    refine ⟨?_, fun other found => ?_⟩
    · rw [target]
      unfold Machine.target?
      rw [depths, depth]
      dsimp only
      unfold Store.binder?
      show ((m.scene.machine.store.revise V m.scene.labels).chain m.scene.machine.globals).find?
        (fun id => (m.scene.machine.store.revise V m.scene.labels).binds id name.lexeme) = _
      rw [Store.revise_chain, looks.alone, List.find?_singleton, Store.revise_binds keyed kept]
    · rw [target] at found
      split at found
      · cases found
        exact kept
      · cases found

-- A sound record serves every change that respects the code.
theorem serves (h : V.Respects root) (keyed : V.Keyed) (clean : root.Clean)
    (plain : ∀ m ∈ root.code.mentions, V.takes m.token.lexeme = false) {r : Record} (sound : r.Sound root.Within) :
    r.Serves V where
  regions region label := h.fits clean plain (sound.scene.laid region label)
  moments m member := by
    obtain ⟨-, tells, shows, -⟩ := sound.moments m member
    obtain ⟨here, a, event⟩ := m
    cases event with
    | refers i name =>
      obtain ⟨σ, e, inside, refers, looks⟩ := tells
      exact h.finds keyed clean plain inside refers looks
    | ends s flow =>
      cases flow with
      | leave | giveBack => exact fun other => nomatch other
      | normal =>
        obtain ⟨σ, inside, label, -⟩ := shows
        exact h.settles clean plain inside label
    | returns | answers => trivial

end Respects

end Revision

end ScopeScript
