import ScopeScript.Proofs.Scoping.Place

namespace ScopeScript

-- The tokens and references of a region's own code.
def Region.mentions : Region → List Mention
  | block body => Stmt.mentionsAll body
  | routine r => r.mentions
  | receiver methods => Routine.mentionsAll methods

-- The code that a region is opened for.
inductive Spot.Opener : Spot → Region → Prop where
  | block : Opener ⟨σ, .stmt (.block body)⟩ (.block body)
  | routine : Opener ⟨σ, .routine kind r⟩ (.routine r)
  | receiver {methods : List Routine} : Opener ⟨σ, .stmt (.classes name methods)⟩ (.receiver methods)

-- Code stands in the regions of the code around it, or right in one more that is opened for that code.
theorem Spot.parts_opener {S T : Spot} (member : T ∈ S.parts) : T.setting.regions = S.setting.regions ∨
    ∃ region, S.Opener region ∧ T.setting.regions = region :: S.setting.regions := by
  obtain ⟨σ, code⟩ := S
  cases code with
  | expr e =>
    obtain ⟨part, _, rfl⟩ := List.mem_map.mp member
    exact .inl rfl
  | routine kind r =>
    cases List.mem_singleton.mp member
    exact .inr ⟨_, .routine, rfl⟩
  | stmts ss =>
    cases ss with
    | nil => cases member
    | cons s rest =>
      rcases List.mem_cons.mp member with rfl | later
      · exact .inl rfl
      · cases List.mem_singleton.mp later
        exact .inl (σ.regions_declare _)
  | stmt s =>
    cases s with
    | expression value | print keyword value =>
      cases List.mem_singleton.mp member
      exact .inl rfl
    | var name initial =>
      cases initial with
      | none => cases member
      | some e =>
        cases List.mem_singleton.mp member
        exact .inl (σ.regions_initializing _)
    | giveBack keyword value =>
      cases value with
      | none => cases member
      | some e =>
        cases List.mem_singleton.mp member
        exact .inl rfl
    | leave keyword => cases member
    | function routine =>
      cases List.mem_singleton.mp member
      exact .inl (σ.regions_declare _)
    | loop condition body =>
      rcases List.mem_cons.mp member with rfl | later
      · exact .inl rfl
      · cases List.mem_singleton.mp later
        exact .inl rfl
    | branch condition yes no =>
      refine .inl ?_
      cases no with
      | none =>
        simp only [Spot.parts, Stmt.parts, List.mem_cons, List.not_mem_nil, or_false] at member
        rcases member with rfl | rfl <;> rfl
      | some no =>
        simp only [Spot.parts, Stmt.parts, List.mem_cons, List.not_mem_nil, or_false] at member
        rcases member with rfl | rfl | rfl <;> rfl
    | block body =>
      cases List.mem_singleton.mp member
      exact .inr ⟨_, .block, rfl⟩
    | classes name methods =>
      obtain ⟨r, inside, rfl⟩ := List.mem_map.mp member
      exact .inr ⟨_, .receiver, congrArg (_ :: ·) (σ.regions_declare [name])⟩

theorem Spot.Opener.mentions {S : Spot} {region : Region} (h : S.Opener region) :
    ∀ m ∈ region.mentions, m ∈ S.code.mentions := by
  cases h with
  | block => exact fun m => id
  | routine => exact fun m => id
  | receiver => exact fun m => List.mem_cons_of_mem _

theorem Spot.parts_mentions_opened {S T : Spot} (member : T ∈ S.parts) {region : Region} (h : S.Opener region) :
    ∀ m ∈ T.code.mentions, m ∈ region.mentions := by
  intro m mentioned
  cases h with
  | block =>
    cases List.mem_singleton.mp member
    exact mentioned
  | @routine σ kind r =>
    cases List.mem_singleton.mp member
    obtain ⟨head, parameters, body⟩ := r
    exact List.mem_append_right _ mentioned
  | receiver =>
    obtain ⟨r, inside, rfl⟩ := List.mem_map.mp member
    exact Routine.mem_mentionsAll inside mentioned

-- Around code there are regions of the source, and the code lies in each of them.
theorem Spot.Within.region {root S : Spot} (inside : root.Within S) (outermost : root.setting = .outermost)
    {region : Region} (around : region ∈ S.setting.regions) :
    (∀ m ∈ S.code.mentions, m ∈ region.mentions) ∧ ∀ m ∈ region.mentions, m ∈ root.code.mentions := by
  induction inside with
  | root =>
    rw [outermost] at around
    cases around
  | part inside member ih =>
    rcases Spot.parts_opener member with same | ⟨inner, opener, same⟩
    · rw [same] at around
      obtain ⟨within, outer⟩ := ih around
      exact ⟨fun m mentioned => within m (Spot.parts_mentions member m mentioned), outer⟩
    · rw [same] at around
      rcases List.mem_cons.mp around with rfl | further
      · exact ⟨Spot.parts_mentions_opened member opener, fun m mentioned => inside.mentions m (opener.mentions m mentioned)⟩
      · obtain ⟨within, outer⟩ := ih further
        exact ⟨fun m mentioned => within m (Spot.parts_mentions member m mentioned), outer⟩

-- Every region around code was opened for code around it.
theorem Spot.Within.opener {root T : Spot} (inside : root.Within T) {region : Region}
    (around : region ∈ T.setting.regions) (outside : region ∉ root.setting.regions) :
    ∃ S, root.Within S ∧ S.Opener region ∧ S.Within T := by
  induction inside with
  | root => exact absurd around outside
  | part inside member ih =>
    have deeper : region ∈ _ → _ := fun there => (ih there).imp fun S ⟨within, opener, below⟩ =>
      And.intro within (And.intro opener (Spot.Within.part below member))
    rcases Spot.parts_opener member with same | ⟨inner, opener, same⟩
    · exact deeper (same ▸ around)
    · rw [same] at around
      rcases List.mem_cons.mp around with rfl | further
      · exact ⟨_, inside, opener, .part .root member⟩
      · exact deeper further

end ScopeScript
