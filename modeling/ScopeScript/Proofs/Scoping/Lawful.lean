import ScopeScript.Proofs.Scoping.Descend
import ScopeScript.Proofs.Scoping.Proper

namespace ScopeScript

-- What a clean walk establishes of the code that lies somewhere in accepted sources.
structure Lawful (lies : Spot → Prop) (depths : Depths) : Prop where
  part : ∀ {S T}, lies S → T ∈ S.parts → lies T
  proper : ∀ {S}, lies S → S.Proper
  refers : ∀ {σ e i name}, lies ⟨σ, .expr e⟩ → e.Refers i name → depths[i]? = σ.depth name.lexeme
  receives : ∀ {σ i keyword}, lies ⟨σ, .expr (.this i keyword)⟩ → σ.inClass = true
  leaves : ∀ {σ keyword}, lies ⟨σ, .stmt (.leave keyword)⟩ → 0 < σ.loops
  returns : ∀ {σ keyword value}, lies ⟨σ, .stmt (.giveBack keyword value)⟩ → σ.body ≠ .outside
  returnsNone : ∀ {σ keyword value}, lies ⟨σ, .stmt (.giveBack keyword (some value))⟩ →
    σ.body ≠ .initializer
  -- No scope gets a name twice.
  declares : ∀ {σ s f outer}, lies ⟨σ, .stmt s⟩ → σ.frames = f :: outer →
    ∀ t ∈ s.declares, f.declares t.lexeme = false
  branchYes : ∀ {σ condition yes no}, lies ⟨σ, .stmt (.branch condition yes no)⟩ → yes.declares = []
  branchNo : ∀ {σ condition yes no}, lies ⟨σ, .stmt (.branch condition yes (some no))⟩ →
    no.declares = []
  turns : ∀ {σ condition body}, lies ⟨σ, .stmt (.loop condition body)⟩ → body.declares = []

namespace Walk

theorem Grows.clean (h : Grows w final refs) (clean : final.faults = #[]) : w.faults = #[] := by
  have faults := h.faults
  rw [clean] at faults
  exact Array.toList_inj.mp (List.prefix_nil.mp faults)

theorem Grows.keeps (h : Grows w final refs) {note : Note} (member : note ∈ w.notes.toList) :
    note ∈ final.notes.toList := by
  obtain ⟨more, same, _⟩ := h.notes
  rw [same]
  exact List.mem_append_left _ member

theorem fault_not_clean (w : Walk) (cause : StaticCause) (t : Token) : (w.fault cause t).faults ≠ #[] := by
  simp [fault]

end Walk

namespace Spot

variable {final : Walk} {σ : Setting}

theorem Passed.refers {e : Expr} (passed : Passed final ⟨σ, .expr e⟩) (clean : final.faults = #[])
    (refers : e.Refers i name) : ⟨i, σ.depth name.lexeme⟩ ∈ final.notes.toList := by
  obtain ⟨ordered, w, refs, h, grows⟩ := passed
  refine grows.keeps ?_
  have noted : ∀ {w : Walk}, w.Follows σ → ⟨i, σ.depth name.lexeme⟩ ∈ (w.refer i name).notes.toList := by
    intro w h
    simp [(h.refer i name).2]
  cases refers with
  | look =>
    show _ ∈ (Expr.resolve (.variable i name) w).notes.toList
    unfold Expr.resolve
    dsimp only
    split
    · exact noted (h.faulted _ _)
    · exact noted h
  | @assign i name value =>
    have inner : value.Ordered := ordered
    exact noted (value.resolve_follows inner.formed h)
  | this =>
    show _ ∈ (Expr.resolve (.this i name) w).notes.toList
    have faultless := grows.clean clean
    revert faultless
    show (Expr.resolve (.this i name) w).faults = #[] → _
    unfold Expr.resolve
    split
    · exact fun _ => noted h
    · exact fun faultless => absurd faultless (w.fault_not_clean _ _)

theorem Passed.receives (passed : Passed final ⟨σ, .expr (.this i keyword)⟩)
    (clean : final.faults = #[]) : σ.inClass = true := by
  obtain ⟨ordered, w, refs, h, grows⟩ := passed
  have faultless : (Expr.resolve (.this i keyword) w).faults = #[] := grows.clean clean
  unfold Expr.resolve at faultless
  rw [← h.inClass]
  split at faultless
  · assumption
  · exact absurd faultless (w.fault_not_clean _ _)

theorem Passed.leaves (passed : Passed final ⟨σ, .stmt (.leave keyword)⟩)
    (clean : final.faults = #[]) : 0 < σ.loops := by
  obtain ⟨ordered, w, refs, h, grows⟩ := passed
  have faultless : (Stmt.resolve (.leave keyword) w).faults = #[] := grows.clean clean
  unfold Stmt.resolve at faultless
  rw [← h.loops]
  split at faultless
  · exact absurd faultless (w.fault_not_clean _ _)
  · exact Nat.pos_of_ne_zero ‹_›

theorem giveBack_clean {w : Walk} {e : Expr}
    (faultless : (Stmt.resolve (.giveBack keyword (some e)) w).faults = #[]) :
    w.body ≠ .outside ∧ w.body ≠ .initializer := by
  rw [Stmt.resolve] at faultless
  have before := (e.resolve_grows _).clean faultless
  constructor
  · intro outside
    simp [outside, Walk.fault] at before
  · intro initializer
    simp [initializer, Walk.fault] at before

theorem Passed.returns (passed : Passed final ⟨σ, .stmt (.giveBack keyword value)⟩)
    (clean : final.faults = #[]) : σ.body ≠ .outside ∧ (value ≠ none → σ.body ≠ .initializer) := by
  obtain ⟨ordered, w, refs, h, grows⟩ := passed
  have faultless : (Stmt.resolve (.giveBack keyword value) w).faults = #[] := grows.clean clean
  rw [← h.body]
  cases value with
  | none =>
    refine ⟨fun outside => ?_, fun present => absurd rfl present⟩
    rw [Stmt.resolve, if_pos outside] at faultless
    exact w.fault_not_clean _ _ faultless
  | some e =>
    obtain ⟨inside, plain⟩ := giveBack_clean faultless
    exact ⟨inside, fun _ => plain⟩

-- A clean walk declares nothing that its innermost scope already has.
theorem declare_clean {w : Walk} {f : Frame} {outer : List Frame} (h : w.Follows σ)
    (inside : σ.frames = f :: outer) (t : Token) (faultless : (w.declare t).faults = #[]) :
    f.declares t.lexeme = false := by
  have scopes := h.scopes
  rw [inside] at scopes
  cases given : w.scopes with
  | nil => rw [given] at scopes; cases scopes
  | cons names others =>
    rw [given] at scopes
    cases scopes with
    | cons inner rest =>
      rw [← inner t.lexeme]
      unfold Walk.declare at faultless
      rw [given] at faultless
      dsimp only at faultless
      split at faultless
      · exact absurd faultless (Walk.fault_not_clean _ _ _)
      · exact Bool.eq_false_iff.mpr ‹_›

theorem Passed.declares {s : Stmt} (passed : Passed final ⟨σ, .stmt s⟩) (clean : final.faults = #[])
    {f : Frame} {outer : List Frame} (inside : σ.frames = f :: outer) :
    ∀ t ∈ s.declares, f.declares t.lexeme = false := by
  obtain ⟨ordered, w, refs, h, grows⟩ := passed
  have faultless : (s.resolve w).faults = #[] := grows.clean clean
  have declared : ∀ t, (∃ refs, (w.declare t).Grows (s.resolve w) refs) → f.declares t.lexeme = false :=
    fun t ⟨_, later⟩ => declare_clean h inside t (later.clean faultless)
  intro t member
  cases s with
  | var name initial =>
    rw [List.mem_singleton.mp member]
    cases initial with
    | none => exact declared name ⟨_, Walk.grows_settle _ name⟩
    | some e => exact declared name ⟨_, (e.resolve_grows _).trans (Walk.grows_settle _ name)⟩
  | function routine =>
    rw [List.mem_singleton.mp member]
    exact declared _ ⟨_, (Walk.grows_settle _ _).trans (routine.resolve_grows .function _)⟩
  | classes name methods =>
    rw [List.mem_singleton.mp member]
    have settled := (w.declare name).grows_settle name
    have entered : (w.declare name).Grows
        ({ w.introduce name with inClass := true }.enter [(receiverName, ⟨true, true, none⟩)]) [] :=
      ⟨settled.faults, settled.notes⟩
    have left := (entered.trans (Routine.resolveMethods_grows methods _)).trans (Walk.grows_leave _)
    exact declared name ⟨_, left.faults, left.notes⟩
  | _ => cases member

end Spot

-- Where a source stood on the way of a clean walk everything is lawful.
theorem Spot.Passed.lawful {final : Walk} {root : Spot} {depths : Depths}
    (passed : root.Passed final) (clean : final.faults = #[]) (proper : root.Proper)
    (recorded : ∀ note ∈ final.notes.toList, depths[note.id]? = note.depth) :
    Lawful root.Within depths where
  part inside member := .part inside member
  proper inside := inside.proper proper
  receives inside := (inside.passed passed).receives clean
  refers inside refers := recorded _ ((inside.passed passed).refers clean refers)
  leaves inside := (inside.passed passed).leaves clean
  returns inside := ((inside.passed passed).returns clean).1
  returnsNone inside := ((inside.passed passed).returns clean).2 nofun
  declares inside frames := (inside.passed passed).declares clean frames
  branchYes {_ _ _ no} inside := by
    have ordered := (inside.passed passed).1
    cases no with
    | none => exact ordered.2.2
    | some no => exact ordered.2.1.2
  branchNo inside := (inside.passed passed).1.2.2.2
  turns inside := (inside.passed passed).1.2.2

-- Notes on other references leave a depth as it is, and a single note on one sets it.

theorem Depths.noted_other (depths : Depths) (note : Note) (i : RefId) (other : note.id ≠ i) :
    (depths.noted note)[i]? = depths[i]? := by
  unfold Depths.noted
  split
  · rw [Std.TreeMap.getElem?_insert]
    simp [other]
  · rw [Std.TreeMap.getElem?_erase]
    simp [other]

theorem Depths.noted_self (depths : Depths) (note : Note) :
    (depths.noted note)[note.id]? = note.depth := by
  unfold Depths.noted
  split
  · rename_i depth given
    simp [given]
  · rename_i given
    simp [given]

theorem Depths.record_other (depths : Depths) (notes : List Note) (i : RefId)
    (others : i ∉ notes.map Note.id) : (depths.record notes)[i]? = depths[i]? := by
  induction notes generalizing depths with
  | nil => rfl
  | cons note rest ih =>
    rw [List.map_cons, List.mem_cons, not_or] at others
    have later := ih (depths.noted note) others.2
    exact later.trans (depths.noted_other note i (Ne.symm others.1))

theorem Depths.record_exact (depths : Depths) (notes : List Note) (single : (notes.map Note.id).Nodup) :
    ∀ note ∈ notes, (depths.record notes)[note.id]? = note.depth := by
  induction notes generalizing depths with
  | nil => nofun
  | cons first rest ih =>
    rw [List.map_cons, List.nodup_cons] at single
    intro note member
    rcases List.mem_cons.mp member with rfl | later
    · have kept := Depths.record_other (depths.noted note) rest note.id single.1
      exact kept.trans (depths.noted_self note)
    · exact ih (depths.noted first) single.2 note later

end ScopeScript
