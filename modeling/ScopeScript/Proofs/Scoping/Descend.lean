import ScopeScript.Proofs.Grammar.Formed
import ScopeScript.Proofs.Scoping.Follow

namespace ScopeScript

-- A walk over any tree adds notes for references of the tree alone.
mutual

theorem Expr.resolve_grows : (e : Expr) → (w : Walk) → w.Grows (e.resolve w) (refsOf e.mentions)
  | .literal _, w => .refl w _
  | .grouping inner, w => inner.resolve_grows w
  | .unary _ operand, w => operand.resolve_grows w
  | .binary left _ right, w => by
    rw [Expr.mentions, refsOf_append]
    exact (left.resolve_grows w).trans (right.resolve_grows _)
  | .logical left _ right, w => by
    rw [Expr.mentions, refsOf_append]
    exact (left.resolve_grows w).trans (right.resolve_grows _)
  | .variable i name, w => by
    unfold Expr.resolve
    dsimp only
    split
    · exact (w.grows_fault _ _).trans (Walk.grows_refer _ i name)
    · exact w.grows_refer i name
  | .assign i name value, w => by
    rw [Expr.mentions, refsOf_append]
    exact (value.resolve_grows w).trans (Walk.grows_refer _ i name)
  | .call callee _ arguments, w => by
    rw [Expr.mentions, refsOf_append]
    exact (callee.resolve_grows w).trans (Expr.resolveAll_grows arguments _)
  | .lambda routine, w => routine.resolve_grows .lambda w
  | .get object _, w => object.resolve_grows w
  | .set object _ value, w => by
    rw [Expr.mentions, refsOf_append]
    exact (object.resolve_grows w).trans (value.resolve_grows _)
  | .this i keyword, w => by
    unfold Expr.resolve
    split
    · exact w.grows_refer i keyword
    · exact (w.grows_fault _ _).mono (List.nil_sublist _)

theorem Expr.resolveAll_grows : (es : List Expr) → (w : Walk) →
    w.Grows (Expr.resolveAll es w) (refsOf (Expr.mentionsAll es))
  | [], w => .refl w _
  | e :: rest, w => by
    rw [Expr.mentionsAll, refsOf_append]
    exact (e.resolve_grows w).trans (Expr.resolveAll_grows rest _)

theorem Stmt.resolve_grows : (s : Stmt) → (w : Walk) → w.Grows (s.resolve w) (refsOf s.mentions)
  | .expression value, w => value.resolve_grows w
  | .print _ value, w => value.resolve_grows w
  | .var name none, w => w.grows_introduce name
  | .var name (some initial), w => by
    have inside := (w.grows_declare name).trans (initial.resolve_grows _)
    exact (inside.trans (Walk.grows_settle _ name)).mono (by simp [Stmt.mentions])
  | .block body, w => by
    have inside := (Walk.Grows.quiet List.prefix_rfl rfl : w.Grows (w.enter []) []).trans
      (Stmt.resolveAll_grows body _)
    exact (inside.trans (Walk.grows_leave _)).mono (by simp [Stmt.mentions])
  | .branch condition yes none, w => by
    rw [Stmt.mentions, refsOf_append]
    exact (condition.resolve_grows w).trans (yes.resolve_grows _)
  | .branch condition yes (some no), w => by
    rw [Stmt.mentions, refsOf_append, refsOf_append]
    have first := (condition.resolve_grows w).trans (yes.resolve_grows _)
    exact (first.trans (no.resolve_grows _)).mono (by simp)
  | .loop condition body, w => by
    rw [Stmt.mentions, refsOf_append]
    have turn := (condition.resolve_grows { w with loops := w.loops + 1 }).trans (body.resolve_grows _)
    exact ⟨turn.faults, turn.notes⟩
  | .leave keyword, w => by
    unfold Stmt.resolve
    split
    · exact w.grows_fault _ _
    · exact .refl w _
  | .function routine, w => by
    have inside := (w.grows_introduce routine.head).trans (routine.resolve_grows .function _)
    exact inside.mono (by simp [Stmt.mentions])
  | .giveBack keyword none, w => by
    unfold Stmt.resolve
    split
    · exact w.grows_fault _ _
    · exact .refl w _
  | .giveBack keyword (some value), w => by
    unfold Stmt.resolve
    dsimp only
    split <;> split
    · exact ((w.grows_fault _ _).trans (Walk.grows_fault _ _ _)).trans (value.resolve_grows _)
    · exact (w.grows_fault _ _).trans (value.resolve_grows _)
    · exact (w.grows_fault _ _).trans (value.resolve_grows _)
    · exact value.resolve_grows w
  | .classes name methods, w => by
    have introduced := w.grows_introduce name
    have entered : w.Grows
        ({ w.introduce name with inClass := true }.enter [(receiverName, ⟨true, true, none⟩)]) [] :=
      ⟨introduced.faults, introduced.notes⟩
    have inside := entered.trans (Routine.resolveMethods_grows methods _)
    have outside := inside.trans (Walk.grows_leave _)
    have found := outside.mono (b := refsOf (Stmt.mentions (.classes name methods))) (by simp [Stmt.mentions])
    exact ⟨found.faults, found.notes⟩

theorem Stmt.resolveAll_grows : (ss : List Stmt) → (w : Walk) →
    w.Grows (Stmt.resolveAll ss w) (refsOf (Stmt.mentionsAll ss))
  | [], w => .refl w _
  | s :: rest, w => by
    rw [Stmt.mentionsAll, refsOf_append]
    exact (s.resolve_grows w).trans (Stmt.resolveAll_grows rest _)

theorem Routine.resolve_grows (kind : BodyKind) : (r : Routine) → (w : Walk) →
    w.Grows (r.resolve kind w) (refsOf r.mentions)
  | .mk _ parameters body, w => by
    have entered := (Walk.Grows.quiet List.prefix_rfl rfl :
      w.Grows ({ w with body := kind, loops := 0 }.enter []) []).trans
        (Walk.grows_introduceAll _ parameters)
    have inside := entered.trans (Stmt.resolveAll_grows body _)
    have outside := (inside.trans (Walk.grows_flag _ body)).trans (Walk.grows_leave _)
    have found := outside.mono (b := refsOf (Routine.mentions (.mk ‹_› parameters body)))
      (by simp [Routine.mentions])
    exact ⟨found.faults, found.notes⟩

theorem Routine.resolveMethods_grows : (rs : List Routine) → (w : Walk) →
    w.Grows (Routine.resolveMethods rs w) (refsOf (Routine.mentionsAll rs))
  | [], w => .refl w _
  | r :: rest, w => by
    rw [Routine.mentionsAll, refsOf_append]
    exact (r.resolve_grows _ w).trans (Routine.resolveMethods_grows rest _)

end

namespace Setting

variable {σ : Setting}

theorem loops_nest_loop (σ : Setting) (condition : Expr) (body : Stmt) :
    (σ.nest (.loop condition body)).loops = σ.loops + 1 := by
  exact List.countP_cons_of_pos rfl

theorem loops_nest_other (σ : Setting) (s : Stmt) (other : s.isLoop = false) :
    (σ.nest s).loops = σ.loops := by
  simp [nest, loops, other]

end Setting

section

variable {w : Walk} {σ : Setting}

theorem Walk.Follows.nest (h : w.Follows σ) (s : Stmt) (other : s.isLoop = false) :
    w.Follows (σ.nest s) :=
  ⟨h.scopes, h.body, h.loops.trans (σ.loops_nest_other s other).symm, h.inClass⟩

theorem Walk.Follows.turn (h : w.Follows σ) (condition : Expr) (body : Stmt) :
    Walk.Follows { w with loops := w.loops + 1 } (σ.nest (.loop condition body)) :=
  ⟨h.scopes, h.body, by rw [Setting.loops_nest_loop, ← h.loops], h.inClass⟩

theorem Walk.Follows.block (h : w.Follows σ) (body : List Stmt) :
    (w.enter []).Follows ((σ.nest (.block body)).enter (.block body)) :=
  (h.nest (.block body) rfl).enter (.block body) [] (fun _ => rfl) w.inClass rfl

theorem Walk.Follows.methods (h : w.Follows σ) (name : Token) (methods : List Routine) :
    Walk.Follows ({ w.introduce name with inClass := true }.enter [(receiverName, ⟨true, true, none⟩)])
      ((σ.declare [name]).enter (.receiver methods)) := by
  refine (h.introduce name).enter (.receiver methods) _ (fun other => ?_) true rfl
  rw [Names.binds, Names.get?_cons]
  by_cases same : other = receiverName
  · simp [same, Frame.declares, Frame.seen, Region.isReceiver]
  · simp [same, Frame.declares, Frame.seen, Region.isReceiver, Names.get?_nil, Ne.symm same]

theorem Walk.Follows.routine (h : w.Follows σ) (kind : BodyKind) (r : Routine) :
    (w.enterRoutine kind r.parameters).Follows (σ.enterRoutine kind r) := by
  have fresh : Walk.Follows { w with body := kind, loops := 0 } ⟨σ.frames, kind, []⟩ :=
    ⟨h.scopes, rfl, rfl, h.inClass⟩
  exact (fresh.enter (.routine r) [] (fun _ => rfl) w.inClass rfl).introduceAll r.parameters

-- Behind code the walk stands where the code stands and knows the names it declares.
mutual

theorem Expr.resolve_follows {w : Walk} {σ : Setting} : (e : Expr) → e.Formed → w.Follows σ → (e.resolve w).Follows σ
  | .literal _, _, h => h
  | .grouping inner, formed, h => inner.resolve_follows formed h
  | .unary _ operand, formed, h => operand.resolve_follows formed h
  | .binary left _ right, formed, h =>
    right.resolve_follows formed.2 (left.resolve_follows formed.1 h)
  | .logical left _ right, formed, h =>
    right.resolve_follows formed.2 (left.resolve_follows formed.1 h)
  | .variable i name, _, h => by
    unfold Expr.resolve
    dsimp only
    split
    · exact ((h.faulted _ _).refer i name).1
    · exact (h.refer i name).1
  | .assign i name value, formed, h => ((value.resolve_follows formed h).refer i name).1
  | .call callee _ arguments, formed, h =>
    Expr.resolveAll_follows arguments formed.2 (callee.resolve_follows formed.1 h)
  | .lambda routine, formed, h => routine.resolve_follows .lambda formed h
  | .get object _, formed, h => object.resolve_follows formed h
  | .set object _ value, formed, h =>
    value.resolve_follows formed.2 (object.resolve_follows formed.1 h)
  | .this i keyword, _, h => by
    unfold Expr.resolve
    split
    · exact (h.refer i keyword).1
    · exact h.faulted _ _

theorem Expr.resolveAll_follows {w : Walk} {σ : Setting} : (es : List Expr) → Expr.FormedAll es → w.Follows σ →
    (Expr.resolveAll es w).Follows σ
  | [], _, h => h
  | e :: rest, formed, h => Expr.resolveAll_follows rest formed.2 (e.resolve_follows formed.1 h)

theorem Stmt.resolve_follows {w : Walk} {σ : Setting} : (s : Stmt) → s.Formed → w.Follows σ →
    (s.resolve w).Follows (σ.declare s.declares)
  | .expression value, formed, h => by
    refine (σ.declare_nil).symm ▸ ?_
    exact value.resolve_follows formed h
  | .print _ value, formed, h => by
    refine (σ.declare_nil).symm ▸ ?_
    exact value.resolve_follows formed h
  | .var name none, _, h => h.introduce name
  | .var name (some initial), formed, h => by
    -- The walk has the name while it is in the initializer, the setting behind it keeps it.
    have inside := (initial.resolve_follows formed (h.initializing name)).settle name
    refine inside.recast (fun f other => ?_) fun _ => rfl
    simp [f.declares_declared, f.declares_initializing, Stmt.declares]
  | .block body, formed, h => by
    refine (σ.declare_nil).symm ▸ ?_
    have inside := Stmt.resolveAll_follows body formed (h.block body)
    obtain ⟨scopes, kind, loops, inClass⟩ := inside.leave rfl
    exact ⟨scopes, kind, loops.trans (σ.loops_nest_other _ rfl), inClass⟩
  | .branch condition yes none, formed, h => by
    obtain ⟨test, inner, nothing⟩ := formed
    have found := yes.resolve_follows inner (condition.resolve_follows test h)
    rwa [nothing] at found
  | .branch condition yes (some no), formed, h => by
    obtain ⟨test, ⟨inner, nothing⟩, other, nothing'⟩ := formed
    have found := yes.resolve_follows inner (condition.resolve_follows test h)
    rw [nothing, σ.declare_nil] at found
    have last := no.resolve_follows other found
    rwa [nothing'] at last
  | .loop condition body, formed, h => by
    refine (σ.declare_nil).symm ▸ ?_
    obtain ⟨test, inner, nothing⟩ := formed
    have turned := condition.resolve_follows test (h.turn condition body)
    have found := body.resolve_follows inner turned
    rw [nothing, Setting.declare_nil] at found
    refine ⟨found.scopes, found.body, ?_, found.inClass⟩
    show _ - 1 = _
    rw [found.loops, σ.loops_nest_loop, Nat.add_sub_cancel]
  | .leave keyword, _, h => by
    refine (σ.declare_nil).symm ▸ ?_
    unfold Stmt.resolve
    split
    · exact h.faulted _ _
    · exact h
  | .function routine, formed, h => routine.resolve_follows .function formed (h.introduce routine.head)
  | .giveBack keyword none, _, h => by
    refine (σ.declare_nil).symm ▸ ?_
    unfold Stmt.resolve
    split
    · exact h.faulted _ _
    · exact h
  | .giveBack keyword (some value), formed, h => by
    refine (σ.declare_nil).symm ▸ ?_
    unfold Stmt.resolve
    dsimp only
    refine value.resolve_follows formed ?_
    split <;> split
    · exact (h.faulted _ _).faulted _ _
    · exact h.faulted _ _
    · exact h.faulted _ _
    · exact h
  | .classes name methods, formed, h => by
    have inside := Routine.resolveMethods_follows methods formed (h.methods name methods)
    obtain ⟨scopes, kind, loops, _⟩ := inside.leave rfl
    refine ⟨scopes, kind, loops, ?_⟩
    exact h.inClass.trans (by rw [Setting.inClass, Setting.inClass, σ.regions_declare])

theorem Stmt.resolveAll_follows {w : Walk} {σ : Setting} : (ss : List Stmt) → Stmt.FormedAll ss → w.Follows σ →
    (Stmt.resolveAll ss w).Follows (σ.declare (ss.flatMap Stmt.declares))
  | [], _, h => by
    rwa [List.flatMap_nil, σ.declare_nil]
  | s :: rest, formed, h => by
    rw [List.flatMap_cons, σ.declare_append]
    exact Stmt.resolveAll_follows rest formed.2 (s.resolve_follows formed.1 h)

theorem Routine.resolve_follows {w : Walk} {σ : Setting} (kind : BodyKind) : (r : Routine) → r.Formed → w.Follows σ →
    (r.resolve kind w).Follows σ
  | .mk head parameters body, formed, h => by
    have inside := Stmt.resolveAll_follows body formed (h.routine kind (.mk head parameters body))
    obtain ⟨warnings, flagged⟩ := Walk.flagUnreachable_warns
      (Stmt.resolveAll body (w.enterRoutine kind parameters)) body
    have marked : Walk.Follows ((Stmt.resolveAll body (w.enterRoutine kind parameters)).flagUnreachable body)
        ((σ.enterRoutine kind (.mk head parameters body)).declare (body.flatMap Stmt.declares)) := by
      rw [flagged]
      exact ⟨inside.scopes, inside.body, inside.loops, inside.inClass⟩
    obtain ⟨scopes, _, _, inClass⟩ := marked.leave rfl
    exact ⟨scopes, h.body, h.loops, inClass⟩

theorem Routine.resolveMethods_follows {w : Walk} {σ : Setting} : (rs : List Routine) → Routine.FormedAll rs →
    w.Follows σ → (Routine.resolveMethods rs w).Follows σ
  | [], _, h => h
  | r :: rest, formed, h =>
    Routine.resolveMethods_follows rest formed.2 (r.resolve_follows _ formed.1 h)

end

end

def Code.resolve : Code → Walk → Walk
  | .expr e, w => e.resolve w
  | .stmt s, w => s.resolve w
  | .stmts ss, w => Stmt.resolveAll ss w
  | .routine kind r, w => r.resolve kind w

def Code.Ordered : Code → Prop
  | .expr e => e.Ordered
  | .stmt s => s.Ordered
  | .stmts ss => Stmt.OrderedAll ss
  | .routine _ r => r.Ordered

-- A walk that ends this way passes the spot: it stands there, walks the code and only adds to
-- what it finds.
def Spot.Passed (final : Walk) (S : Spot) : Prop :=
  S.code.Ordered ∧ ∃ w refs, w.Follows S.setting ∧ (S.code.resolve w).Grows final refs

section

variable {final w : Walk} {σ : Setting}

theorem Expr.resolveAll_passes {es : List Expr} (ordered : Expr.OrderedAll es) (h : w.Follows σ)
    (grows : (Expr.resolveAll es w).Grows final refs) :
    ∀ e ∈ es, Spot.Passed final ⟨σ, .expr e⟩ := by
  induction es generalizing w with
  | nil => nofun
  | cons e rest ih =>
    intro other member
    rcases List.mem_cons.mp member with rfl | later
    · exact ⟨ordered.1, w, _, h, (Expr.resolveAll_grows rest _).trans grows⟩
    · exact ih ordered.2 (e.resolve_follows ordered.1.formed h) grows other later

theorem Routine.resolveMethods_passes {rs : List Routine} (ordered : Routine.OrderedAll rs)
    (h : w.Follows σ) (grows : (Routine.resolveMethods rs w).Grows final refs) :
    ∀ r ∈ rs, Spot.Passed final ⟨σ, .routine r.methodKind r⟩ := by
  induction rs generalizing w with
  | nil => nofun
  | cons r rest ih =>
    intro other member
    rcases List.mem_cons.mp member with rfl | later
    · exact ⟨ordered.1, w, _, h, (Routine.resolveMethods_grows rest _).trans grows⟩
    · exact ih ordered.2 (r.resolve_follows _ ordered.1.formed h) grows other later

theorem Expr.parts_passed {e : Expr} (passed : Spot.Passed final ⟨σ, .expr e⟩) :
    ∀ part ∈ e.parts, Spot.Passed final ⟨σ, part⟩ := by
  obtain ⟨ordered, w, refs, h, grows⟩ := passed
  intro part member
  cases e with
  | grouping inner =>
    rw [List.mem_singleton.mp member]
    exact ⟨ordered, w, refs, h, grows⟩
  | unary operator operand =>
    rw [List.mem_singleton.mp member]
    exact ⟨ordered, w, refs, h, grows⟩
  | lambda routine =>
    rw [List.mem_singleton.mp member]
    exact ⟨ordered, w, refs, h, grows⟩
  | get object name =>
    rw [List.mem_singleton.mp member]
    exact ⟨ordered, w, refs, h, grows⟩
  | assign i name value =>
    rw [List.mem_singleton.mp member]
    exact ⟨ordered, w, _, h, (Walk.grows_refer _ i name).trans grows⟩
  | binary left operator right =>
    obtain ⟨orderedLeft, orderedRight⟩ := ordered
    rcases List.mem_cons.mp member with rfl | later
    · exact ⟨orderedLeft, w, _, h, (right.resolve_grows _).trans grows⟩
    · rw [List.mem_singleton.mp later]
      exact ⟨orderedRight, _, _, left.resolve_follows orderedLeft.formed h, grows⟩
  | logical left operator right =>
    obtain ⟨orderedLeft, orderedRight⟩ := ordered
    rcases List.mem_cons.mp member with rfl | later
    · exact ⟨orderedLeft, w, _, h, (right.resolve_grows _).trans grows⟩
    · rw [List.mem_singleton.mp later]
      exact ⟨orderedRight, _, _, left.resolve_follows orderedLeft.formed h, grows⟩
  | set object name value =>
    obtain ⟨orderedObject, orderedValue⟩ := ordered
    rcases List.mem_cons.mp member with rfl | later
    · exact ⟨orderedObject, w, _, h, (value.resolve_grows _).trans grows⟩
    · rw [List.mem_singleton.mp later]
      exact ⟨orderedValue, _, _, object.resolve_follows orderedObject.formed h, grows⟩
  | call callee close arguments =>
    obtain ⟨orderedCallee, orderedArguments⟩ := ordered
    rcases List.mem_cons.mp member with rfl | later
    · exact ⟨orderedCallee, w, _, h, (Expr.resolveAll_grows arguments _).trans grows⟩
    · obtain ⟨e, inside, rfl⟩ := List.mem_map.mp later
      have before := callee.resolve_follows orderedCallee.formed h
      exact Expr.resolveAll_passes orderedArguments before grows e inside
  | _ => cases member

theorem Stmt.parts_passed {s : Stmt} (passed : Spot.Passed final ⟨σ, .stmt s⟩) :
    ∀ part ∈ s.parts σ, Spot.Passed final part := by
  obtain ⟨ordered, w, refs, h, grows⟩ := passed
  intro part member
  cases s with
  | expression value =>
    rw [List.mem_singleton.mp member]
    exact ⟨ordered, w, refs, h, grows⟩
  | print keyword value =>
    rw [List.mem_singleton.mp member]
    exact ⟨ordered, w, refs, h, grows⟩
  | var name initial =>
    cases initial with
    | none => cases member
    | some e =>
      rw [List.mem_singleton.mp member]
      exact ⟨ordered.1, _, _, h.initializing name, (Walk.grows_settle _ name).trans grows⟩
  | block body =>
    rw [List.mem_singleton.mp member]
    exact ⟨ordered, _, _, h.block body, (Walk.grows_leave _).trans grows⟩
  | branch condition yes no =>
    cases no with
    | none =>
      obtain ⟨test, inner, _⟩ := ordered
      rcases List.mem_cons.mp member with rfl | later
      · exact ⟨test, w, _, h, (yes.resolve_grows _).trans grows⟩
      · rw [List.mem_singleton.mp later]
        exact ⟨inner, _, _, (condition.resolve_follows test.formed h).nest _ rfl, grows⟩
    | some no =>
      obtain ⟨test, ⟨inner, nothing⟩, other, _⟩ := ordered
      have before := condition.resolve_follows test.formed h
      have between := yes.resolve_follows inner.formed before
      rw [nothing, σ.declare_nil] at between
      rcases List.mem_cons.mp member with rfl | later
      · exact ⟨test, w, _, h, ((yes.resolve_grows _).trans (no.resolve_grows _)).trans grows⟩
      · rcases List.mem_cons.mp later with rfl | last
        · exact ⟨inner, _, _, before.nest _ rfl, (no.resolve_grows _).trans grows⟩
        · rw [List.mem_singleton.mp last]
          exact ⟨other, _, _, between.nest _ rfl, grows⟩
  | loop condition body =>
    obtain ⟨test, inner, _⟩ := ordered
    have turned := h.turn condition body
    have whole : (body.resolve (condition.resolve { w with loops := w.loops + 1 })).Grows final refs :=
      ⟨grows.faults, grows.notes⟩
    rcases List.mem_cons.mp member with rfl | later
    · exact ⟨test, _, _, turned, (body.resolve_grows _).trans whole⟩
    · rw [List.mem_singleton.mp later]
      exact ⟨inner, _, _, condition.resolve_follows test.formed turned, whole⟩
  | leave keyword => cases member
  | function routine =>
    rw [List.mem_singleton.mp member]
    exact ⟨ordered.1, _, _, h.introduce routine.head, grows⟩
  | giveBack keyword value =>
    cases value with
    | none => cases member
    | some e =>
      rw [List.mem_singleton.mp member]
      obtain ⟨w', same, h'⟩ : ∃ w' : Walk, Stmt.resolve (.giveBack keyword (some e)) w = e.resolve w' ∧
          w'.Follows σ := by
        unfold Stmt.resolve
        refine ⟨_, rfl, ?_⟩
        split <;> split
        · exact (h.faulted _ _).faulted _ _
        · exact h.faulted _ _
        · exact h.faulted _ _
        · exact h
      have whole : (Stmt.resolve (.giveBack keyword (some e)) w).Grows final refs := grows
      rw [same] at whole
      exact ⟨ordered, w', refs, h', whole⟩
  | classes name methods =>
    obtain ⟨r, inside, rfl⟩ := List.mem_map.mp member
    let inner := Routine.resolveMethods methods
      ({ w.introduce name with inClass := true }.enter [(receiverName, ⟨true, true, none⟩)])
    have left := inner.grows_leave
    have behind : inner.Grows { inner.leave with inClass := w.inClass } [] := ⟨left.faults, left.notes⟩
    have whole : inner.Grows final refs := behind.trans grows
    exact Routine.resolveMethods_passes ordered.1 (h.methods name methods) whole r inside

theorem Spot.parts_passed {S T : Spot} (passed : S.Passed final) (member : T ∈ S.parts) :
    T.Passed final := by
  obtain ⟨σ, code⟩ := S
  cases code with
  | expr e =>
    obtain ⟨part, inside, rfl⟩ := List.mem_map.mp member
    exact Expr.parts_passed passed part inside
  | stmt s => exact Stmt.parts_passed passed T member
  | stmts ss =>
    cases ss with
    | nil => cases member
    | cons s rest =>
      obtain ⟨ordered, w, refs, h, grows⟩ := passed
      rcases List.mem_cons.mp member with rfl | later
      · exact ⟨ordered.1.1, w, _, h, (Stmt.resolveAll_grows rest _).trans grows⟩
      · rw [List.mem_singleton.mp later]
        exact ⟨ordered.1.2, _, _, s.resolve_follows ordered.1.1.formed h, grows⟩
  | routine kind r =>
    rw [List.mem_singleton.mp member]
    obtain ⟨ordered, w, refs, h, grows⟩ := passed
    obtain ⟨head, parameters, body⟩ := r
    have inside := h.routine kind (.mk head parameters body)
    let inner := Stmt.resolveAll body (w.enterRoutine kind parameters)
    have left := (inner.grows_flag body).trans (Walk.grows_leave _)
    have behind : inner.Grows ((inner.flagUnreachable body).leaveRoutine w.body w.loops) [] :=
      ⟨left.faults, left.notes⟩
    exact ⟨ordered.1, _, _, inside, behind.trans grows⟩

theorem Spot.Within.passed {root S : Spot} (inside : root.Within S) (passed : root.Passed final) :
    S.Passed final := by
  induction inside with
  | root => exact passed
  | part _ member ih => exact Spot.parts_passed ih member

end

end ScopeScript
