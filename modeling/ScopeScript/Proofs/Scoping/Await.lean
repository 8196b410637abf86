import ScopeScript.Proofs.Scoping.Descend

namespace ScopeScript

-- A name that is in a scope and has no value yet.
def Names.awaits (names : Names Declared) (name : String) : Bool :=
  (names.get? name).any fun entry => !entry.defined

theorem Names.awaits_put (names : Names Declared) (name : String) (entry : Declared) (asked : String) :
    Names.awaits (names.put name entry) asked = if asked = name then !entry.defined else names.awaits asked := by
  unfold Names.awaits
  rw [Names.get?_put]
  split <;> rfl

-- The names of a scope without a value are those whose initializer the walk is in.
def Frame.Awaits (f : Frame) (names : Names Declared) : Prop :=
  ∀ name, names.awaits name = f.initializing.any (·.lexeme == name)

-- Where a statement stands: in no initializer of the innermost scope, and not right inside a class.
def Setting.Settled (σ : Setting) : Prop :=
  ∀ f outer, σ.frames = f :: outer → f.initializing = [] ∧ f.region.isReceiver = false

theorem Setting.Settled.declare {σ : Setting} (h : σ.Settled) (names : List Token) : (σ.declare names).Settled := by
  obtain ⟨frames, body, around⟩ := σ
  cases frames with
  | nil => exact h
  | cons f outer =>
    intro g others same
    cases same
    exact h f outer rfl

theorem Setting.Settled.block (σ : Setting) (body : List Stmt) : (σ.enter (.block body)).Settled := by
  intro f outer same
  cases same
  exact ⟨rfl, rfl⟩

theorem Setting.Settled.routine (σ : Setting) (kind : BodyKind) (r : Routine) : (σ.enterRoutine kind r).Settled := by
  intro f outer same
  cases same
  exact ⟨rfl, rfl⟩

namespace Walk

def Awaits (w : Walk) (σ : Setting) : Prop := List.Forall₂ Frame.Awaits σ.frames w.scopes

variable {w : Walk} {σ : Setting}

theorem declare_scopes (w : Walk) (t : Token) : (w.declare t).scopes = match w.scopes with
    | [] => []
    | names :: outer => names.put t.lexeme ⟨false, false, some t⟩ :: outer := by
  unfold declare
  cases given : w.scopes with
  | nil => exact given
  | cons names outer =>
    dsimp only
    split <;> rfl

theorem Awaits.declare (h : w.Awaits σ) (t : Token) : (w.declare t).Awaits (σ.initializing t) := by
  obtain ⟨frames, body, around⟩ := σ
  unfold Awaits at h ⊢
  rw [declare_scopes]
  cases given : w.scopes with
  | nil =>
    rw [given] at h
    cases h
    exact .nil
  | cons names outer =>
    rw [given] at h
    cases h with
    | @cons f _ _ _ inner rest =>
      refine .cons (fun asked => ?_) rest
      rw [Names.awaits_put, List.any_cons]
      by_cases same : asked = t.lexeme
      · simp [same]
      · simp [same, Ne.symm same, inner asked]

-- It has no part in this what a frame declares.
theorem Awaits.declared (h : w.Awaits σ) (names : List Token) : w.Awaits (σ.declare names) := by
  obtain ⟨frames, body, around⟩ := σ
  unfold Awaits at h ⊢
  generalize w.scopes = scopes at h
  cases h with
  | nil => exact .nil
  | cons inner rest => exact .cons inner rest

theorem Awaits.settle {t : Token} (settled : σ.Settled) (h : w.Awaits (σ.initializing t)) : (w.settle t).Awaits σ := by
  obtain ⟨frames, body, around⟩ := σ
  unfold Awaits at h ⊢
  cases frames with
  | nil =>
    cases given : w.scopes with
    | nil =>
      have same : w.settle t = w := by
        unfold Walk.settle
        rw [given]
      rw [same, given]
      exact .nil
    | cons names outer =>
      rw [given] at h
      cases h
  | cons f outer =>
    have nothing := (settled f outer rfl).1
    cases given : w.scopes with
    | nil =>
      rw [given] at h
      cases h
    | cons names others =>
      rw [given] at h
      cases h with
      | cons inner rest =>
        -- The name is there, since it is awaited.
        have awaited := inner t.lexeme
        simp only [List.any_cons, beq_self_eq_true, Bool.true_or, Names.awaits] at awaited
        unfold Walk.settle
        rw [given]
        dsimp only
        cases found : names.get? t.lexeme with
        | none =>
          rw [found] at awaited
          cases awaited
        | some entry =>
          refine .cons (fun asked => ?_) rest
          rw [Names.awaits_put, nothing]
          by_cases same : asked = t.lexeme
          · simp [same]
          · have others := inner asked
            simp only [nothing, List.any_cons, List.any_nil, Bool.or_false] at others
            rw [if_neg same, others]
            simpa using Ne.symm same

theorem Awaits.introduce (settled : σ.Settled) (h : w.Awaits σ) (t : Token) : (w.introduce t).Awaits σ :=
  .settle settled (h.declare t)

theorem Awaits.introduceAll (settled : σ.Settled) (h : w.Awaits σ) (names : List Token) :
    (names.foldl Walk.introduce w).Awaits σ := by
  induction names generalizing w with
  | nil => exact h
  | cons t rest ih => exact ih (h.introduce settled t)

theorem Awaits.enter (h : w.Awaits σ) (region : Region) {names : Names Declared}
    (ready : ∀ name, names.awaits name = false) : (w.enter names).Awaits (σ.enter region) :=
  .cons ready h

theorem Awaits.leave {f : Frame} {frames : List Frame} (h : List.Forall₂ Frame.Awaits (f :: frames) w.scopes) :
    List.Forall₂ Frame.Awaits frames w.leave.scopes := by
  obtain ⟨warnings, left⟩ := w.leave_warns
  rw [left]
  generalize w.scopes = scopes at h
  cases h with
  | cons _ rest => exact rest

theorem findFrom_awaits {name : String} {start depth : Nat} {frames : List Frame}
    {scopes found : List (Names Declared)} (h : List.Forall₂ Frame.Awaits frames scopes)
    (given : findFrom name start scopes = some (depth, found)) : List.Forall₂ Frame.Awaits frames found := by
  induction h generalizing start found with
  | nil => cases given
  | @cons f names frames outer inner rest ih =>
    unfold findFrom at given
    cases bound : names.get? name with
    | some entry =>
      rw [bound] at given
      cases given
      refine .cons (fun asked => ?_) rest
      rw [Names.awaits_put, ← inner asked]
      by_cases same : asked = name
      · simp [same, Names.awaits, bound]
      · simp [same]
    | none =>
      rw [bound] at given
      dsimp only at given
      obtain ⟨⟨deep, others⟩, deeper, same⟩ := Option.map_eq_some_iff.mp given
      cases same
      exact .cons inner (ih deeper)

theorem Awaits.refer (h : w.Awaits σ) (i : RefId) (t : Token) : (w.refer i t).Awaits σ := by
  unfold Walk.refer
  split
  · rename_i depth scopes found
    exact findFrom_awaits h found
  · exact h

theorem Awaits.initializing_iff (h : w.Awaits σ) (name : String) : w.initializing name =
    match σ.frames with
    | [] => false
    | f :: _ => f.initializing.any (·.lexeme == name) := by
  obtain ⟨frames, body, around⟩ := σ
  unfold Awaits at h
  unfold Walk.initializing
  generalize w.scopes = scopes at h
  cases h with
  | nil => rfl
  | cons inner _ => exact inner name

end Walk

-- Behind code of any kind the walk awaits the same names as in front of it.
mutual

theorem Expr.resolve_awaits {w : Walk} {σ : Setting} : (e : Expr) → w.Awaits σ → (e.resolve w).Awaits σ
  | .literal _, h => h
  | .grouping inner, h => inner.resolve_awaits h
  | .unary _ operand, h => operand.resolve_awaits h
  | .binary left _ right, h => right.resolve_awaits (left.resolve_awaits h)
  | .logical left _ right, h => right.resolve_awaits (left.resolve_awaits h)
  | .variable i name, h => by
    unfold Expr.resolve
    dsimp only
    split
    · exact Walk.Awaits.refer (w := w.fault _ _) h i name
    · exact h.refer i name
  | .assign i name value, h => (value.resolve_awaits h).refer i name
  | .call callee _ arguments, h => Expr.resolveAll_awaits arguments (callee.resolve_awaits h)
  | .lambda routine, h => routine.resolve_awaits .lambda h
  | .get object _, h => object.resolve_awaits h
  | .set object _ value, h => value.resolve_awaits (object.resolve_awaits h)
  | .this i keyword, h => by
    unfold Expr.resolve
    split
    · exact h.refer i keyword
    · exact h

theorem Expr.resolveAll_awaits {w : Walk} {σ : Setting} : (es : List Expr) → w.Awaits σ →
    (Expr.resolveAll es w).Awaits σ
  | [], h => h
  | e :: rest, h => Expr.resolveAll_awaits rest (e.resolve_awaits h)

theorem Stmt.resolve_awaits {w : Walk} {σ : Setting} : (s : Stmt) → σ.Settled → w.Awaits σ → (s.resolve w).Awaits σ
  | .expression value, _, h => value.resolve_awaits h
  | .print _ value, _, h => value.resolve_awaits h
  | .var name none, settled, h => h.introduce settled name
  | .var name (some initial), settled, h => .settle settled (initial.resolve_awaits (h.declare name))
  | .block body, _, h =>
    .leave (Stmt.resolveAll_awaits body (.block σ body) (h.enter (.block body) fun _ => rfl))
  | .branch condition yes none, settled, h => yes.resolve_awaits settled (condition.resolve_awaits h)
  | .branch condition yes (some no), settled, h =>
    no.resolve_awaits settled (yes.resolve_awaits settled (condition.resolve_awaits h))
  | .loop condition body, settled, h =>
    have turned : Walk.Awaits { w with loops := w.loops + 1 } σ := h
    body.resolve_awaits settled (condition.resolve_awaits turned)
  | .leave keyword, _, h => by
    unfold Stmt.resolve
    split <;> exact h
  | .function routine, settled, h => routine.resolve_awaits .function (h.introduce settled routine.head)
  | .giveBack keyword none, _, h => by
    unfold Stmt.resolve
    split <;> exact h
  | .giveBack keyword (some value), _, h => by
    unfold Stmt.resolve
    dsimp only
    refine value.resolve_awaits ?_
    split <;> split <;> exact h
  | .classes name methods, settled, h => by
    have entered : (Walk.enter { w.introduce name with inClass := true } [(receiverName, ⟨true, true, none⟩)]).Awaits
        (σ.enter (.receiver methods)) := by
      refine Walk.Awaits.enter (h.introduce settled name) _ fun asked => ?_
      unfold Names.awaits
      rw [Names.get?_cons]
      split <;> rfl
    exact .leave (Routine.resolveMethods_awaits methods entered)

theorem Stmt.resolveAll_awaits {w : Walk} {σ : Setting} : (ss : List Stmt) → σ.Settled → w.Awaits σ →
    (Stmt.resolveAll ss w).Awaits σ
  | [], _, h => h
  | s :: rest, settled, h => Stmt.resolveAll_awaits rest settled (s.resolve_awaits settled h)

theorem Routine.resolve_awaits {w : Walk} {σ : Setting} (kind : BodyKind) : (r : Routine) → w.Awaits σ →
    (r.resolve kind w).Awaits σ
  | .mk head parameters body, h => by
    have settled := Setting.Settled.routine σ kind (.mk head parameters body)
    have entered : (Walk.enter { w with body := kind, loops := 0 } []).Awaits
        (σ.enterRoutine kind (.mk head parameters body)) := List.Forall₂.cons (fun _ => rfl) h
    have inside := Stmt.resolveAll_awaits body settled (entered.introduceAll settled parameters)
    obtain ⟨warnings, flagged⟩ := Walk.flagUnreachable_warns
      (Stmt.resolveAll body (w.enterRoutine kind parameters)) body
    unfold Routine.resolve Walk.leaveRoutine
    dsimp only
    rw [flagged]
    exact .leave (w := { Stmt.resolveAll body (w.enterRoutine kind parameters) with warnings := warnings }) inside

theorem Routine.resolveMethods_awaits {w : Walk} {σ : Setting} : (rs : List Routine) → w.Awaits σ →
    (Routine.resolveMethods rs w).Awaits σ
  | [], h => h
  | r :: rest, h => Routine.resolveMethods_awaits rest (r.resolve_awaits _ h)

end

end ScopeScript
