import ScopeScript.Proofs.Grammar.Revise
import ScopeScript.Proofs.Scoping.Binder

namespace ScopeScript

section

variable (V : Revision)

def Region.revise : Region → Region
  | block body => block (Stmt.reviseAll V body)
  | routine r => routine (r.revise V)
  | receiver methods => receiver (Routine.reviseAll V methods)

def Frame.revise (f : Frame) : Frame := ⟨f.region.revise V, V.tokens f.declared, V.tokens f.initializing⟩

def Setting.revise (σ : Setting) : Setting :=
  ⟨σ.frames.map (Frame.revise V), σ.body, σ.around.map (Stmt.revise V)⟩

def Code.revise : Code → Code
  | .expr e => .expr (e.revise V)
  | .stmt s => .stmt (s.revise V)
  | .stmts ss => .stmts (Stmt.reviseAll V ss)
  | .routine kind r => .routine kind (r.revise V)

def Spot.revise (S : Spot) : Spot := ⟨S.setting.revise V, S.code.revise V⟩

end

section

variable {V : Revision}

theorem Revision.tokens_append (a b : List Token) : V.tokens (a ++ b) = V.tokens a ++ V.tokens b := by
  simp [Revision.tokens]

theorem Revision.tokens_kept {ts : List Token} (kept : ∀ t ∈ ts, V.omits t = false) : V.tokens ts = ts.map V.declare := by
  unfold Revision.tokens
  rw [List.filter_eq_self.mpr fun t member => by rw [kept t member]; rfl]

theorem Revision.mem_tokens {ts : List Token} : t ∈ V.tokens ts ↔ ∃ u ∈ ts, V.omits u = false ∧ V.declare u = t := by
  simp [Revision.tokens, and_assoc]

theorem Region.revise_isReceiver (region : Region) : (region.revise V).isReceiver = region.isReceiver := by
  cases region <;> rfl

theorem Frame.revise_seen (f : Frame) : (f.revise V).seen = V.tokens f.seen := (Revision.tokens_append ..).symm

theorem Setting.revise_seen (σ : Setting) : (σ.revise V).seen = V.tokens σ.seen := by
  obtain ⟨frames, body, around⟩ := σ
  unfold Setting.seen Setting.revise
  induction frames with
  | nil => rfl
  | cons f outer ih =>
    rw [List.map_cons, List.flatMap_cons, List.flatMap_cons, Revision.tokens_append, ← Frame.revise_seen]
    exact congrArg _ ih

theorem Setting.revise_declare (σ : Setting) (names : List Token) :
    (σ.declare names).revise V = (σ.revise V).declare (V.tokens names) := by
  obtain ⟨frames, body, around⟩ := σ
  cases frames with
  | nil => rfl
  | cons f outer =>
    simp [Setting.declare, Setting.onInnermost, Setting.revise, Frame.revise, Revision.tokens_append]

theorem Setting.revise_initializing (σ : Setting) {name : Token} (kept : V.omits name = false) :
    (σ.initializing name).revise V = (σ.revise V).initializing (V.declare name) := by
  obtain ⟨frames, body, around⟩ := σ
  cases frames with
  | nil => rfl
  | cons f outer =>
    have one : V.tokens (name :: f.initializing) = V.declare name :: V.tokens f.initializing := by
      simp [Revision.tokens, kept]
    simp [Setting.initializing, Setting.onInnermost, Setting.revise, Frame.revise, one]

theorem Setting.revise_enterRoutine (σ : Setting) (kind : BodyKind) {r : Routine}
    (kept : ∀ t ∈ r.parameters, V.omits t = false) :
    (σ.enterRoutine kind r).revise V = (σ.revise V).enterRoutine kind (r.revise V) := by
  rw [Setting.enterRoutine, Setting.enterRoutine, Routine.revise_parameters, ← Revision.tokens_kept kept]
  rfl

theorem Setting.revise_loops (σ : Setting) : (σ.revise V).loops = σ.loops := by
  have same : ∀ s : Stmt, (s.revise V).isLoop = s.isLoop := by
    intro s
    cases s with
    | var name initial => cases initial <;> rfl
    | branch condition yes no => cases no <;> rfl
    | giveBack keyword value => cases value <;> rfl
    | _ => rfl
  unfold Setting.loops Setting.revise
  rw [List.countP_map]
  exact List.countP_congr fun s _ => by rw [Function.comp_apply, same]

theorem Setting.revise_inClass (σ : Setting) : (σ.revise V).inClass = σ.inClass := by
  unfold Setting.inClass Setting.regions Setting.revise
  rw [List.any_map, List.any_map, List.any_map]
  exact congrArg (List.any σ.frames) (funext fun f => f.region.revise_isReceiver)

-- The parts of revised code are the revised parts, except where a list of statements gets shorter.

theorem Expr.parts_revise (e : Expr) : (e.revise V).parts = e.parts.map (Code.revise V) := by
  cases e with
  | call callee close arguments =>
    simp [Expr.revise, Expr.parts, Code.revise, Expr.reviseAll_eq_map]
  | _ => rfl

theorem Stmt.parts_revise (σ : Setting) {s : Stmt} (kept : ∀ t ∈ s.declares, V.omits t = false)
    (still : ∀ r, s = .function r → V.declare r.head = r.head) :
    (s.revise V).parts (σ.revise V) = (s.parts σ).map (Spot.revise V) := by
  cases s with
  | var name initial =>
    cases initial with
    | none => rfl
    | some e =>
      have here := σ.revise_initializing (kept name (List.mem_singleton_self _))
      exact congrArg (fun τ => [Spot.mk τ (.expr (e.revise V))]) here.symm
  | branch condition yes no => cases no <;> rfl
  | giveBack keyword value => cases value <;> rfl
  | function routine =>
    have named : (routine.revise V).named routine.head = routine.revise V := by
      have same := Routine.named_head (routine.revise V)
      rwa [Routine.revise_head] at same
    have here := σ.revise_declare (V := V) [routine.head]
    rw [show V.tokens [routine.head] = _ from Revision.tokens_kept kept, List.map_singleton, still routine rfl] at here
    rw [Stmt.revise, still routine rfl, named]
    show [Spot.mk ((σ.revise V).declare [(routine.revise V).head]) _] = [Spot.revise V _]
    rw [Routine.revise_head, ← here]
    rfl
  | classes name methods =>
    have here := σ.revise_declare (V := V) [name]
    rw [show V.tokens [name] = _ from Revision.tokens_kept kept, List.map_singleton] at here
    have kind : ∀ r : Routine, (r.revise V).methodKind = r.methodKind := by
      intro r
      unfold Routine.methodKind
      rw [Routine.revise_isInitializer]
    simp only [Stmt.revise, Stmt.parts, List.map_map, Routine.reviseAll_eq_map]
    refine List.map_congr_left fun r _ => ?_
    rw [Function.comp_apply, Function.comp_apply, kind, ← here]
    simp [Spot.revise, Setting.enter, Setting.revise, Frame.revise, Region.revise, Code.revise, Revision.tokens,
      Routine.reviseAll_eq_map]
  | _ => rfl

end

-- What a change may do to the code of a root, for the walk and the run to stay as they are.
structure Revision.Respects (V : Revision) (root : Spot) : Prop where
  -- Only variables whose initializer does nothing are left out.
  omits : ∀ {σ s}, root.Within ⟨σ, .stmt s⟩ → ∀ t ∈ s.declares, V.omits t = true → V.drops s = true
  parameters : ∀ {σ kind r}, root.Within ⟨σ, .routine kind r⟩ → ∀ t ∈ r.parameters, V.omits t = false
  -- Only local variables and parameters get a new name.
  still : ∀ {σ s}, root.Within ⟨σ, .stmt s⟩ → σ.frames = [] ∨ (∀ name initial, s ≠ .var name initial) →
    ∀ t ∈ s.declares, V.omits t = false ∧ V.declare t = t
  apart : ∀ t ∈ root.code.names, ∀ u ∈ root.code.names, (V.declare t).lexeme = (V.declare u).lexeme →
    t.lexeme = u.lexeme
  -- A reference changes with the declaration that it leads to, and meets no other one.
  follows : ∀ {σ e i name}, root.Within ⟨σ, .expr e⟩ → e.Refers i name → ∀ t, σ.binder? name.lexeme = some t →
    V.omits t = false ∧ (V.refer i name).lexeme = (V.declare t).lexeme
  stays : ∀ {σ e i name}, root.Within ⟨σ, .expr e⟩ → e.Refers i name → σ.binder? name.lexeme = none →
    (V.refer i name).lexeme = name.lexeme
  meets : ∀ {σ e i name}, root.Within ⟨σ, .expr e⟩ → e.Refers i name → ∀ t ∈ root.code.names,
    (V.declare t).lexeme = (V.refer i name).lexeme → t.lexeme = name.lexeme
  receivers : ∀ {σ e i name}, root.Within ⟨σ, .expr e⟩ → e.Refers i name →
    ((V.refer i name).lexeme = receiverName ↔ name.lexeme = receiverName)

-- Code that the change does not leave out.
def Spot.Kept (V : Revision) (S : Spot) : Prop := ∀ s, S.code = .stmt s → V.drops s = false

namespace Revision.Respects

variable {V : Revision} {root S T : Spot}

-- Where nothing gets shorter the parts are the revised parts.
theorem parts (h : V.Respects root) (inside : root.Within S) (kept : S.Kept V)
    (single : ∀ ss, S.code = .stmts ss → V.Whole) : (S.revise V).parts = S.parts.map (Spot.revise V) := by
  obtain ⟨σ, code⟩ := S
  cases code with
  | expr e =>
    show (e.revise V).parts.map _ = (e.parts.map _).map _
    rw [Expr.parts_revise, List.map_map, List.map_map]
    rfl
  | stmt s =>
    refine Stmt.parts_revise σ (fun t member => Bool.eq_false_iff.mpr fun omitted => ?_) fun r same => ?_
    · have dropped := h.omits inside t member omitted
      rw [kept s rfl] at dropped
      cases dropped
    · subst same
      exact (h.still inside (.inr nofun) _ (List.mem_singleton_self _)).2
  | stmts ss =>
    have whole := single ss rfl
    cases ss with
    | nil => rfl
    | cons s rest =>
      have here := σ.revise_declare (V := V) s.declares
      rw [whole.tokens, ← Stmt.revise_declares] at here
      have shape : Stmt.reviseAll V (s :: rest) = s.revise V :: Stmt.reviseAll V rest :=
        Stmt.reviseAll_kept (whole.drops s) (whole.stops s)
      show (Spot.parts ⟨σ.revise V, .stmts (Stmt.reviseAll V (s :: rest))⟩) = _
      rw [shape]
      show [Spot.mk _ _, Spot.mk _ _] = [Spot.revise V _, Spot.revise V _]
      rw [← here]
      rfl
  | routine kind r =>
    have entered := σ.revise_enterRoutine kind (h.parameters inside)
    show [Spot.mk ((σ.revise V).enterRoutine kind (r.revise V)) (.stmts (r.revise V).body)] = [Spot.revise V _]
    rw [← entered, Routine.revise_body]
    rfl

theorem kept_names (h : V.Respects root) {σ : Setting} {s : Stmt} (inside : root.Within ⟨σ, .stmt s⟩)
    (kept : V.drops s = false) : V.tokens s.declares = (s.revise V).declares := by
  rw [Stmt.revise_declares]
  refine Revision.tokens_kept fun t member => Bool.eq_false_iff.mpr fun omitted => ?_
  rw [h.omits inside t member omitted] at kept
  cases kept

-- Nothing but a statement of a list is left out.
theorem parts_kept (ordered : S.code.Ordered) (single : ∀ ss, S.code ≠ .stmts ss) (member : T ∈ S.parts) :
    T.Kept V := by
  obtain ⟨σ, code⟩ := S
  intro inner same
  refine Revision.drops_nameless ?_
  cases code with
  | expr e =>
    obtain ⟨part, inside, rfl⟩ := List.mem_map.mp member
    have nameless := Expr.parts_declare part inside
    rwa [show part = .stmt inner from same] at nameless
  | stmts ss => exact absurd rfl (single ss)
  | routine kind r =>
    cases List.mem_singleton.mp member
    cases same
  | stmt s =>
    cases s with
    | expression value | print keyword value | block body | function routine =>
      cases List.mem_singleton.mp member
      cases same
    | var name initial | giveBack name initial =>
      cases initial with
      | none => cases member
      | some e =>
        cases List.mem_singleton.mp member
        cases same
    | leave keyword => cases member
    | classes name methods =>
      obtain ⟨r, _, rfl⟩ := List.mem_map.mp member
      cases same
    | loop condition body =>
      rcases List.mem_cons.mp member with rfl | later
      · cases same
      · cases List.mem_singleton.mp later
        cases same
        exact ordered.2.2
    | branch condition yes no =>
      cases no with
      | none =>
        simp only [Spot.parts, Stmt.parts, List.mem_cons, List.not_mem_nil, or_false] at member
        rcases member with rfl | rfl
        · cases same
        · cases same
          exact ordered.2.2
      | some no =>
        simp only [Spot.parts, Stmt.parts, List.mem_cons, List.not_mem_nil, or_false] at member
        rcases member with rfl | rfl | rfl
        · cases same
        · cases same
          exact ordered.2.1.2
        · cases same
          exact ordered.2.2.2

-- Code of the changed program is code of the program, changed, or what is left of a list behind its end.
def Remains (V : Revision) (root T : Spot) : Prop :=
  T.code = .stmts [] ∨ ∃ S, root.Within S ∧ S.Kept V ∧ T = S.revise V

theorem stmts_remain (h : V.Respects root) {σ : Setting} {ss : List Stmt} (inside : root.Within ⟨σ, .stmts ss⟩) :
    ∀ T ∈ Spot.parts ⟨σ.revise V, .stmts (Stmt.reviseAll V ss)⟩, Remains V root T := by
  induction ss generalizing σ with
  | nil => nofun
  | cons s rest ih =>
    have first : root.Within ⟨σ, .stmt s⟩ := .part inside List.mem_cons_self
    have later : root.Within ⟨σ.declare s.declares, .stmts rest⟩ := .part inside (by simp [Spot.parts])
    cases dropped : V.drops s with
    | true =>
      obtain ⟨t, initial, rfl, omitted, -⟩ := Revision.dropped_var dropped
      have here := σ.revise_declare (V := V) [t]
      have none : V.tokens [t] = [] := by simp [Revision.tokens, omitted]
      rw [none, Setting.declare_nil] at here
      rw [Stmt.reviseAll_dropped dropped, ← here]
      exact ih later
    | false =>
      have kept : Spot.Kept V ⟨σ, .stmt s⟩ := fun _ same => by
        cases same
        exact dropped
      have here := σ.revise_declare (V := V) s.declares
      rw [h.kept_names first dropped] at here
      intro T member
      cases stopped : V.stops s with
      | true =>
        rw [Stmt.reviseAll_stopped dropped stopped] at member
        rcases List.mem_cons.mp member with rfl | last
        · exact .inr ⟨_, first, kept, rfl⟩
        · cases List.mem_singleton.mp last
          exact .inl rfl
      | false =>
        rw [Stmt.reviseAll_kept dropped stopped] at member
        rcases List.mem_cons.mp member with rfl | last
        · exact .inr ⟨_, first, kept, rfl⟩
        · cases List.mem_singleton.mp last
          rw [← here]
          exact .inr ⟨_, later, nofun, rfl⟩

theorem remains (h : V.Respects root) (ordered : ∀ {S}, root.Within S → S.code.Ordered) (kept : root.Kept V)
    (inside : (root.revise V).Within T) : Remains V root T := by
  induction inside with
  | root => exact .inr ⟨root, .root, kept, rfl⟩
  | @part U T _ member ih =>
    rcases ih with empty | ⟨S, within, whole, rfl⟩
    · obtain ⟨τ, code⟩ := U
      cases empty
      cases member
    · by_cases single : ∃ ss, S.code = .stmts ss
      · obtain ⟨ss, same⟩ := single
        obtain ⟨σ, code⟩ := S
        cases same
        exact h.stmts_remain within T member
      · have single : ∀ ss, S.code ≠ .stmts ss := fun ss same => single ⟨ss, same⟩
        rw [h.parts within whole fun ss same => absurd same (single ss)] at member
        obtain ⟨part, given, rfl⟩ := List.mem_map.mp member
        exact .inr ⟨part, .part within given, parts_kept (ordered within) single given, rfl⟩

end Revision.Respects

end ScopeScript
