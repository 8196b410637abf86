import ScopeScript.Proofs.Scoping.Lawful

namespace ScopeScript

def Code.mentions : Code → List Mention
  | .expr e => e.mentions
  | .stmt s => s.mentions
  | .stmts ss => Stmt.mentionsAll ss
  | .routine _ r => r.mentions

def Code.tokens (code : Code) : List Token := tokensOf code.mentions

-- The names the code adds to the scope it stands in.
def Code.declares : Code → List Token
  | .stmt s => s.declares
  | .stmts ss => ss.flatMap Stmt.declares
  | _ => []

theorem Expr.mem_mentionsAll {es : List Expr} (inside : e ∈ es) (member : m ∈ e.mentions) :
    m ∈ Expr.mentionsAll es := by
  induction es with
  | nil => cases inside
  | cons first rest ih =>
    rw [Expr.mentionsAll, List.mem_append]
    rcases List.mem_cons.mp inside with rfl | later
    · exact .inl member
    · exact .inr (ih later)

theorem Routine.mem_mentionsAll {rs : List Routine} (inside : r ∈ rs) (member : m ∈ r.mentions) :
    m ∈ Routine.mentionsAll rs := by
  induction rs with
  | nil => cases inside
  | cons first rest ih =>
    rw [Routine.mentionsAll, List.mem_append]
    rcases List.mem_cons.mp inside with rfl | later
    · exact .inl member
    · exact .inr (ih later)

theorem Expr.parts_mentions {e : Expr} :
    ∀ part ∈ e.parts, ∀ m ∈ part.mentions, m ∈ e.mentions := by
  intro part member m mentioned
  cases e with
  | call callee close arguments =>
    rw [Expr.mentions, List.mem_append]
    rcases List.mem_cons.mp member with rfl | later
    · exact .inl mentioned
    · obtain ⟨argument, inside, rfl⟩ := List.mem_map.mp later
      exact .inr (Expr.mem_mentionsAll inside mentioned)
  | binary left operator right | logical left operator right | set left name right =>
    rw [Expr.mentions, List.mem_append]
    rcases List.mem_cons.mp member with rfl | later
    · exact .inl mentioned
    · rw [List.mem_singleton.mp later] at mentioned
      exact .inr mentioned
  | grouping inner | unary operator inner | lambda inner | get inner name =>
    rw [List.mem_singleton.mp member] at mentioned
    exact mentioned
  | assign i name value =>
    rw [List.mem_singleton.mp member] at mentioned
    exact List.mem_append_left _ mentioned
  | _ => cases member

theorem Stmt.parts_mentions {σ : Setting} {s : Stmt} :
    ∀ part ∈ s.parts σ, ∀ m ∈ part.code.mentions, m ∈ s.mentions := by
  intro part member m mentioned
  cases s with
  | classes name methods =>
    obtain ⟨r, inside, rfl⟩ := List.mem_map.mp member
    exact List.mem_cons_of_mem _ (Routine.mem_mentionsAll inside mentioned)
  | expression value | print keyword value | block body =>
    rw [List.mem_singleton.mp member] at mentioned
    exact mentioned
  | function routine =>
    rw [List.mem_singleton.mp member] at mentioned
    exact List.mem_cons_of_mem _ mentioned
  | var name initial =>
    cases initial with
    | none => cases member
    | some e =>
      rw [List.mem_singleton.mp member] at mentioned
      exact List.mem_cons_of_mem _ mentioned
  | giveBack keyword value =>
    cases value with
    | none => cases member
    | some e =>
      rw [List.mem_singleton.mp member] at mentioned
      exact mentioned
  | loop condition body =>
    rw [Stmt.mentions, List.mem_append]
    rcases List.mem_cons.mp member with rfl | later
    · exact .inl mentioned
    · rw [List.mem_singleton.mp later] at mentioned
      exact .inr mentioned
  | branch condition yes no =>
    cases no with
    | none =>
      rw [Stmt.mentions, List.mem_append]
      rcases List.mem_cons.mp member with rfl | later
      · exact .inl mentioned
      · rw [List.mem_singleton.mp later] at mentioned
        exact .inr mentioned
    | some no =>
      rw [Stmt.mentions, List.mem_append, List.mem_append]
      rcases List.mem_cons.mp member with rfl | later
      · exact .inl mentioned
      · rcases List.mem_cons.mp later with rfl | last
        · exact .inr (.inl mentioned)
        · rw [List.mem_singleton.mp last] at mentioned
          exact .inr (.inr mentioned)
  | leave keyword => cases member

theorem Spot.parts_mentions {S T : Spot} (member : T ∈ S.parts) :
    ∀ m ∈ T.code.mentions, m ∈ S.code.mentions := by
  intro m mentioned
  obtain ⟨σ, code⟩ := S
  cases code with
  | expr e =>
    obtain ⟨part, inside, rfl⟩ := List.mem_map.mp member
    exact Expr.parts_mentions part inside m mentioned
  | stmt s => exact Stmt.parts_mentions T member m mentioned
  | stmts ss =>
    cases ss with
    | nil => cases member
    | cons s rest =>
      show m ∈ Stmt.mentionsAll (s :: rest)
      rw [Stmt.mentionsAll, List.mem_append]
      rcases List.mem_cons.mp member with rfl | later
      · exact .inl mentioned
      · rw [List.mem_singleton.mp later] at mentioned
        exact .inr mentioned
  | routine kind r =>
    rw [List.mem_singleton.mp member] at mentioned
    obtain ⟨head, parameters, body⟩ := r
    exact List.mem_append_right _ mentioned

theorem Spot.Within.mentions {root S : Spot} (inside : root.Within S) :
    ∀ m ∈ S.code.mentions, m ∈ root.code.mentions := by
  induction inside with
  | root => exact fun _ member => member
  | part _ member ih => exact fun m mentioned => ih m (Spot.parts_mentions member m mentioned)

theorem Expr.Refers.mentioned {e : Expr} (refers : e.Refers i name) : ⟨name, some i⟩ ∈ e.mentions := by
  cases refers with
  | look => exact List.mem_singleton_self _
  | assign => exact List.mem_append_right _ (List.mem_singleton_self _)
  | this => exact List.mem_singleton_self _

theorem Spot.Within.ref_mem {root : Spot} (inside : root.Within ⟨σ, .expr e⟩)
    (refers : e.Refers i name) : i ∈ refsOf root.code.mentions :=
  List.mem_filterMap.mpr ⟨_, inside.mentions _ refers.mentioned, rfl⟩

-- A frame around code that mentions the given tokens. What the frame has seen stands before the
-- code; what else its region declares is declared by the code itself or stands behind it.
structure Frame.Placed (f : Frame) (own tokens : List Token) : Prop where
  mine : ∀ d ∈ own, d ∈ f.region.declares
  seen : ∀ d ∈ f.seen, d ∈ f.region.declares ∧ ∀ t ∈ tokens, d.Earlier t
  unseen : ∀ d ∈ f.region.declares, d ∈ f.seen ∨ d ∈ own ∨ ∀ t ∈ tokens, t.Earlier d

-- The code declares the first of its names before the part looked at, and the last ones behind it.
theorem Frame.Placed.advance {f g : Frame} {own now later behind tokens inside : List Token}
    (h : f.Placed own tokens) (same : g.region = f.region)
    (added : ∀ d, d ∈ g.seen ↔ d ∈ f.seen ∨ d ∈ now) (fewer : ∀ t ∈ inside, t ∈ tokens)
    (split : ∀ d, d ∈ own ↔ d ∈ now ∨ d ∈ later ∨ d ∈ behind)
    (before : Precedes now inside) (after : Precedes inside behind) : g.Placed later inside := by
  refine ⟨fun d member => ?_, fun d member => ?_, fun d member => ?_⟩
  · rw [same]
    exact h.mine d ((split d).mpr (.inr (.inl member)))
  · rw [same]
    rcases (added d).mp member with seen | new
    · exact ⟨(h.seen d seen).1, fun t inner => (h.seen d seen).2 t (fewer t inner)⟩
    · exact ⟨h.mine d ((split d).mpr (.inl new)), before d new⟩
  · rw [same] at member
    rcases h.unseen d member with seen | given | last
    · exact .inl ((added d).mpr (.inl seen))
    · rcases (split d).mp given with new | rest | last
      · exact .inl ((added d).mpr (.inr new))
      · exact .inr (.inl rest)
      · exact .inr (.inr fun t inner => after t inner d last)
    · exact .inr (.inr fun t inner => last t (fewer t inner))

def Setting.Placed (σ : Setting) (own tokens : List Token) : Prop :=
  match σ.frames with
  | [] => True
  | f :: outer => f.Placed own tokens ∧ ∀ g ∈ outer, g.Placed [] tokens

theorem Precedes.of_none (w : List Token) : Precedes [] w := nofun

theorem Precedes.to_none (w : List Token) : Precedes w [] := fun _ _ _ member => nomatch member

theorem Frame.Placed.narrow {f : Frame} {tokens inside : List Token} (h : f.Placed [] tokens)
    (fewer : ∀ t ∈ inside, t ∈ tokens) : f.Placed [] inside := by
  refine ⟨nofun, fun d member => ?_, fun d member => ?_⟩
  · exact ⟨(h.seen d member).1, fun t inner => (h.seen d member).2 t (fewer t inner)⟩
  · exact (h.unseen d member).imp_right (.imp_right fun later t inner => later t (fewer t inner))

theorem Setting.Placed.changed {σ : Setting} {own now later tokens inside : List Token}
    (h : σ.Placed own tokens) (change : Frame → Frame) (same : ∀ f, (change f).region = f.region)
    (added : ∀ f d, d ∈ (change f).seen ↔ d ∈ f.seen ∨ d ∈ now) (fewer : ∀ t ∈ inside, t ∈ tokens)
    (behind : List Token) (split : ∀ d, d ∈ own ↔ d ∈ now ∨ d ∈ later ∨ d ∈ behind)
    (before : Precedes now inside) (after : Precedes inside behind) :
    (σ.onInnermost change).Placed later inside := by
  obtain ⟨frames, body, around⟩ := σ
  cases frames with
  | nil => trivial
  | cons f outer =>
    obtain ⟨inner, others⟩ := h
    refine ⟨inner.advance (same f) (added f) fewer split before after, fun g member => ?_⟩
    exact (others g member).narrow fewer

theorem Setting.Placed.declare {σ : Setting} {own later tokens inside : List Token}
    (h : σ.Placed own tokens) (now : List Token) (fewer : ∀ t ∈ inside, t ∈ tokens)
    (split : ∀ d, d ∈ own ↔ d ∈ now ∨ d ∈ later) (before : Precedes now inside) :
    (σ.declare now).Placed later inside := by
  refine h.changed _ (fun _ => rfl) (fun f d => ?_) fewer [] (by simpa using split) before (.to_none _)
  simp only [Frame.seen, List.mem_append]
  rw [or_right_comm]

-- Part of the code, in the same place.
theorem Setting.Placed.within {σ : Setting} {own later tokens inside : List Token}
    (h : σ.Placed own tokens) (fewer : ∀ t ∈ inside, t ∈ tokens) (behind : List Token)
    (split : ∀ d, d ∈ own ↔ d ∈ later ∨ d ∈ behind) (after : Precedes inside behind) :
    σ.Placed later inside := by
  have same : σ.onInnermost id = σ := by
    obtain ⟨frames, body, around⟩ := σ
    cases frames <;> rfl
  have none : Precedes [] inside := .of_none _
  have found := h.changed id (fun _ => rfl) (by simp) fewer behind (by simpa using split) none after
  rwa [same] at found

theorem Setting.Placed.enter {σ : Setting} {own tokens inside : List Token} (h : σ.Placed [] tokens)
    (f : Frame) (new : f.Placed own inside) (fewer : ∀ t ∈ inside, t ∈ tokens) (kind : BodyKind)
    (around : List Stmt) : Setting.Placed ⟨f :: σ.frames, kind, around⟩ own inside := by
  obtain ⟨frames, body, around⟩ := σ
  refine ⟨new, fun g member => ?_⟩
  cases frames with
  | nil => cases member
  | cons first outer =>
    rcases List.mem_cons.mp member with rfl | later
    · exact h.1.narrow fewer
    · exact (h.2 g later).narrow fewer

def Spot.Placed (S : Spot) : Prop := S.setting.Placed S.code.declares S.code.tokens

theorem Spot.parts_tokens {S T : Spot} (member : T ∈ S.parts) :
    ∀ t ∈ T.code.tokens, t ∈ S.code.tokens := by
  intro t inside
  obtain ⟨m, mentioned, rfl⟩ := List.mem_map.mp inside
  exact List.mem_map.mpr ⟨m, Spot.parts_mentions member m mentioned, rfl⟩

theorem Setting.Placed.initializing {σ : Setting} {tokens inside : List Token} (name : Token)
    (h : σ.Placed [name] tokens) (fewer : ∀ t ∈ inside, t ∈ tokens) (before : Precedes [name] inside) :
    (σ.initializing name).Placed [] inside := by
  refine h.changed _ (fun _ => rfl) (fun f d => ?_) fewer [] (by simp) before (.to_none _)
  simp only [Frame.seen, List.mem_append, List.mem_cons, List.not_mem_nil, or_false]
  rw [or_left_comm, or_comm (a := d = name)]

theorem Stmt.parts_placed {σ : Setting} {s : Stmt} (ordered : s.Ordered)
    (h : Spot.Placed ⟨σ, .stmt s⟩) : ∀ part ∈ s.parts σ, part.Placed := by
  intro part member
  have fewer := Spot.parts_tokens (S := ⟨σ, .stmt s⟩) member
  have placed : σ.Placed s.declares (Code.stmt s).tokens := h
  -- What declares nothing inside a statement that declares nothing.
  have inner : ∀ code : Code, s.declares = [] → code.declares = [] →
      (∀ t ∈ code.tokens, t ∈ (Code.stmt s).tokens) → σ.Placed code.declares code.tokens := by
    intro code nothing nothing' fewer
    rw [nothing'] 
    rw [nothing] at placed
    exact placed.within fewer [] (by simp) (.to_none _)
  cases s with
  | expression value | print keyword value =>
    rw [List.mem_singleton.mp member] at fewer ⊢
    exact inner (.expr value) rfl rfl fewer
  | var name initial =>
    cases initial with
    | none => cases member
    | some e =>
      rw [List.mem_singleton.mp member] at fewer ⊢
      exact placed.initializing name fewer ordered.2
  | block body =>
    rw [List.mem_singleton.mp member] at fewer ⊢
    refine placed.enter _ ?_ fewer _ _
    exact ⟨fun d own => own, nofun, fun d own => .inr (.inl own)⟩
  | branch condition yes no =>
    cases no with
    | none =>
      rcases List.mem_cons.mp member with rfl | later
      · exact inner (.expr condition) rfl rfl fewer
      · rw [List.mem_singleton.mp later] at fewer ⊢
        exact inner (.stmt yes) rfl ordered.2.2 fewer
    | some no =>
      rcases List.mem_cons.mp member with rfl | later
      · exact inner (.expr condition) rfl rfl fewer
      · rcases List.mem_cons.mp later with rfl | last
        · exact inner (.stmt yes) rfl ordered.2.1.2 fewer
        · rw [List.mem_singleton.mp last] at fewer ⊢
          exact inner (.stmt no) rfl ordered.2.2.2 fewer
  | loop condition body =>
    rcases List.mem_cons.mp member with rfl | later
    · exact inner (.expr condition) rfl rfl fewer
    · rw [List.mem_singleton.mp later] at fewer ⊢
      exact inner (.stmt body) rfl ordered.2.2 fewer
  | leave keyword => cases member
  | function routine =>
    rw [List.mem_singleton.mp member] at fewer ⊢
    exact placed.declare [routine.head] fewer (by simp [Stmt.declares, Code.declares]) ordered.2
  | giveBack keyword value =>
    cases value with
    | none => cases member
    | some e =>
      rw [List.mem_singleton.mp member] at fewer ⊢
      exact inner (.expr e) rfl rfl fewer
  | classes name methods =>
    obtain ⟨r, inside, rfl⟩ := List.mem_map.mp member
    have named : (σ.declare [name]).Placed [] (tokensOf (Routine.mentionsAll methods)) :=
      placed.declare [name] (fun t later => List.mem_cons_of_mem _ later) (by simp [Stmt.declares])
        ordered.2
    refine named.enter _ ?_ ?_ _ _
    · exact ⟨nofun, nofun, nofun⟩
    · intro t mentioned
      obtain ⟨m, inner, rfl⟩ := List.mem_map.mp mentioned
      exact List.mem_map.mpr ⟨m, Routine.mem_mentionsAll inside inner, rfl⟩

theorem Expr.parts_declare {e : Expr} : ∀ part ∈ e.parts, part.declares = [] := by
  intro part member
  cases e with
  | call callee close arguments =>
    rcases List.mem_cons.mp member with rfl | later
    · rfl
    · obtain ⟨argument, _, rfl⟩ := List.mem_map.mp later
      rfl
  | binary left operator right | logical left operator right | set left name right =>
    rcases List.mem_cons.mp member with rfl | later
    · rfl
    · rw [List.mem_singleton.mp later]
      rfl
  | grouping inner | unary operator inner | lambda inner | get inner name | assign i name inner =>
    rw [List.mem_singleton.mp member]
    rfl
  | _ => cases member

theorem Spot.Placed.part {S T : Spot} (ordered : S.code.Ordered) (h : S.Placed) (member : T ∈ S.parts) :
    T.Placed := by
  have fewer := Spot.parts_tokens member
  obtain ⟨σ, code⟩ := S
  cases code with
  | expr e =>
    obtain ⟨part, inside, rfl⟩ := List.mem_map.mp member
    have placed : σ.Placed [] (Code.expr e).tokens := h
    show σ.Placed part.declares part.tokens
    rw [Expr.parts_declare part inside]
    exact placed.within fewer [] (by simp) (.to_none _)
  | stmt s => exact Stmt.parts_placed ordered h T member
  | stmts ss =>
    cases ss with
    | nil => cases member
    | cons s rest =>
      obtain ⟨_, declared, mentioned⟩ := ordered
      have placed : σ.Placed (s.declares ++ rest.flatMap Stmt.declares) (Code.stmts (s :: rest)).tokens := h
      rcases List.mem_cons.mp member with rfl | later
      · exact placed.within fewer _ (by simp [Code.declares]) mentioned
      · rw [List.mem_singleton.mp later] at fewer ⊢
        exact placed.declare s.declares fewer (by simp [Code.declares]) declared
  | routine kind r =>
    rw [List.mem_singleton.mp member] at fewer ⊢
    obtain ⟨head, parameters, body⟩ := r
    have placed : σ.Placed [] (Code.routine kind (.mk head parameters body)).tokens := h
    refine placed.enter _ ?_ fewer _ _
    refine ⟨fun d own => List.mem_append_right _ own, fun d seen => ?_, fun d own => ?_⟩
    · have parameter : d ∈ parameters := by simpa [Frame.seen, Routine.parameters] using seen
      exact ⟨List.mem_append_left _ parameter, fun t inside => ordered.2 d parameter t inside⟩
    · rcases List.mem_append.mp own with parameter | inner
      · exact .inl (List.mem_append_left _ parameter)
      · exact .inr (.inl inner)

-- A region declares a name before a token.
def Region.DeclaresBefore (region : Region) (name : String) (t : Token) : Prop :=
  (∃ d ∈ region.declares, d.lexeme = name ∧ d.Earlier t) ∨
    (region.isReceiver = true ∧ name = receiverName)

theorem Token.Earlier.asymm {a b : Token} (h : a.Earlier b) : ¬b.Earlier a := by
  intro back
  have total := Position.before_total a.position b.position
  rw [h, back] at total
  cases total

-- In front of a reference a frame knows what its region declares before it.
theorem Frame.Placed.declares_iff {f : Frame} {tokens : List Token} (h : f.Placed [] tokens)
    (inside : t ∈ tokens) (name : String) : f.declares name = true ↔ f.region.DeclaresBefore name t := by
  unfold Frame.declares Region.DeclaresBefore
  rw [Bool.or_eq_true, Bool.and_eq_true, List.any_eq_true]
  constructor
  · rintro (⟨d, seen, same⟩ | ⟨receiver, same⟩)
    · obtain ⟨declared, before⟩ := h.seen d seen
      exact .inl ⟨d, declared, beq_iff_eq.mp same, before t inside⟩
    · exact .inr ⟨receiver, (beq_iff_eq.mp same).symm⟩
  · rintro (⟨d, declared, same, before⟩ | ⟨receiver, same⟩)
    · rcases h.unseen d declared with seen | own | behind
      · exact .inl ⟨d, seen, beq_iff_eq.mpr same⟩
      · cases own
      · exact absurd (behind t inside) before.asymm
    · exact .inr ⟨receiver, beq_iff_eq.mpr same.symm⟩

theorem Spot.Within.placed {root S : Spot} {final : Walk} (inside : root.Within S)
    (passed : root.Passed final) (placed : root.Placed) : S.Placed := by
  induction inside with
  | root => exact placed
  | part before member ih => exact ih.part (before.passed passed).1 member

-- At a reference every frame around knows what its region declares earlier in the source.
theorem Spot.Within.declares_iff {root : Spot} {final : Walk} {σ : Setting} {e : Expr}
    (inside : root.Within ⟨σ, .expr e⟩) (passed : root.Passed final) (placed : root.Placed)
    (refers : e.Refers i t) (name : String) :
    ∀ f ∈ σ.frames, f.declares name = true ↔ f.region.DeclaresBefore name t := by
  have here : σ.Placed [] (Code.expr e).tokens := inside.placed passed placed
  have mentioned : t ∈ (Code.expr e).tokens := List.mem_map.mpr ⟨_, refers.mentioned, rfl⟩
  intro f member
  obtain ⟨frames, body, around⟩ := σ
  cases frames with
  | nil => cases member
  | cons first outer =>
    rcases List.mem_cons.mp member with rfl | later
    · exact here.1.declares_iff mentioned name
    · exact (here.2 f later).declares_iff mentioned name

end ScopeScript
