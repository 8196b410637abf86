import ScopeScript.Lexis.Scan
import ScopeScript.Proofs.Grammar.Sound
import ScopeScript.Proofs.Scoping.Await
import ScopeScript.Proofs.Scoping.Everywhere

namespace ScopeScript

-- The names of a list that stand before it or further to its front.
def repeated (before : List Token) : List Token → List Token
  | [] => []
  | t :: rest => (if before.any (·.lexeme == t.lexeme) then [t] else []) ++ repeated (before ++ [t]) rest

namespace Setting

-- The names declared so far in the innermost scope; global names are in none.
def declared (σ : Setting) : List Token :=
  match σ.frames with
  | [] => []
  | f :: _ => f.declared

-- The code is in the initializer of a local variable with the name, and in no lambda inside it.
def initializes (σ : Setting) (name : String) : Bool :=
  match σ.frames with
  | [] => false
  | f :: _ => f.initializing.any (·.lexeme == name)

end Setting

def StaticFault.ofRepeated (t : Token) : StaticFault := ⟨.duplicateDeclaration, t⟩

-- The rules that a single piece of code breaks where it stands, its parts left out.

def Expr.breaches (σ : Setting) : Expr → List StaticFault
  | .variable _ name => if σ.initializes name.lexeme then [⟨.selfReferentialInitializer, name⟩] else []
  | .this _ keyword => if σ.inClass then [] else [⟨.thisOutsideClass, keyword⟩]
  | _ => []

def Stmt.breaches (σ : Setting) : Stmt → List StaticFault
  | .leave keyword => if σ.loops = 0 then [⟨.breakOutsideLoop, keyword⟩] else []
  | .giveBack keyword value =>
    (if σ.body = .outside then [⟨.returnOutsideFunction, keyword⟩] else []) ++
      if σ.body = .initializer ∧ value.isSome then [⟨.valueFromInitializer, keyword⟩] else []
  | s => (repeated σ.declared s.declares).map .ofRepeated

def Spot.breaches : Spot → List StaticFault
  | ⟨σ, .expr e⟩ => e.breaches σ
  | ⟨σ, .stmt s⟩ => s.breaches σ
  | ⟨_, .stmts _⟩ => []
  | ⟨_, .routine _ r⟩ => (repeated [] r.parameters).map .ofRepeated

-- All rules that some code breaks, in reading order.
def Spot.findings (S : Spot) : List StaticFault := S.everywhere.flatMap Spot.breaches

theorem Spot.findings_eq (S : Spot) : S.findings = S.breaches ++ S.parts.flatMap Spot.findings :=
  S.everywhere_flatMap Spot.breaches

theorem Spot.findings_expr (σ : Setting) (e : Expr) : findings ⟨σ, .expr e⟩ =
    e.breaches σ ++ e.parts.flatMap fun part => findings ⟨σ, part⟩ := by
  rw [findings_eq]
  exact congrArg _ (List.flatMap_map ..)

theorem Spot.findings_stmt (σ : Setting) (s : Stmt) : findings ⟨σ, .stmt s⟩ =
    s.breaches σ ++ (s.parts σ).flatMap findings := findings_eq _

namespace Walk

variable {w : Walk} {σ : Setting}

theorem settle_faults (w : Walk) (t : Token) : (w.settle t).faults = w.faults := by
  unfold settle
  split
  · rfl
  · split <;> rfl

theorem leave_faults (w : Walk) : w.leave.faults = w.faults := by
  obtain ⟨warnings, left⟩ := w.leave_warns
  rw [left]

theorem refer_faults (w : Walk) (i : RefId) (t : Token) : (w.refer i t).faults = w.faults := by
  unfold refer
  split <;> rfl

theorem Follows.declare_faults (h : w.Follows σ) (settled : σ.Settled) (t : Token) :
    (w.declare t).faults.toList = w.faults.toList ++ (repeated σ.declared [t]).map .ofRepeated := by
  obtain ⟨frames, body, around⟩ := σ
  have scopes := h.scopes
  unfold Walk.declare
  cases given : w.scopes with
  | nil =>
    rw [given] at scopes
    cases scopes
    simp [repeated, Setting.declared]
  | cons names outer =>
    rw [given] at scopes
    cases scopes with
    | @cons f _ frames _ inner rest =>
      obtain ⟨nothing, bare⟩ := settled f frames rfl
      have known : names.binds t.lexeme = f.declared.any (·.lexeme == t.lexeme) := by
        rw [inner t.lexeme]
        simp [Frame.declares, Frame.seen, nothing, bare]
      dsimp only
      rw [known]
      cases again : f.declared.any (·.lexeme == t.lexeme) <;>
        simp [repeated, Setting.declared, again, fault, StaticFault.ofRepeated]

theorem Follows.introduce_faults (h : w.Follows σ) (settled : σ.Settled) (t : Token) :
    (w.introduce t).faults.toList = w.faults.toList ++ (repeated σ.declared [t]).map .ofRepeated := by
  rw [Walk.introduce, settle_faults]
  exact h.declare_faults settled t

theorem Follows.introduceAll_faults (h : w.Follows σ) (settled : σ.Settled) (inside : σ.frames ≠ [])
    (names : List Token) : (names.foldl Walk.introduce w).faults.toList =
      w.faults.toList ++ (repeated σ.declared names).map .ofRepeated := by
  induction names generalizing w σ with
  | nil => simp [repeated]
  | cons t rest ih =>
    obtain ⟨frames, body, around⟩ := σ
    cases frames with
    | nil => exact absurd rfl inside
    | cons f outer =>
      have later := ih (h.introduce t) (settled.declare [t]) nofun
      rw [List.foldl_cons, later, h.introduce_faults settled]
      simp [repeated, Setting.declared, Setting.declare, Setting.onInnermost]

end Walk

-- The walk finds the rules that the code breaks, each where it is broken and in reading order.
mutual

theorem Expr.resolve_finds {w : Walk} {σ : Setting} : (e : Expr) → e.Formed → w.Follows σ → w.Awaits σ →
    (e.resolve w).faults.toList = w.faults.toList ++ Spot.findings ⟨σ, .expr e⟩
  | .literal _, _, _, _ => by
    simp [Spot.findings_expr, Expr.breaches, Expr.parts, Expr.resolve]
  | .grouping inner, formed, h, a => by
    rw [Spot.findings_expr, Expr.resolve]
    simpa [Expr.breaches, Expr.parts] using inner.resolve_finds formed h a
  | .unary _ operand, formed, h, a => by
    rw [Spot.findings_expr, Expr.resolve]
    simpa [Expr.breaches, Expr.parts] using operand.resolve_finds formed h a
  | .binary left _ right, formed, h, a => by
    have first := left.resolve_finds formed.1 h a
    have second := right.resolve_finds formed.2 (left.resolve_follows formed.1 h) (left.resolve_awaits a)
    rw [Spot.findings_expr, Expr.resolve]
    simpa [Expr.breaches, Expr.parts, first] using second
  | .logical left _ right, formed, h, a => by
    have first := left.resolve_finds formed.1 h a
    have second := right.resolve_finds formed.2 (left.resolve_follows formed.1 h) (left.resolve_awaits a)
    rw [Spot.findings_expr, Expr.resolve]
    simpa [Expr.breaches, Expr.parts, first] using second
  | .variable i name, _, _, a => by
    have waiting : w.initializing name.lexeme = σ.initializes name.lexeme := a.initializing_iff name.lexeme
    rw [Spot.findings_expr]
    unfold Expr.resolve
    dsimp only
    rw [waiting, Walk.refer_faults]
    cases found : σ.initializes name.lexeme <;>
      simp [Expr.breaches, Expr.parts, found, Walk.fault]
  | .assign i name value, formed, h, a => by
    rw [Spot.findings_expr, Expr.resolve, Walk.refer_faults]
    simpa [Expr.breaches, Expr.parts] using value.resolve_finds formed h a
  | .call callee _ arguments, formed, h, a => by
    have first := callee.resolve_finds formed.1 h a
    have second := Expr.resolveAll_finds arguments formed.2 (callee.resolve_follows formed.1 h)
      (callee.resolve_awaits a)
    rw [Spot.findings_expr, Expr.resolve]
    simpa [Expr.breaches, Expr.parts, first, List.flatMap_map] using second
  | .lambda routine, formed, h, a => by
    rw [Spot.findings_expr, Expr.resolve]
    simpa [Expr.breaches, Expr.parts] using routine.resolve_finds .lambda formed h a
  | .get object _, formed, h, a => by
    rw [Spot.findings_expr, Expr.resolve]
    simpa [Expr.breaches, Expr.parts] using object.resolve_finds formed h a
  | .set object _ value, formed, h, a => by
    have first := object.resolve_finds formed.1 h a
    have second := value.resolve_finds formed.2 (object.resolve_follows formed.1 h) (object.resolve_awaits a)
    rw [Spot.findings_expr, Expr.resolve]
    simpa [Expr.breaches, Expr.parts, first] using second
  | .this i keyword, _, h, _ => by
    rw [Spot.findings_expr]
    unfold Expr.resolve
    rw [h.inClass]
    cases found : σ.inClass
    · simp [Expr.breaches, Expr.parts, found, Walk.fault]
    · simp [Expr.breaches, Expr.parts, found, Walk.refer_faults]

theorem Expr.resolveAll_finds {w : Walk} {σ : Setting} : (es : List Expr) → Expr.FormedAll es → w.Follows σ →
    w.Awaits σ → (Expr.resolveAll es w).faults.toList =
      w.faults.toList ++ es.flatMap fun e => Spot.findings ⟨σ, .expr e⟩
  | [], _, _, _ => by simp [Expr.resolveAll]
  | e :: rest, formed, h, a => by
    have first := e.resolve_finds formed.1 h a
    have second := Expr.resolveAll_finds rest formed.2 (e.resolve_follows formed.1 h) (e.resolve_awaits a)
    rw [Expr.resolveAll]
    simpa [first] using second

theorem Stmt.resolve_finds {w : Walk} {σ : Setting} : (s : Stmt) → s.Formed → σ.Settled → w.Follows σ → w.Awaits σ →
    (s.resolve w).faults.toList = w.faults.toList ++ Spot.findings ⟨σ, .stmt s⟩
  | .expression value, formed, _, h, a => by
    rw [Spot.findings_stmt, Stmt.resolve]
    simpa [Stmt.breaches, Stmt.declares, repeated, Stmt.parts] using
      value.resolve_finds formed h a
  | .print _ value, formed, _, h, a => by
    rw [Spot.findings_stmt, Stmt.resolve]
    simpa [Stmt.breaches, Stmt.declares, repeated, Stmt.parts] using
      value.resolve_finds formed h a
  | .var name none, _, settled, h, _ => by
    rw [Spot.findings_stmt, Stmt.resolve]
    simpa [Stmt.breaches, Stmt.declares, Stmt.parts] using h.introduce_faults settled name
  | .var name (some initial), formed, settled, h, a => by
    have declared := h.declare_faults settled name
    have inside := initial.resolve_finds formed (h.initializing name) (a.declare name)
    rw [Spot.findings_stmt, Stmt.resolve, Walk.settle_faults]
    simpa [Stmt.breaches, Stmt.declares, Stmt.parts, declared] using inside
  | .block body, formed, _, h, a => by
    have entered : (w.enter []).Awaits ((σ.nest (.block body)).enter (.block body)) := a.enter (.block body) fun _ => rfl
    have inside := Stmt.resolveAll_finds body formed (.block (σ.nest (.block body)) body) (h.block body) entered
    change _ = w.faults.toList ++ _ at inside
    rw [Spot.findings_stmt, Stmt.resolve, Walk.leave_faults]
    simpa [Stmt.breaches, Stmt.declares, repeated, Stmt.parts] using inside
  | .branch condition yes none, formed, settled, h, a => by
    obtain ⟨test, inner, _⟩ := formed
    have asked := condition.resolve_finds test h a
    have taken := yes.resolve_finds (σ := σ.nest (.branch condition yes none)) inner settled
      ((condition.resolve_follows test h).nest _ rfl) (condition.resolve_awaits a)
    rw [Spot.findings_stmt, Stmt.resolve]
    simpa [Stmt.breaches, Stmt.declares, repeated, Stmt.parts, asked] using taken
  | .branch condition yes (some no), formed, settled, h, a => by
    obtain ⟨test, ⟨inner, nothing⟩, other, _⟩ := formed
    have asked := condition.resolve_finds test h a
    have before := condition.resolve_follows test h
    have taken := yes.resolve_finds (σ := σ.nest (.branch condition yes (some no))) inner settled
      (before.nest _ rfl) (condition.resolve_awaits a)
    have between := yes.resolve_follows inner before
    rw [nothing, σ.declare_nil] at between
    have refused := no.resolve_finds (σ := σ.nest (.branch condition yes (some no))) other settled
      (between.nest _ rfl) (yes.resolve_awaits settled (condition.resolve_awaits a))
    rw [Spot.findings_stmt, Stmt.resolve]
    simpa [Stmt.breaches, Stmt.declares, repeated, Stmt.parts, asked, taken] using refused
  | .loop condition body, formed, settled, h, a => by
    obtain ⟨test, inner, _⟩ := formed
    have turned := h.turn condition body
    have awaited : Walk.Awaits { w with loops := w.loops + 1 } (σ.nest (.loop condition body)) := a
    have asked := condition.resolve_finds test turned awaited
    have taken := body.resolve_finds (σ := σ.nest (.loop condition body)) inner settled (condition.resolve_follows test turned)
      (condition.resolve_awaits awaited)
    rw [Spot.findings_stmt, Stmt.resolve]
    simpa [Stmt.breaches, Stmt.declares, repeated, Stmt.parts, asked] using taken
  | .leave keyword, _, _, h, _ => by
    rw [Spot.findings_stmt]
    unfold Stmt.resolve
    rw [h.loops]
    by_cases none : σ.loops = 0 <;>
      simp [Stmt.breaches, Stmt.parts, none, Walk.fault]
  | .function routine, formed, settled, h, a => by
    have declared := h.introduce_faults settled routine.head
    have inside := routine.resolve_finds .function formed (h.introduce routine.head)
      ((a.introduce settled routine.head).declared [routine.head])
    rw [Spot.findings_stmt, Stmt.resolve]
    simpa [Stmt.breaches, Stmt.declares, Stmt.parts, declared] using inside
  | .giveBack keyword none, _, _, h, _ => by
    rw [Spot.findings_stmt]
    unfold Stmt.resolve
    rw [h.body]
    by_cases outside : σ.body = .outside <;>
      simp [Stmt.breaches, Stmt.parts, outside, Walk.fault]
  | .giveBack keyword (some value), formed, _, h, a => by
    rw [Spot.findings_stmt]
    unfold Stmt.resolve
    dsimp only
    rw [h.body]
    by_cases outside : σ.body = .outside
    · have inside := value.resolve_finds formed (h.faulted .returnOutsideFunction keyword) a
      simpa [Stmt.breaches, Stmt.parts, outside, h.body, Walk.fault] using inside
    · by_cases initializer : σ.body = .initializer
      · have inside := value.resolve_finds formed (h.faulted .valueFromInitializer keyword) a
        simpa [Stmt.breaches, Stmt.parts, initializer, h.body, Walk.fault] using inside
      · simpa [Stmt.breaches, Stmt.parts, outside, initializer, h.body] using value.resolve_finds formed h a
  | .classes name methods, formed, settled, h, a => by
    have declared := h.introduce_faults settled name
    have awaited : (Walk.enter { w.introduce name with inClass := true } [(receiverName, ⟨true, true, none⟩)]).Awaits
        ((σ.declare [name]).enter (.receiver methods)) := by
      refine Walk.Awaits.enter ((a.introduce settled name).declared [name]) _ fun asked => ?_
      unfold Names.awaits
      rw [Names.get?_cons]
      split <;> rfl
    have inside := Routine.resolveMethods_finds methods formed (h.methods name methods) awaited
    change _ = (w.introduce name).faults.toList ++ _ at inside
    rw [declared] at inside
    rw [Spot.findings_stmt, Stmt.resolve]
    dsimp only
    rw [Walk.leave_faults]
    simpa [Stmt.breaches, Stmt.declares, Stmt.parts, List.flatMap_map] using inside

theorem Stmt.resolveAll_finds {w : Walk} {σ : Setting} : (ss : List Stmt) → Stmt.FormedAll ss → σ.Settled →
    w.Follows σ → w.Awaits σ →
    (Stmt.resolveAll ss w).faults.toList = w.faults.toList ++ Spot.findings ⟨σ, .stmts ss⟩
  | [], _, _, _, _ => by simp [Spot.findings_eq, Spot.breaches, Spot.parts, Stmt.resolveAll]
  | s :: rest, formed, settled, h, a => by
    have first := s.resolve_finds formed.1 settled h a
    have second := Stmt.resolveAll_finds rest formed.2 (settled.declare s.declares) (s.resolve_follows formed.1 h)
      ((s.resolve_awaits settled a).declared s.declares)
    rw [Spot.findings_eq, Stmt.resolveAll]
    simpa [Spot.breaches, Spot.parts, first] using second

theorem Routine.resolve_finds {w : Walk} {σ : Setting} (kind : BodyKind) : (r : Routine) → r.Formed → w.Follows σ →
    w.Awaits σ → (r.resolve kind w).faults.toList = w.faults.toList ++ Spot.findings ⟨σ, .routine kind r⟩
  | .mk head parameters body, formed, h, a => by
    have settled := Setting.Settled.routine σ kind (.mk head parameters body)
    have bare : Walk.Follows { w with body := kind, loops := 0 } ⟨σ.frames, kind, []⟩ := ⟨h.scopes, rfl, rfl, h.inClass⟩
    have opened := bare.enter (.routine (.mk head parameters body)) [] (fun _ => rfl) w.inClass rfl
    have introduced : (w.enterRoutine kind parameters).faults.toList =
        w.faults.toList ++ (repeated [] parameters).map .ofRepeated :=
      opened.introduceAll_faults (fun f outer same => by cases same; exact ⟨rfl, rfl⟩) nofun parameters
    have awaited : (Walk.enter { w with body := kind, loops := 0 } []).Awaits
        (σ.enterRoutine kind (.mk head parameters body)) := List.Forall₂.cons (fun _ => rfl) a
    have inside : _ = (w.enterRoutine kind parameters).faults.toList ++ _ :=
      Stmt.resolveAll_finds body formed settled (h.routine kind (.mk head parameters body))
        (awaited.introduceAll settled parameters)
    obtain ⟨warnings, flagged⟩ := Walk.flagUnreachable_warns
      (Stmt.resolveAll body (w.enterRoutine kind parameters)) body
    rw [introduced, List.append_assoc] at inside
    rw [Spot.findings_eq, Routine.resolve]
    unfold Walk.leaveRoutine
    rw [Walk.leave_faults, flagged]
    simpa [Spot.breaches, Spot.parts, Routine.parameters, Routine.body] using inside

theorem Routine.resolveMethods_finds {w : Walk} {σ : Setting} : (rs : List Routine) → Routine.FormedAll rs →
    w.Follows σ → w.Awaits σ → (Routine.resolveMethods rs w).faults.toList =
      w.faults.toList ++ rs.flatMap fun r => Spot.findings ⟨σ, .routine r.methodKind r⟩
  | [], _, _, _ => by simp [Routine.resolveMethods]
  | r :: rest, formed, h, a => by
    have first := r.resolve_finds r.methodKind formed.1 h a
    have second := Routine.resolveMethods_finds rest formed.2 (r.resolve_follows r.methodKind formed.1 h)
      (r.resolve_awaits r.methodKind a)
    show (Routine.resolveMethods rest (r.resolve r.methodKind w)).faults.toList = _
    simpa [first] using second

end

-- The six rules, kept everywhere in some code.
structure Spot.Obeys (root : Spot) : Prop where
  declarations : ∀ {σ s}, root.Within ⟨σ, .stmt s⟩ → ∀ t ∈ s.declares, ∀ d ∈ σ.declared, d.lexeme ≠ t.lexeme
  parameters : ∀ {σ kind r}, root.Within ⟨σ, .routine kind r⟩ → (r.parameters.map (·.lexeme)).Nodup
  initializers : ∀ {σ i name}, root.Within ⟨σ, .expr (.variable i name)⟩ → σ.initializes name.lexeme = false
  returns : ∀ {σ keyword value}, root.Within ⟨σ, .stmt (.giveBack keyword value)⟩ → σ.body ≠ .outside
  results : ∀ {σ keyword value}, root.Within ⟨σ, .stmt (.giveBack keyword (some value))⟩ → σ.body ≠ .initializer
  breaks : ∀ {σ keyword}, root.Within ⟨σ, .stmt (.leave keyword)⟩ → σ.loops ≠ 0
  receivers : ∀ {σ i keyword}, root.Within ⟨σ, .expr (.this i keyword)⟩ → σ.inClass = true

theorem repeated_nil_iff (before names : List Token) : repeated before names = [] ↔
    (∀ t ∈ names, ∀ d ∈ before, d.lexeme ≠ t.lexeme) ∧ (names.map (·.lexeme)).Nodup := by
  induction names generalizing before with
  | nil => simp [repeated]
  | cons t rest ih =>
    unfold repeated
    rw [List.append_eq_nil_iff, ih, List.map_cons, List.nodup_cons]
    have first : (if before.any (·.lexeme == t.lexeme) then [t] else []) = [] ↔ ∀ d ∈ before, d.lexeme ≠ t.lexeme := by
      simp
    rw [first]
    constructor
    · rintro ⟨new, others, apart⟩
      refine ⟨fun name member d earlier => ?_, fun member => ?_, apart⟩
      · rcases List.mem_cons.mp member with rfl | later
        · exact new d earlier
        · exact others name later d (List.mem_append_left _ earlier)
      · obtain ⟨name, later, same⟩ := List.mem_map.mp member
        exact others name later t (List.mem_append_right _ List.mem_cons_self) same.symm
    · rintro ⟨new, alone, apart⟩
      refine ⟨new t List.mem_cons_self, fun name later d member => ?_, apart⟩
      rcases List.mem_append.mp member with earlier | last
      · exact new name (List.mem_cons_of_mem _ later) d earlier
      · rw [List.mem_singleton.mp last]
        exact fun same => alone (same ▸ List.mem_map_of_mem later)

theorem Setting.repeated_nil_iff (σ : Setting) (s : Stmt) : repeated σ.declared s.declares = [] ↔
    ∀ t ∈ s.declares, ∀ d ∈ σ.declared, d.lexeme ≠ t.lexeme := by
  rw [ScopeScript.repeated_nil_iff]
  have single : (s.declares.map (·.lexeme)).Nodup := by
    cases s <;> simp [Stmt.declares]
  exact and_iff_left single

theorem Spot.findings_nil_iff (root : Spot) : root.findings = [] ↔ root.Obeys := by
  unfold findings
  rw [List.flatMap_eq_nil_iff]
  simp only [Spot.mem_everywhere]
  constructor
  · intro clean
    refine ⟨?_, ?_, ?_, ?_, ?_, ?_, ?_⟩
    · intro σ s inside
      have kept := clean _ inside
      cases s with
      | leave keyword | giveBack keyword value => nofun
      | _ => exact (σ.repeated_nil_iff _).mp (List.map_eq_nil_iff.mp (show List.map StaticFault.ofRepeated _ = [] from kept))
    · intro σ kind r inside
      exact ((repeated_nil_iff _ _).mp (List.map_eq_nil_iff.mp (clean _ inside))).2
    · intro σ i name inside
      simpa [Spot.breaches, Expr.breaches] using clean _ inside
    · intro σ keyword value inside outside
      simpa [Spot.breaches, Stmt.breaches, outside] using clean _ inside
    · intro σ keyword value inside initializer
      simpa [Spot.breaches, Stmt.breaches, initializer] using clean _ inside
    · intro σ keyword inside
      simpa [Spot.breaches, Stmt.breaches] using clean _ inside
    · intro σ i keyword inside
      simpa [Spot.breaches, Expr.breaches] using clean _ inside
  · rintro ⟨declarations, parameters, initializers, returns, results, breaks, receivers⟩ ⟨σ, code⟩ inside
    cases code with
    | expr e =>
      cases e with
      | this i keyword => simp [Spot.breaches, Expr.breaches, receivers inside]
      | literal | grouping | unary | binary | logical | assign | call | lambda | get | set => rfl
      | _ i name => simp [Spot.breaches, Expr.breaches, initializers inside]
    | stmt s =>
      cases s with
      | leave keyword => simp [Spot.breaches, Stmt.breaches, breaks inside]
      | giveBack keyword value =>
        cases value with
        | none => simp [Spot.breaches, Stmt.breaches, returns inside]
        | some e => simp [Spot.breaches, Stmt.breaches, returns inside, results inside]
      | _ => exact List.map_eq_nil_iff.mpr ((σ.repeated_nil_iff _).mpr (declarations inside))
    | stmts ss => rfl
    | routine kind r =>
      exact List.map_eq_nil_iff.mpr ((repeated_nil_iff _ _).mpr ⟨fun _ _ _ => nofun, parameters inside⟩)

theorem readProgram_formed {ts : List Token} {next later : RefId} {program : List Stmt}
    (given : readProgram ts next = (.ok program, later)) : Stmt.FormedAll program := by
  obtain ⟨taken, rest, -, -, derived⟩ := finish_sound (declarations_sound _) rfl given
  exact derived.formed

-- A program that was read, from whatever tokens, is reported once for every rule that a piece of it
-- breaks where it stands, with the token at fault, and for nothing else.
theorem faults_exact (ts : List Token) (next later : RefId) (program : List Stmt)
    (given : readProgram ts next = (.ok program, later)) :
    (resolveProgram program).faults = (Spot.everywhere ⟨.outermost, .stmts program⟩).flatMap Spot.breaches ∧
      ((resolveProgram program).faults = [] ↔ Spot.Obeys ⟨.outermost, .stmts program⟩) := by
  have settled : Setting.outermost.Settled := nofun
  have found : (resolveProgram program).faults = Spot.findings ⟨.outermost, .stmts program⟩ :=
    Stmt.resolveAll_finds program (readProgram_formed given) settled ⟨.nil, rfl, rfl, rfl⟩ .nil
  exact ⟨found, by rw [found, Spot.findings_nil_iff]⟩

section

def brokenSource : String := "\x7b var a = a; fun a(b, b) \x7b break; \x7d return this; \x7d"

def brokenTokens : List Token := (tokens brokenSource).toOption.getD []

def brokenProgram : List Stmt := (readProgram brokenTokens 0).1.toOption.getD []

theorem faults_exact_broken : readProgram brokenTokens 0 = (.ok brokenProgram, 2) ∧
    (Spot.everywhere ⟨.outermost, .stmts brokenProgram⟩).flatMap Spot.breaches =
      [⟨.selfReferentialInitializer, .identifier, "a", 1, 11⟩, ⟨.duplicateDeclaration, .identifier, "a", 1, 18⟩,
        ⟨.duplicateDeclaration, .identifier, "b", 1, 23⟩, ⟨.breakOutsideLoop, .keyword .breakWord, "break", 1, 28⟩,
        ⟨.returnOutsideFunction, .keyword .returnWord, "return", 1, 37⟩,
        ⟨.thisOutsideClass, .keyword .thisWord, "this", 1, 44⟩] := by
  have accepted : (readProgram brokenTokens 0).1.toOption.isSome := by decide +kernel
  have counted : (readProgram brokenTokens 0).2 = 2 := by decide +kernel
  have given : readProgram brokenTokens 0 = (.ok brokenProgram, 2) := by
    refine Prod.ext ?_ counted
    unfold brokenProgram
    cases read : (readProgram brokenTokens 0).1 with
    | error faults =>
      rw [read] at accepted
      cases accepted
    | ok program => rfl
  refine ⟨given, (faults_exact brokenTokens 0 2 brokenProgram given).1.symm.trans ?_⟩
  decide +kernel

end

end ScopeScript
