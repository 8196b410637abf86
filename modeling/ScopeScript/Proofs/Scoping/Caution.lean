import ScopeScript.Proofs.Scoping.Await
import ScopeScript.Proofs.Scoping.Remain
import ScopeScript.Proofs.Scoping.Use

namespace ScopeScript

-- All code inside some code, each piece behind its own parts.
def Spot.closing (S : Spot) : List Spot :=
  (S.parts.attach.flatMap fun part => part.1.closing) ++ [S]
termination_by S.code.size
decreasing_by exact Spot.parts_smaller part.2

theorem Spot.closing_eq (S : Spot) : S.closing = S.parts.flatMap Spot.closing ++ [S] := by
  rw [Spot.closing]
  simp

theorem Spot.closing_perm (S : Spot) : S.closing.Perm S.everywhere := by
  induction S using Spot.induct with
  | step S ih =>
    rw [S.closing_eq, S.everywhere_eq]
    exact (List.perm_append_singleton _ _).trans (.cons _ (List.Perm.flatMap_left _ ih))

-- The returns of a routine that more of its body stands behind.
def Spot.shortened : Spot → List Token
  | ⟨_, .routine _ r⟩ => cutShort r.body
  | _ => []

-- What a single piece of code is warned of: such returns, and the names of the region it opens that
-- nothing inside refers to.
def Spot.cautions (S : Spot) : List Warning :=
  S.shortened.map (Warning.mk .unreachableCode) ++ (spare S.bound S.opens).map (Warning.mk .unusedVariable)

def Spot.alerts (S : Spot) : List Warning := S.closing.flatMap Spot.cautions

theorem Spot.alerts_eq (S : Spot) : S.alerts = S.parts.flatMap Spot.alerts ++ S.cautions := by
  unfold Spot.alerts
  rw [S.closing_eq, List.flatMap_append, List.flatMap_assoc, List.flatMap_singleton]

theorem Spot.bound_eq (S : Spot) : S.bound = S.links.map Link.declared ++ S.parts.flatMap Spot.bound := by
  unfold Spot.bound
  rw [S.linking_eq, List.map_append, List.map_flatMap]

theorem spare_nil (used : List Token) : spare used [] = [] := by simp [spare]

theorem Spot.cautions_plain {S : Spot} (whole : S.shortened = []) (closed : S.opens = []) : S.cautions = [] := by
  unfold Spot.cautions
  rw [whole, closed, spare_nil]
  rfl

theorem spare_fresh {used bound ts : List Token} (fresh : ∀ t ∈ ts, t ∉ used) : spare (used ++ bound) ts = spare bound ts := by
  unfold spare
  congr 1
  refine List.filter_congr fun t member => ?_
  simp [fresh t member]

theorem Spot.opens_names {S : Spot} : ∀ t ∈ S.opens, t ∈ S.code.names := by
  intro t member
  have counted := S.everywhere_opens t
  have here : t ∈ S.everywhere.flatMap Spot.opens :=
    List.mem_flatMap.mpr ⟨S, by rw [S.everywhere_eq]; exact List.mem_cons_self, member⟩
  have some := List.count_pos_iff.mpr (List.mem_append_right S.code.declares here)
  exact List.count_pos_iff.mp (Nat.lt_of_lt_of_le some counted)

namespace Walk

variable {w middle final : Walk} {used bound bound' later next : List Token} {frames frames' : List Frame} {f : Frame}
  {alerts alerts' : List Warning}

-- A walk on to where other frames are around, with what it found used and what it warned of.
structure Through (w final : Walk) (used bound : List Token) (frames : List Frame) (alerts : List Warning)
    (later : List Token) : Prop where
  knows : final.Knows (used ++ bound) frames later
  warns : final.warnings.toList = w.warnings.toList ++ alerts

theorem Through.trans (first : w.Through middle used bound frames alerts next)
    (second : middle.Through final (used ++ bound) bound' frames' alerts' later) :
    w.Through final used (bound ++ bound') frames' (alerts ++ alerts') later :=
  ⟨List.append_assoc used bound bound' ▸ second.knows, by rw [second.warns, first.warns, List.append_assoc]⟩

-- Walks that differ in nothing that names and warnings depend on.
structure Agrees (w final : Walk) : Prop where
  scopes : final.scopes = w.scopes
  inClass : final.inClass = w.inClass
  warnings : final.warnings = w.warnings

theorem Agrees.refl (w : Walk) : w.Agrees w := ⟨rfl, rfl, rfl⟩

theorem Agrees.fault (w : Walk) (cause : StaticCause) (t : Token) : w.Agrees (w.fault cause t) := ⟨rfl, rfl, rfl⟩

theorem Agrees.trans (first : w.Agrees middle) (second : middle.Agrees final) : w.Agrees final :=
  ⟨second.scopes.trans first.scopes, second.inClass.trans first.inClass, second.warnings.trans first.warnings⟩

theorem Knows.agrees (h : w.Knows used frames later) (same : w.Agrees final) : final.Knows used frames later :=
  ⟨same.scopes ▸ h.rows, h.single, h.fresh, same.inClass.trans h.inClass⟩

theorem Agrees.through (same : w.Agrees final) (h : w.Knows used frames later) :
    w.Through final used [] frames [] later :=
  ⟨(List.append_nil used).symm ▸ h.agrees same, by rw [same.warnings, List.append_nil]⟩

theorem Knows.left (h : w.Knows used (f :: frames) later) (scopes : final.scopes = w.leave.scopes)
    (inClass : final.inClass = frames.any (·.region.isReceiver)) : final.Knows used frames later := by
  refine ⟨scopes ▸ h.leave.1, ?_, h.fresh, inClass⟩
  have single := h.single
  rw [List.flatMap_cons, List.append_assoc] at single
  exact List.Nodup.of_append_right single

end Walk

-- The walk over some code, wherever it comes from: it finds used what the code refers to, and warns of
-- all that the code is warned of.
def Spot.Walks (S : Spot) : Prop := ∀ (w : Walk) (used later : List Token),
  w.Knows used S.setting.frames (S.code.names ++ later) →
    w.Through (S.code.resolve w) used S.bound (S.setting.declare S.code.declares).frames S.alerts later

namespace Spot

variable {w : Walk} {used later : List Token} {σ : Setting} {S : Spot}

theorem walks_all {frames : List Frame} (Ts : List Spot)
    (each : ∀ T ∈ Ts, T.Walks ∧ T.setting.frames = frames ∧ T.code.declares = [])
    (h : w.Knows used frames ((Ts.flatMap fun T => T.code.names) ++ later)) :
    w.Through (Ts.foldl (fun w T => T.code.resolve w) w) used (Ts.flatMap Spot.bound) frames
      (Ts.flatMap Spot.alerts) later := by
  induction Ts generalizing w used with
  | nil => exact (Walk.Agrees.refl w).through h
  | cons T rest ih =>
    obtain ⟨walks, same, nothing⟩ := each T List.mem_cons_self
    rw [List.flatMap_cons, List.append_assoc, ← same] at h
    have first := walks w used _ h
    rw [nothing, Setting.declare_nil, same] at first
    exact first.trans (ih (fun U further => each U (List.mem_cons_of_mem _ further)) first.knows)

-- Code that only walks over its parts.
theorem walks_parts (named : S.named = []) (links : S.links = []) (whole : S.shortened = []) (closed : S.opens = [])
    (nothing : S.code.declares = [])
    (each : ∀ T ∈ S.parts, T.Walks ∧ T.setting.frames = S.setting.frames ∧ T.code.declares = [])
    (walk : ∀ w : Walk, ∃ before, w.Agrees before ∧
      (S.parts.foldl (fun w (T : Spot) => T.code.resolve w) before).Agrees (S.code.resolve w)) : S.Walks := by
  intro w used later h
  obtain ⟨before, prepared, same⟩ := walk w
  have order := S.parts_names.append_right later
  rw [named, List.nil_append] at order
  have inside := walks_all S.parts each ((h.recast (fun _ => Iff.rfl) order).agrees prepared)
  rw [S.bound_eq, S.alerts_eq, links, cautions_plain whole closed, nothing, Setting.declare_nil, List.append_nil]
  exact ⟨inside.knows.agrees same, by rw [same.warnings, inside.warns, prepared.warnings]⟩

theorem walks_refer (h : w.Knows used σ.frames later) (i : RefId) (name : Token) :
    w.Through (w.refer i name) used (σ.binder? name.lexeme).toList σ.frames [] later :=
  ⟨h.refer i name, by rw [w.refer_warnings, List.append_nil]⟩

end Spot

theorem Expr.resolveAll_fold (es : List Expr) (w : Walk) :
    Expr.resolveAll es w = es.foldl (fun w e => e.resolve w) w := by
  induction es generalizing w with
  | nil => rfl
  | cons e rest ih => exact ih (e.resolve w)

theorem Routine.resolveMethods_fold (rs : List Routine) (w : Walk) :
    Routine.resolveMethods rs w = rs.foldl (fun w r => r.resolve r.methodKind w) w := by
  induction rs generalizing w with
  | nil => rfl
  | cons r rest ih => exact ih (r.resolve r.methodKind w)

theorem Expr.links_eq (σ : Setting) {e : Expr} (found : e.reference? = some (i, name)) :
    (Spot.links ⟨σ, .expr e⟩).map Link.declared = (σ.binder? name.lexeme).toList := by
  show ((e.reference?.bind _).toList).map _ = _
  rw [found, Option.bind_some]
  cases σ.binder? name.lexeme <;> rfl

theorem Expr.walks {σ : Setting} (e : Expr) (receivers : ∀ i keyword, e = .this i keyword → σ.inClass = true)
    (each : ∀ T ∈ Spot.parts ⟨σ, .expr e⟩, T.Walks) : Spot.Walks ⟨σ, .expr e⟩ := by
  have flat : ∀ T ∈ Spot.parts ⟨σ, .expr e⟩, T.Walks ∧ T.setting.frames = σ.frames ∧ T.code.declares = [] := by
    intro T member
    obtain ⟨part, inside, same⟩ := List.mem_map.mp member
    subst same
    exact ⟨each _ member, rfl, Expr.parts_declare part inside⟩
  cases e with
  | this i keyword =>
    intro w used later h
    have alone : Spot.parts ⟨σ, .expr (.this i keyword)⟩ = [] := rfl
    rw [Spot.bound_eq, Spot.alerts_eq, Expr.links_eq σ rfl, Spot.cautions_plain rfl rfl, alone]
    have inside : w.inClass = true := by
      rw [h.inClass, ← receivers i keyword rfl, Setting.inClass, Setting.regions, List.any_map]
      rfl
    have referred := Spot.walks_refer (σ := σ) h i keyword
    show w.Through (if w.inClass then w.refer i keyword else w.fault .thisOutsideClass keyword) _ _
      (σ.declare []).frames _ _
    rw [inside, if_pos rfl, Setting.declare_nil, List.flatMap_nil, List.append_nil]
    exact referred
  | assign i name value =>
    intro w used later h
    have one : Spot.parts ⟨σ, .expr (.assign i name value)⟩ = [⟨σ, .expr value⟩] := rfl
    rw [Spot.bound_eq, Spot.alerts_eq, Expr.links_eq σ rfl, Spot.cautions_plain rfl rfl, one, List.flatMap_singleton,
      List.flatMap_singleton]
    have h : w.Knows used σ.frames ((Code.expr value).names ++ later) := by
      refine h.recast (fun _ => Iff.rfl) (.append_right later ?_)
      exact (Spot.parts_names ⟨σ, .expr (.assign i name value)⟩).trans (by simp [Spot.named, Spot.parts, Expr.parts])
    have inside := (flat _ (List.mem_singleton_self _)).1 w used later h
    have referred := inside.trans (Spot.walks_refer (σ := σ.declare []) inside.knows i name)
    rw [Setting.declare_nil] at referred
    show w.Through _ _ _ (σ.declare []).frames _ _
    rw [Setting.declare_nil]
    -- The node comes before its value, the walk looks it up behind it.
    refine ⟨referred.knows.recast (fun t => ?_) (.refl _), referred.warns⟩
    simp only [List.mem_append]
    exact or_congr_right or_comm
  | literal | grouping | unary | binary | logical | lambda | get | set =>
    exact Spot.walks_parts rfl rfl rfl rfl rfl flat fun w => ⟨w, .refl w, .refl _⟩
  | call callee close arguments =>
    refine Spot.walks_parts rfl rfl rfl rfl rfl flat fun w => ⟨w, .refl w, ?_⟩
    have same : (Spot.parts ⟨σ, .expr (.call callee close arguments)⟩).foldl (fun w T => T.code.resolve w) w =
        Expr.resolveAll arguments (callee.resolve w) := by
      rw [Expr.resolveAll_fold]
      simp [Spot.parts, Expr.parts, Code.resolve, List.foldl_map]
    rw [same]
    exact .refl _
  | _ i name =>
    intro w used later h
    have alone : Spot.parts ⟨σ, .expr (.variable i name)⟩ = [] := rfl
    rw [Spot.bound_eq, Spot.alerts_eq, Expr.links_eq σ rfl, Spot.cautions_plain rfl rfl, alone]
    have asked : w.Agrees (if w.initializing name.lexeme then w.fault .selfReferentialInitializer name else w) := by
      split
      · exact .fault w _ _
      · exact .refl w
    have referred := (asked.through h).trans (Spot.walks_refer (σ := σ) (asked.through h).knows i name)
    show w.Through _ _ _ (σ.declare []).frames _ _
    rw [Setting.declare_nil, List.flatMap_nil, List.append_nil]
    exact referred

theorem Stmt.walksAll {σ : Setting} (ss : List Stmt) (each : ∀ T ∈ Spot.parts ⟨σ, .stmts ss⟩, T.Walks) :
    Spot.Walks ⟨σ, .stmts ss⟩ := by
  intro w used later h
  rw [Spot.bound_eq, Spot.alerts_eq, Spot.cautions_plain rfl rfl, List.append_nil]
  cases ss with
  | nil =>
    show w.Through w used [] (σ.declare []).frames [] later
    rw [Setting.declare_nil]
    exact (Walk.Agrees.refl w).through h
  | cons s rest =>
    have all : (Code.stmts (s :: rest)).names = (Code.stmt s).names ++ (Code.stmts rest).names := namesOf_append _ _
    rw [all, List.append_assoc] at h
    have first := each ⟨σ, .stmt s⟩ List.mem_cons_self w used _ h
    have second := each ⟨σ.declare s.declares, .stmts rest⟩ (by simp [Spot.parts]) _ _ later first.knows
    have both := first.trans second
    rw [← Setting.declare_append] at both
    have two : Spot.parts ⟨σ, .stmts (s :: rest)⟩ = [⟨σ, .stmt s⟩, ⟨σ.declare s.declares, .stmts rest⟩] := rfl
    rw [two, List.flatMap_cons, List.flatMap_singleton, List.flatMap_cons, List.flatMap_singleton]
    exact both

namespace Walk

variable {w middle final : Walk} {used bound later : List Token} {frames : List Frame} {f : Frame} {alerts : List Warning}

-- Behind a scope the walk has warned of the names in it that are spare.
theorem Through.leave {m : Walk} (h : w.Through middle used bound (f :: frames) alerts later)
    (scopes : m.scopes = middle.leave.scopes) (warnings : m.warnings = middle.leave.warnings)
    (inClass : m.inClass = frames.any (·.region.isReceiver)) (fresh : ∀ t ∈ f.seen, t ∉ used) :
    w.Through m used bound frames (alerts ++ (spare bound f.seen).map (Warning.mk .unusedVariable)) later := by
  refine ⟨h.knows.left scopes inClass, ?_⟩
  rw [warnings, h.knows.leave.2.2, h.warns, spare_fresh fresh, List.append_assoc]

theorem Through.flag (h : w.Through middle used bound frames alerts later) (ss : List Stmt) :
    w.Through (middle.flagUnreachable ss) used bound frames
      (alerts ++ (cutShort ss).map (Warning.mk .unreachableCode)) later := by
  rw [flagUnreachable_exact]
  refine ⟨⟨h.knows.rows, h.knows.single, h.knows.fresh, h.knows.inClass⟩, ?_⟩
  simp [h.warns]

theorem Through.after (same : w.warnings = middle.warnings) (h : middle.Through final used bound frames alerts later) :
    w.Through final used bound frames alerts later := ⟨h.knows, by rw [h.warns, same]⟩

end Walk

theorem Routine.walks {σ : Setting} {kind : BodyKind} {r : Routine} (apart : (r.parameters.map (·.lexeme)).Nodup)
    (body : Spot.Walks ⟨σ.enterRoutine kind r, .stmts r.body⟩) : Spot.Walks ⟨σ, .routine kind r⟩ := by
  intro w used later h
  have opened := Spot.opens_names (S := ⟨σ, .routine kind r⟩)
  have fresh : ∀ t ∈ Region.declares (.routine r), t ∉ used := fun t member =>
    h.fresh t (List.mem_append_left _ (opened t member))
  have order : ((Code.routine kind r).names ++ later).Perm (r.parameters ++ ((Code.stmts r.body).names ++ later)) := by
    rw [← List.append_assoc]
    refine .append_right later ((Spot.parts_names ⟨σ, .routine kind r⟩).trans ?_)
    simp [Spot.named, Spot.parts]
  have bare : Walk.Knows { w with body := kind, loops := 0 } used σ.frames
      (r.parameters ++ ((Code.stmts r.body).names ++ later)) :=
    (h.recast (fun _ => Iff.rfl) order).agrees ⟨rfl, rfl, rfl⟩
  obtain ⟨introduced, quiet⟩ := Walk.Knows.introduceAll (σ := ⟨⟨.routine r, [], []⟩ :: σ.frames, kind, []⟩)
    (bare.enter (.routine r) rfl) (fun f outer same => by cases same; exact ⟨rfl, rfl⟩) apart
    (fun outermost => absurd outermost (List.cons_ne_nil _ _))
  have inside := (body _ _ _ introduced).flag r.body
  have around := inside.knows.leave.2.1.trans inside.knows.inClass
  have left := inside.leave (f := ⟨.routine r, r.parameters ++ r.body.flatMap Stmt.declares, []⟩)
    (m := Walk.leaveRoutine (Walk.flagUnreachable _ r.body) w.body w.loops) rfl rfl around
    (fun t seen => fresh t (by rwa [Frame.seen, List.append_nil] at seen))
  have whole := left.after (w := w) quiet.symm
  have one : Spot.parts ⟨σ, .routine kind r⟩ = [⟨σ.enterRoutine kind r, .stmts r.body⟩] := rfl
  have bound : Spot.bound ⟨σ, .routine kind r⟩ = Spot.bound ⟨σ.enterRoutine kind r, .stmts r.body⟩ := by
    rw [Spot.bound_eq ⟨σ, .routine kind r⟩, one, List.flatMap_singleton]
    rfl
  have alerts : Spot.alerts ⟨σ, .routine kind r⟩ = Spot.alerts ⟨σ.enterRoutine kind r, .stmts r.body⟩ ++
      ((cutShort r.body).map (Warning.mk .unreachableCode) ++
        (spare (Spot.bound ⟨σ.enterRoutine kind r, .stmts r.body⟩) (Region.routine r).declares).map
          (Warning.mk .unusedVariable)) := by
    rw [Spot.alerts_eq ⟨σ, .routine kind r⟩, one, List.flatMap_singleton, Spot.cautions, bound]
    rfl
  rw [bound, alerts, ← List.append_assoc]
  show w.Through _ _ _ (σ.declare []).frames _ _
  rw [Setting.declare_nil]
  rw [show Frame.seen ⟨.routine r, r.parameters ++ r.body.flatMap Stmt.declares, []⟩ = (Region.routine r).declares from
    List.append_nil _] at whole
  obtain ⟨head, parameters, body⟩ := r
  exact whole

theorem Setting.any_declare (σ : Setting) (names : List Token) :
    (σ.declare names).frames.any (·.region.isReceiver) = σ.frames.any (·.region.isReceiver) := by
  have same := congrArg (List.any · Region.isReceiver) (σ.regions_declare names)
  simpa [Setting.regions, List.any_map, Function.comp_def] using same

section

variable {σ : Setting} {settled : σ.Settled}

theorem Stmt.walks_block {body : List Stmt}
    (inside : Spot.Walks ⟨(σ.nest (.block body)).enter (.block body), .stmts body⟩) :
    Spot.Walks ⟨σ, .stmt (.block body)⟩ := by
  intro w used later h
  have fresh : ∀ t ∈ body.flatMap Stmt.declares, t ∉ used := fun t member =>
    h.fresh t (List.mem_append_left _ (Spot.opens_names (S := ⟨σ, .stmt (.block body)⟩) t member))
  have walked := inside _ used later (Walk.Knows.enter h (.block body) rfl)
  have around := walked.knows.leave.2.1.trans walked.knows.inClass
  have left := walked.leave (f := ⟨.block body, [] ++ body.flatMap Stmt.declares, []⟩) (m := Walk.leave _) rfl rfl around
    fun t seen => fresh t (by rwa [Frame.seen, List.append_nil] at seen)
  have one : Spot.parts ⟨σ, .stmt (.block body)⟩ = [⟨(σ.nest (.block body)).enter (.block body), .stmts body⟩] := rfl
  have bound : Spot.bound ⟨σ, .stmt (.block body)⟩ =
      Spot.bound ⟨(σ.nest (.block body)).enter (.block body), .stmts body⟩ := by
    rw [Spot.bound_eq ⟨σ, .stmt (.block body)⟩, one, List.flatMap_singleton]
    rfl
  have alerts : Spot.alerts ⟨σ, .stmt (.block body)⟩ =
      Spot.alerts ⟨(σ.nest (.block body)).enter (.block body), .stmts body⟩ ++
        (spare (Spot.bound ⟨(σ.nest (.block body)).enter (.block body), .stmts body⟩)
          (body.flatMap Stmt.declares)).map (Warning.mk .unusedVariable) := by
    rw [Spot.alerts_eq ⟨σ, .stmt (.block body)⟩, one, List.flatMap_singleton, Spot.cautions, bound]
    rfl
  rw [bound, alerts]
  show w.Through _ _ _ (σ.declare []).frames _ _
  rw [Setting.declare_nil]
  rw [show Frame.seen ⟨.block body, [] ++ body.flatMap Stmt.declares, []⟩ = body.flatMap Stmt.declares from
    List.append_nil _] at left
  have quiet : w.warnings = (w.enter []).warnings := rfl
  exact left.after quiet

theorem Stmt.walks_var (settled : σ.Settled) {name : Token} {initial : Expr}
    (apart : ∀ d ∈ σ.declared, d.lexeme ≠ name.lexeme)
    (inside : Spot.Walks ⟨σ.initializing name, .expr initial⟩) : Spot.Walks ⟨σ, .stmt (.var name (some initial))⟩ := by
  intro w used later h
  have declared : (w.declare name).Knows used (σ.initializing name).frames ((Code.expr initial).names ++ later) :=
    Walk.Knows.declare h settled apart
  have walked := inside _ used later declared
  have knows := walked.knows
  change Walk.Knows _ _ ((σ.initializing name).declare []).frames later at knows
  rw [Setting.declare_nil] at knows
  have one : Spot.parts ⟨σ, .stmt (.var name (some initial))⟩ = [⟨σ.initializing name, .expr initial⟩] := rfl
  rw [Spot.bound_eq, Spot.alerts_eq, Spot.cautions_plain rfl rfl, one, List.flatMap_singleton, List.flatMap_singleton,
    List.append_nil]
  refine ⟨(knows.settle name).declared settled, ?_⟩
  have warned := walked.warns
  rw [Walk.declare_warnings] at warned
  show (Walk.settle _ name).warnings.toList = _
  rw [Walk.settle_warnings]
  exact warned

theorem Stmt.walks_function (settled : σ.Settled) {r : Routine} (apart : ∀ d ∈ σ.declared, d.lexeme ≠ r.head.lexeme)
    (inside : Spot.Walks ⟨σ.declare [r.head], .routine .function r⟩) : Spot.Walks ⟨σ, .stmt (.function r)⟩ := by
  intro w used later h
  have introduced : (w.introduce r.head).Knows used (σ.declare [r.head]).frames
      ((Code.routine .function r).names ++ later) := Walk.Knows.introduce h settled apart
  have walked := (inside _ used later introduced).after (w.introduce_warnings r.head).symm
  have one : Spot.parts ⟨σ, .stmt (.function r)⟩ = [⟨σ.declare [r.head], .routine .function r⟩] := rfl
  rw [Spot.bound_eq, Spot.alerts_eq, Spot.cautions_plain rfl rfl, one, List.flatMap_singleton, List.flatMap_singleton,
    List.append_nil]
  change w.Through _ _ _ ((σ.declare [r.head]).declare []).frames _ _ at walked
  rw [Setting.declare_nil] at walked
  exact walked

theorem Stmt.walks_classes (settled : σ.Settled) {name : Token} {methods : List Routine}
    (apart : ∀ d ∈ σ.declared, d.lexeme ≠ name.lexeme)
    (each : ∀ T ∈ Stmt.parts σ (.classes name methods), T.Walks) : Spot.Walks ⟨σ, .stmt (.classes name methods)⟩ := by
  intro w used later h
  have order : ((Code.stmt (.classes name methods)).names ++ later).Perm
      (name :: ((Stmt.parts σ (.classes name methods)).flatMap (fun T => T.code.names) ++ later)) :=
    (Spot.parts_names ⟨σ, .stmt (.classes name methods)⟩).append_right later
  have introduced := (h.recast (fun _ => Iff.rfl) order).introduce settled apart
  have flat : ∀ T ∈ Stmt.parts σ (.classes name methods),
      T.Walks ∧ T.setting.frames = ⟨.receiver methods, [], []⟩ :: (σ.declare [name]).frames ∧ T.code.declares = [] := by
    intro T member
    have walks := each T member
    obtain ⟨r, _, rfl⟩ := List.mem_map.mp member
    exact ⟨walks, rfl, rfl⟩
  have walked := Spot.walks_all _ flat (introduced.enterReceiver methods)
  have outside : w.inClass = (σ.declare [name]).frames.any (·.region.isReceiver) := h.inClass.trans (σ.any_declare _).symm
  have folded : (Stmt.parts σ (.classes name methods)).foldl (fun w (T : Spot) => T.code.resolve w)
      (Walk.enter { w.introduce name with inClass := true } [(receiverName, ⟨true, true, none⟩)]) =
        Routine.resolveMethods methods (Walk.enter { w.introduce name with inClass := true } [(receiverName, ⟨true, true, none⟩)]) := by
    rw [Routine.resolveMethods_fold]
    simp [Stmt.parts, List.foldl_map, Code.resolve]
  rw [folded] at walked
  have left := walked.leave (m := { Walk.leave _ with inClass := w.inClass }) rfl rfl outside nofun
  have quiet : w.warnings =
      (Walk.enter { w.introduce name with inClass := true } [(receiverName, ⟨true, true, none⟩)]).warnings :=
    (w.introduce_warnings name).symm
  rw [Spot.bound_eq, Spot.alerts_eq, Spot.cautions_plain rfl rfl]
  rw [show Frame.seen ⟨.receiver methods, [], []⟩ = [] from rfl, spare_nil] at left
  exact left.after quiet

theorem Stmt.walks (s : Stmt) (settled : σ.Settled) (formed : s.Formed)
    (apart : ∀ t ∈ s.declares, ∀ d ∈ σ.declared, d.lexeme ≠ t.lexeme)
    (each : ∀ T ∈ s.parts σ, T.Walks) : Spot.Walks ⟨σ, .stmt s⟩ := by
  cases s with
  | expression value | print keyword value =>
    refine Spot.walks_parts rfl rfl rfl rfl rfl (fun T member => ?_) fun w => ⟨w, .refl w, .refl _⟩
    cases List.mem_singleton.mp member
    exact ⟨each _ member, rfl, rfl⟩
  | leave keyword =>
    refine Spot.walks_parts rfl rfl rfl rfl rfl nofun fun w => ⟨w, .refl w, ?_⟩
    show w.Agrees (if w.loops = 0 then _ else _)
    split
    · exact .fault w _ _
    · exact .refl w
  | giveBack keyword value =>
    cases value with
    | none =>
      refine Spot.walks_parts rfl rfl rfl rfl rfl nofun fun w => ⟨w, .refl w, ?_⟩
      show w.Agrees (if w.body = .outside then _ else _)
      split
      · exact .fault w _ _
      · exact .refl w
    | some value =>
      refine Spot.walks_parts rfl rfl rfl rfl rfl (fun T member => ?_) fun w => ⟨_, ?_, .refl _⟩
      · cases List.mem_singleton.mp member
        exact ⟨each _ member, rfl, rfl⟩
      · split <;> split
        · exact (Walk.Agrees.fault w _ _).trans (.fault _ _ _)
        · exact .fault w _ _
        · exact .fault w _ _
        · exact .refl w
  | branch condition yes no =>
    cases no with
    | none =>
      refine Spot.walks_parts rfl rfl rfl rfl rfl (fun T member => ⟨each T member, ?_⟩) fun w => ⟨w, .refl w, .refl _⟩
      simp only [Spot.parts, Stmt.parts, List.mem_cons, List.not_mem_nil, or_false] at member
      rcases member with rfl | rfl
      · exact ⟨rfl, rfl⟩
      · exact ⟨rfl, formed.2.2⟩
    | some no =>
      refine Spot.walks_parts rfl rfl rfl rfl rfl (fun T member => ⟨each T member, ?_⟩) fun w => ⟨w, .refl w, .refl _⟩
      simp only [Spot.parts, Stmt.parts, List.mem_cons, List.not_mem_nil, or_false] at member
      rcases member with rfl | rfl | rfl
      · exact ⟨rfl, rfl⟩
      · exact ⟨rfl, formed.2.1.2⟩
      · exact ⟨rfl, formed.2.2.2⟩
  | loop condition body =>
    refine Spot.walks_parts rfl rfl rfl rfl rfl (fun T member => ⟨each T member, ?_⟩) fun w =>
      ⟨{ w with loops := w.loops + 1 }, ⟨rfl, rfl, rfl⟩, ⟨rfl, rfl, rfl⟩⟩
    simp only [Spot.parts, Stmt.parts, List.mem_cons, List.not_mem_nil, or_false] at member
    rcases member with rfl | rfl
    · exact ⟨rfl, rfl⟩
    · exact ⟨rfl, formed.2.2⟩
  | block body => exact Stmt.walks_block (each _ (List.mem_singleton_self _))
  | function r => exact Stmt.walks_function settled (apart _ (List.mem_singleton_self _)) (each _ (List.mem_singleton_self _))
  | classes name methods => exact Stmt.walks_classes settled (apart _ (List.mem_singleton_self _)) each
  | var name initial =>
    cases initial with
    | some initial =>
      exact Stmt.walks_var settled (apart _ (List.mem_singleton_self _)) (each _ (List.mem_singleton_self _))
    | none =>
      intro w used later h
      have introduced : (w.introduce name).Knows used (σ.declare [name]).frames later :=
        Walk.Knows.introduce h settled (apart _ (List.mem_singleton_self _))
      have alone : Spot.parts ⟨σ, .stmt (.var name none)⟩ = [] := rfl
      rw [Spot.bound_eq, Spot.alerts_eq, Spot.cautions_plain rfl rfl, alone]
      exact ⟨(List.append_nil used).symm ▸ introduced, by
        show (w.introduce name).warnings.toList = _
        rw [Walk.introduce_warnings]
        simp⟩

end

-- Where a statement can stand.
def Spot.Settled : Spot → Prop
  | ⟨σ, .stmt _⟩ => σ.Settled
  | ⟨σ, .stmts _⟩ => σ.Settled
  | _ => True

theorem Spot.Settled.part {S T : Spot} (h : S.Settled) (member : T ∈ S.parts) : T.Settled := by
  obtain ⟨σ, code⟩ := S
  cases code with
  | expr e =>
    obtain ⟨part, inside, rfl⟩ := List.mem_map.mp member
    cases e with
    | call callee close arguments =>
      rcases List.mem_cons.mp inside with rfl | later
      · trivial
      · obtain ⟨argument, _, rfl⟩ := List.mem_map.mp later
        trivial
    | binary left operator right | logical left operator right | set left name right =>
      rcases List.mem_cons.mp inside with rfl | later
      · trivial
      · cases List.mem_singleton.mp later
        trivial
    | grouping inner | unary operator inner | lambda inner | get inner name | assign i name inner =>
      cases List.mem_singleton.mp inside
      trivial
    | _ => cases inside
  | routine kind r =>
    cases List.mem_singleton.mp member
    exact Setting.Settled.routine σ kind r
  | stmts ss =>
    cases ss with
    | nil => cases member
    | cons s rest =>
      rcases List.mem_cons.mp member with rfl | later
      · exact h
      · cases List.mem_singleton.mp later
        exact Setting.Settled.declare h _
  | stmt s =>
    cases s with
    | expression value | print keyword value | function r =>
      cases List.mem_singleton.mp member
      trivial
    | var name initial | giveBack name initial =>
      cases initial with
      | none => cases member
      | some e =>
        cases List.mem_singleton.mp member
        trivial
    | leave keyword => cases member
    | classes name methods =>
      obtain ⟨r, _, rfl⟩ := List.mem_map.mp member
      trivial
    | block body =>
      cases List.mem_singleton.mp member
      exact Setting.Settled.block _ body
    | loop condition body =>
      rcases List.mem_cons.mp member with rfl | later
      · trivial
      · cases List.mem_singleton.mp later
        exact h
    | branch condition yes no =>
      cases no with
      | none =>
        simp only [Spot.parts, Stmt.parts, List.mem_cons, List.not_mem_nil, or_false] at member
        rcases member with rfl | rfl
        · trivial
        · exact h
      | some no =>
        simp only [Spot.parts, Stmt.parts, List.mem_cons, List.not_mem_nil, or_false] at member
        rcases member with rfl | rfl | rfl
        · trivial
        · exact h
        · exact h

theorem Spot.Obeys.inner {root S : Spot} (obeys : root.Obeys) (inside : root.Within S) : S.Obeys where
  declarations within := obeys.declarations (inside.inside within)
  parameters within := obeys.parameters (inside.inside within)
  initializers within := obeys.initializers (inside.inside within)
  returns within := obeys.returns (inside.inside within)
  results within := obeys.results (inside.inside within)
  breaks within := obeys.breaks (inside.inside within)
  receivers within := obeys.receivers (inside.inside within)

def Code.Formed : Code → Prop
  | .expr e => e.Formed
  | .stmt s => s.Formed
  | .stmts ss => Stmt.FormedAll ss
  | .routine _ r => r.Formed

theorem Expr.FormedAll.each {es : List Expr} (h : Expr.FormedAll es) : ∀ e ∈ es, e.Formed := by
  induction es with
  | nil => nofun
  | cons first rest ih => exact List.forall_mem_cons.mpr ⟨h.1, ih h.2⟩

theorem Routine.FormedAll.each {rs : List Routine} (h : Routine.FormedAll rs) : ∀ r ∈ rs, r.Formed := by
  induction rs with
  | nil => nofun
  | cons first rest ih => exact List.forall_mem_cons.mpr ⟨h.1, ih h.2⟩

theorem Spot.parts_formed (S : Spot) {T : Spot} (formed : S.code.Formed) (member : T ∈ S.parts) : T.code.Formed := by
  obtain ⟨σ, code⟩ := S
  cases code with
  | expr e =>
    obtain ⟨part, inside, rfl⟩ := List.mem_map.mp member
    cases e with
    | call callee close arguments =>
      rcases List.mem_cons.mp inside with rfl | later
      · exact formed.1
      · obtain ⟨argument, known, rfl⟩ := List.mem_map.mp later
        exact formed.2.each argument known
    | binary left operator right | logical left operator right | set left name right =>
      rcases List.mem_cons.mp inside with rfl | later
      · exact formed.1
      · cases List.mem_singleton.mp later
        exact formed.2
    | grouping inner | unary operator inner | lambda inner | get inner name | assign i name inner =>
      cases List.mem_singleton.mp inside
      exact formed
    | _ => cases inside
  | routine kind r =>
    obtain ⟨head, parameters, body⟩ := r
    cases List.mem_singleton.mp member
    exact formed
  | stmts ss =>
    cases ss with
    | nil => cases member
    | cons s rest =>
      rcases List.mem_cons.mp member with rfl | later
      · exact formed.1
      · cases List.mem_singleton.mp later
        exact formed.2
  | stmt s =>
    cases s with
    | expression value | print keyword value | function r | block body =>
      cases List.mem_singleton.mp member
      exact formed
    | var name initial | giveBack name initial =>
      cases initial with
      | none => cases member
      | some e =>
        cases List.mem_singleton.mp member
        exact formed
    | leave keyword => cases member
    | classes name methods =>
      obtain ⟨r, known, rfl⟩ := List.mem_map.mp member
      exact Routine.FormedAll.each formed r known
    | loop condition body =>
      rcases List.mem_cons.mp member with rfl | later
      · exact formed.1
      · cases List.mem_singleton.mp later
        exact formed.2.1
    | branch condition yes no =>
      cases no with
      | none =>
        simp only [Spot.parts, Stmt.parts, List.mem_cons, List.not_mem_nil, or_false] at member
        rcases member with rfl | rfl
        · exact formed.1
        · exact formed.2.1
      | some no =>
        simp only [Spot.parts, Stmt.parts, List.mem_cons, List.not_mem_nil, or_false] at member
        rcases member with rfl | rfl | rfl
        · exact formed.1
        · exact formed.2.1.1
        · exact formed.2.2.1

-- A clean walk warns of what the code is warned of, in the order in which it is done with it.
theorem Spot.walks (S : Spot) (obeys : S.Obeys) (formed : S.code.Formed) (settled : S.Settled) : S.Walks := by
  induction S using Spot.induct with
  | step S ih =>
    have each : ∀ T ∈ S.parts, T.Walks := fun T member =>
      ih T member (obeys.inner (.part .root member)) (S.parts_formed formed member) (settled.part member)
    obtain ⟨σ, code⟩ := S
    cases code with
    | expr e =>
      refine e.walks (fun i keyword same => ?_) each
      subst same
      exact obeys.receivers .root
    | stmt s => exact s.walks settled formed (obeys.declarations .root) each
    | stmts ss => exact Stmt.walksAll ss each
    | routine kind r => exact Routine.walks (obeys.parameters .root) (each _ (List.mem_singleton_self _))

-- The warnings of a program.
theorem resolveProgram_warns {program : List Stmt} (obeys : (Stmt.root program).Obeys) (formed : Stmt.FormedAll program)
    (single : (Stmt.root program).code.names.Nodup) :
    (resolveProgram program).warnings =
      (Stmt.root program).alerts.mergeSort fun a b => a.token.position.before b.token.position := by
  have start : Walk.start.Knows [] (Stmt.root program).setting.frames ((Stmt.root program).code.names ++ []) :=
    ⟨.nil, by rw [List.append_nil]; exact single, nofun, rfl⟩
  have walked := Spot.walks (Stmt.root program) obeys formed nofun Walk.start [] [] start
  have warned : (Stmt.resolveAll program .start).warnings.toList = (Stmt.root program).alerts := walked.warns
  unfold resolveProgram Walk.resolution
  dsimp only
  rw [warned]

end ScopeScript
