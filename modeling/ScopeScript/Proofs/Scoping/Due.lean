import ScopeScript.Proofs.Grammar.Single
import ScopeScript.Proofs.Scoping.Advice

namespace ScopeScript

theorem mem_cutShort {ss : List Stmt} : t ∈ cutShort ss ↔
    ∃ before value next after, ss = before ++ .giveBack t value :: next :: after := by
  fun_induction cutShort ss with
  | case1 keyword value next rest ih =>
    rw [List.mem_cons, ih]
    constructor
    · rintro (rfl | ⟨before, given, behind, after, same⟩)
      · exact ⟨[], value, next, rest, rfl⟩
      · exact ⟨.giveBack keyword value :: before, given, behind, after, by rw [same, List.cons_append]⟩
    · rintro ⟨before, given, behind, after, same⟩
      cases before with
      | nil =>
        cases same
        exact .inl rfl
      | cons first before => exact .inr ⟨before, given, behind, after, (List.cons.inj same).2⟩
  | case2 s rest other ih =>
    rw [ih]
    constructor
    · rintro ⟨before, given, behind, after, rfl⟩
      exact ⟨s :: before, given, behind, after, rfl⟩
    · rintro ⟨before, given, behind, after, same⟩
      cases before with
      | nil =>
        cases same
        exact absurd rfl (other t given behind after rfl)
      | cons first before => exact ⟨before, given, behind, after, (List.cons.inj same).2⟩
  | case3 => simp

-- Returns are counted as names are: each piece of code has those of its parts and its own.

def Stmt.returning : Stmt → List Token
  | .giveBack keyword _ => [keyword]
  | _ => []

def Code.returns : Code → List Token
  | .expr e => e.returns
  | .stmt s => s.returns
  | .stmts ss => Stmt.returnsAll ss
  | .routine _ r => r.returns

-- The returns right in a list of statements, which the code around it has.
def Code.returning : Code → List Token
  | .stmt s => s.returning
  | .stmts ss => ss.flatMap Stmt.returning
  | _ => []

def Spot.returning : Spot → List Token
  | ⟨_, .stmt s⟩ => s.returning
  | _ => []

theorem Expr.returnsAll_eq (es : List Expr) : Expr.returnsAll es = es.flatMap Expr.returns := by
  induction es with
  | nil => rfl
  | cons e rest ih => rw [Expr.returnsAll, ih, List.flatMap_cons]

theorem Routine.returnsAll_eq (rs : List Routine) : Routine.returnsAll rs = rs.flatMap Routine.returns := by
  induction rs with
  | nil => rfl
  | cons r rest ih => rw [Routine.returnsAll, ih, List.flatMap_cons]

theorem Spot.parts_returns (S : Spot) :
    S.code.returns.Perm (S.returning ++ S.parts.flatMap fun part => part.code.returns) := by
  obtain ⟨σ, code⟩ := S
  cases code with
  | expr e =>
    cases e with
    | call callee close arguments =>
      simp [Spot.returning, Spot.parts, Expr.parts, Code.returns, Expr.returns, Expr.returnsAll_eq, List.flatMap_map]
    | _ => simp [Spot.returning, Spot.parts, Expr.parts, Code.returns, Expr.returns]
  | stmt s =>
    cases s with
    | classes name methods =>
      simp [Spot.returning, Spot.parts, Stmt.parts, Stmt.returning, Code.returns, Stmt.returns, Routine.returnsAll_eq,
        List.flatMap_map]
    | var name initial | giveBack name initial =>
      cases initial <;> simp [Spot.returning, Spot.parts, Stmt.parts, Stmt.returning, Code.returns, Stmt.returns]
    | branch condition yes no =>
      cases no <;> simp [Spot.returning, Spot.parts, Stmt.parts, Stmt.returning, Code.returns, Stmt.returns]
    | _ => simp [Spot.returning, Spot.parts, Stmt.parts, Stmt.returning, Code.returns, Stmt.returns]
  | stmts ss =>
    cases ss <;> simp [Spot.returning, Spot.parts, Code.returns, Stmt.returnsAll]
  | routine kind r =>
    obtain ⟨head, parameters, body⟩ := r
    simp [Spot.returning, Spot.parts, Code.returns, Routine.returns, Routine.body]

theorem cutShort_sublist (ss : List Stmt) : (cutShort ss).Sublist (ss.flatMap Stmt.returning) := by
  fun_induction cutShort ss with
  | case1 keyword value next rest ih => exact ih.cons_cons keyword
  | case2 s rest other ih => exact ih.trans (List.sublist_append_right _ _)
  | case3 => exact .slnil

theorem Spot.parts_shortened (S : Spot) : (S.code.returning ++ S.shortened).Sublist
    (S.returning ++ S.parts.flatMap fun part => part.code.returning) := by
  obtain ⟨σ, code⟩ := S
  cases code with
  | expr e => exact List.nil_sublist _
  | stmt s => exact .append (.refl _) (List.nil_sublist _)
  | stmts ss => cases ss <;> simp [Code.returning, Spot.shortened, Spot.returning, Spot.parts]
  | routine kind r => simpa [Code.returning, Spot.shortened, Spot.returning, Spot.parts] using cutShort_sublist r.body

namespace Spot

-- What some code is warned of is a name or a return of its, each once.
theorem alerts_counted (t : Token) (S : Spot) :
    (S.alerts.map Warning.token).count t ≤ S.code.names.count t + S.code.returns.count t := by
  have opens := S.everywhere_opens t
  have shortened := everywhere_taken parts_returns parts_shortened t S
  have each : ∀ T ∈ S.everywhere, (T.cautions.map Warning.token).count t ≤ (T.shortened ++ T.opens).count t := by
    intro T _
    have fewer : (spare T.bound T.opens).count t ≤ T.opens.count t := by
      unfold spare
      rw [(List.mergeSort_perm _ _).count_eq]
      exact List.filter_sublist.count_le t
    have told : T.cautions.map Warning.token = T.shortened ++ spare T.bound T.opens := by
      simp [cautions, Function.comp_def]
    rw [told, List.count_append, List.count_append]
    exact Nat.add_le_add_left fewer _
  have all := List.count_flatMap_le each
  rw [← (List.flatMap_append_perm S.everywhere _ _).count_eq, List.count_append] at all
  rw [List.count_append] at opens shortened
  unfold alerts
  rw [List.map_flatMap, (S.closing_perm.flatMap_right _).count_eq]
  omega

theorem opens_iff {S : Spot} : t ∈ S.opens ↔ ∃ region, S.Opener region ∧ t ∈ region.declares := by
  constructor
  · intro opened
    obtain ⟨σ, code⟩ := S
    cases code with
    | routine kind r => exact ⟨_, .routine, opened⟩
    | stmt s =>
      cases s with
      | block body => exact ⟨_, .block, opened⟩
      | _ => cases opened
    | _ => cases opened
  · rintro ⟨region, opener, declared⟩
    exact opener.opens declared

theorem unreachable_caution {S : Spot} : ⟨.unreachableCode, t⟩ ∈ S.cautions ↔
    ∃ σ kind r, S = ⟨σ, .routine kind r⟩ ∧ ∃ before value next after, r.body = before ++ .giveBack t value :: next :: after := by
  have flagged : ⟨.unreachableCode, t⟩ ∈ S.cautions ↔ t ∈ S.shortened := by simp [cautions]
  rw [flagged]
  obtain ⟨σ, code⟩ := S
  cases code with
  | routine kind r => simp [shortened, mem_cutShort]
  | _ => simp [shortened]

end Spot

-- A use of a variable.
inductive Expr.Names : Expr → RefId → Token → Prop where
  | look : Names (.variable i name) i name
  | assign : Names (.assign i name value) i name

theorem Expr.Names.refers {e : Expr} (h : e.Names i name) : e.Refers i name := by
  cases h with
  | look => exact .look
  | assign => exact .assign

-- A use that a table leads to a declaration: so many regions out there is the one that declares the name.
inductive Token.Used (root : Spot) (depths : Depths) (t : Token) : Prop where
  | use {σ : Setting} {region : Region} (inside : root.Within ⟨σ, .expr e⟩) (names : e.Names i name)
      (noted : depths[i]? = some d) (around : σ.regions[d]? = some region) (declared : t ∈ region.declares)
      (spelled : name.lexeme = t.lexeme) : Used root depths t

-- What a program is to be warned of.
inductive Warning.Due (root : Spot) (depths : Depths) : Warning → Prop where
  | unused {region : Region} (inside : root.Within S) (opener : S.Opener region) (declared : t ∈ region.declares)
      (idle : ¬t.Used root depths) : Due root depths ⟨.unusedVariable, t⟩
  | unreachable {r : Routine} (inside : root.Within ⟨σ, .routine kind r⟩)
      (behind : r.body = before ++ .giveBack keyword value :: next :: after) : Due root depths ⟨.unreachableCode, keyword⟩

theorem Setting.find?_frame (σ : Setting) (name : String) :
    σ.frames.find? (·.declares name) = (σ.depth name).bind (σ.frames[·]?) :=
  List.find?_eq_bind_findIdx?_getElem?

theorem Frame.declares_seen {f : Frame} {name : String} (declares : f.declares name = true) (plain : f.region.isReceiver = false) :
    ∃ u, f.seen.find? (·.lexeme == name) = some u := by
  rw [Frame.declares, plain, Bool.false_and, Bool.or_false] at declares
  exact Option.isSome_iff_exists.mp (List.find?_isSome.mpr (List.any_eq_true.mp declares))

theorem Region.declares_plain {region : Region} (declared : t ∈ region.declares) : region.isReceiver = false := by
  cases region with
  | block | routine => rfl
  | receiver => cases declared

namespace Spot.Clean

variable {root : Spot} {depths : Depths}

-- What the table leads to is what the innermost region with the name declares.
theorem used_iff (clean : root.Clean) (lawful : Lawful root.Within depths) : t.Used root depths ↔ t ∈ root.bound := by
  constructor
  · rintro @⟨e, i, name, d, σ, region, inside, names, noted, around, declared, spelled⟩
    rw [lawful.refers inside names.refers] at noted
    rw [Setting.regions, List.getElem?_map] at around
    obtain ⟨f, there, rfl⟩ := Option.map_eq_some_iff.mp around
    have first : σ.frames.find? (·.declares name.lexeme) = some f := by
      rw [σ.find?_frame, noted]
      exact there
    have member := List.mem_of_find?_eq_some first
    have declares : f.declares name.lexeme = true := List.find?_some (p := fun f : Frame => f.declares name.lexeme) first
    obtain ⟨u, found⟩ := Frame.declares_seen declares (Region.declares_plain declared)
    have known := clean.seen inside member (List.mem_of_find?_eq_some found)
    have same : u.lexeme = name.lexeme := beq_iff_eq.mp (List.find?_some (p := fun t : Token => t.lexeme == _) found)
    -- A region has one declaration of the name.
    have mine := clean.find inside (List.mem_map_of_mem member) declared
    rw [← spelled, ← same, clean.find inside (List.mem_map_of_mem member) known] at mine
    cases mine
    have binder : σ.binder? name.lexeme = some t := Option.bind_eq_some_iff.mpr ⟨f, first, found⟩
    exact List.mem_map.mpr ⟨⟨i, name, t⟩, Spot.mem_linking.mpr ⟨σ, e, inside, names.refers, binder⟩, rfl⟩
  · intro bound
    obtain ⟨⟨i, name, t⟩, member, rfl⟩ := List.mem_map.mp bound
    obtain ⟨σ, e, inside, refers, binder⟩ := Spot.mem_linking.mp member
    obtain ⟨f, around, first, -, seen, spelled⟩ := Setting.binder?_some binder
    have reads := lawful.proper inside
    have names : e.Names i name := by
      cases refers with
      | look => exact .look
      | assign => exact .assign
      | this => exact absurd (spelled.trans reads.code) (reads.seen f around t seen)
    rw [σ.find?_frame] at first
    obtain ⟨d, depth, there⟩ := Option.bind_eq_some_iff.mp first
    have region : σ.regions[d]? = some f.region := by rw [Setting.regions, List.getElem?_map, there]; rfl
    exact .use inside names ((lawful.refers inside refers).trans depth) region (clean.seen inside around seen) spelled.symm

-- The walk is warned of what is due, and of nothing else.
theorem due_iff (clean : root.Clean) (single : root.code.names.Nodup) (lawful : Lawful root.Within depths) (w : Warning) :
    w ∈ root.alerts ↔ w.Due root depths := by
  rw [Spot.mem_alerts]
  constructor
  · rintro ⟨S, inside, caution⟩
    obtain ⟨cause, t⟩ := w
    cases cause with
    | unusedVariable =>
      obtain ⟨opened, unbound⟩ := Spot.unused_caution.mp caution
      obtain ⟨region, opener, declared⟩ := Spot.opens_iff.mp opened
      refine .unused inside opener declared fun used => unbound ?_
      exact (clean.bound_iff single inside opened).mpr ((clean.used_iff lawful).mp used)
    | unreachableCode =>
      obtain ⟨σ, kind, r, rfl, before, value, next, after, behind⟩ := Spot.unreachable_caution.mp caution
      exact .unreachable inside behind
  · intro due
    cases due with
    | unused inside opener declared idle =>
      have opened := opener.opens declared
      refine ⟨_, inside, Spot.unused_caution.mpr ⟨opened, fun bound => idle ?_⟩⟩
      exact (clean.used_iff lawful).mpr ((clean.bound_iff single inside opened).mp bound)
    | unreachable inside behind =>
      exact ⟨_, inside, Spot.unreachable_caution.mpr ⟨_, _, _, rfl, _, _, _, _, behind⟩⟩

end Spot.Clean

end ScopeScript
