import Mathlib.Data.List.Nodup
import Mathlib.Data.List.Pairwise
import Mathlib.Data.List.Perm.Basic
import ScopeScript.Proofs.Scoping.Everywhere

namespace ScopeScript

-- What a single piece of code looks up where it stands, its parts left out. A receiver outside every
-- class is not looked up.

def Expr.looks (σ : Setting) : Expr → List Note
  | .variable i name => [⟨i, σ.depth name.lexeme⟩]
  | .assign i name _ => [⟨i, σ.depth name.lexeme⟩]
  | .this i keyword => if σ.inClass then [⟨i, σ.depth keyword.lexeme⟩] else []
  | _ => []

def Spot.looks : Spot → List Note
  | ⟨σ, .expr e⟩ => e.looks σ
  | _ => []

def Spot.lookings (S : Spot) : List Note := S.everywhere.flatMap Spot.looks

theorem Spot.lookings_eq (S : Spot) : S.lookings = S.looks ++ S.parts.flatMap Spot.lookings :=
  S.everywhere_flatMap Spot.looks

theorem Spot.lookings_expr (σ : Setting) (e : Expr) : lookings ⟨σ, .expr e⟩ =
    e.looks σ ++ e.parts.flatMap fun part => lookings ⟨σ, part⟩ := by
  rw [lookings_eq]
  exact congrArg _ (List.flatMap_map ..)

theorem Spot.lookings_stmt (σ : Setting) (s : Stmt) : lookings ⟨σ, .stmt s⟩ = (s.parts σ).flatMap lookings :=
  lookings_eq _

namespace Walk

-- A walk adds these notes, in some order.
def Notes (w later : Walk) (notes : List Note) : Prop := later.notes.toList.Perm (w.notes.toList ++ notes)

theorem Notes.quiet {w later : Walk} (h : w.Grows later []) : w.Notes later [] := by
  obtain ⟨more, same, none⟩ := h.notes
  have nothing : more = [] := List.map_eq_nil_iff.mp (List.sublist_nil.mp none)
  unfold Notes
  rw [same, nothing]

theorem Notes.trans {w middle later : Walk} {first second : List Note} (h : w.Notes middle first)
    (h' : middle.Notes later second) : w.Notes later (first ++ second) := by
  unfold Notes at *
  rw [← List.append_assoc]
  exact List.Perm.trans h' (h.append_right second)

variable {w : Walk} {σ : Setting}

theorem Follows.refer_notes (h : w.Follows σ) (i : RefId) (t : Token) :
    w.Notes (w.refer i t) [⟨i, σ.depth t.lexeme⟩] := by
  unfold Notes
  rw [(h.refer i t).2, Array.toList_push]

end Walk

-- The walk looks up what the code looks up, each time where it stands.
mutual

theorem Expr.resolve_looks {w : Walk} {σ : Setting} : (e : Expr) → e.Formed → w.Follows σ →
    w.Notes (e.resolve w) (Spot.lookings ⟨σ, .expr e⟩)
  | .literal _, _, _ => by
    rw [Spot.lookings_expr]
    exact .quiet (.refl w [])
  | .grouping inner, formed, h => by
    rw [Spot.lookings_expr, Expr.resolve]
    simpa [Expr.looks, Expr.parts] using inner.resolve_looks formed h
  | .unary _ operand, formed, h => by
    rw [Spot.lookings_expr, Expr.resolve]
    simpa [Expr.looks, Expr.parts] using operand.resolve_looks formed h
  | .binary left _ right, formed, h => by
    have both := (left.resolve_looks formed.1 h).trans (right.resolve_looks formed.2 (left.resolve_follows formed.1 h))
    rw [Spot.lookings_expr, Expr.resolve]
    simpa [Expr.looks, Expr.parts] using both
  | .logical left _ right, formed, h => by
    have both := (left.resolve_looks formed.1 h).trans (right.resolve_looks formed.2 (left.resolve_follows formed.1 h))
    rw [Spot.lookings_expr, Expr.resolve]
    simpa [Expr.looks, Expr.parts] using both
  | .variable i name, _, h => by
    rw [Spot.lookings_expr]
    unfold Expr.resolve
    dsimp only
    split
    · exact (h.faulted .selfReferentialInitializer name).refer_notes i name
    · exact h.refer_notes i name
  | .assign i name value, formed, h => by
    have both := (value.resolve_looks formed h).trans ((value.resolve_follows formed h).refer_notes i name)
    rw [Spot.lookings_expr]
    -- The node comes before its value, the walk looks it up behind it.
    refine List.Perm.trans both (List.Perm.append_left _ ?_)
    simp [Expr.looks, Expr.parts]
  | .call callee _ arguments, formed, h => by
    have both := (callee.resolve_looks formed.1 h).trans
      (Expr.resolveAll_looks arguments formed.2 (callee.resolve_follows formed.1 h))
    rw [Spot.lookings_expr, Expr.resolve]
    simpa [Expr.looks, Expr.parts, List.flatMap_map] using both
  | .lambda routine, formed, h => by
    rw [Spot.lookings_expr, Expr.resolve]
    simpa [Expr.looks, Expr.parts] using routine.resolve_looks .lambda formed h
  | .get object _, formed, h => by
    rw [Spot.lookings_expr, Expr.resolve]
    simpa [Expr.looks, Expr.parts] using object.resolve_looks formed h
  | .set object _ value, formed, h => by
    have both := (object.resolve_looks formed.1 h).trans
      (value.resolve_looks formed.2 (object.resolve_follows formed.1 h))
    rw [Spot.lookings_expr, Expr.resolve]
    simpa [Expr.looks, Expr.parts] using both
  | .this i keyword, _, h => by
    rw [Spot.lookings_expr]
    unfold Expr.resolve
    rw [h.inClass]
    cases found : σ.inClass
    · simpa [Expr.looks, Expr.parts, found] using Walk.Notes.quiet (w.grows_fault .thisOutsideClass keyword)
    · simpa [Expr.looks, Expr.parts, found] using h.refer_notes i keyword

theorem Expr.resolveAll_looks {w : Walk} {σ : Setting} : (es : List Expr) → Expr.FormedAll es → w.Follows σ →
    w.Notes (Expr.resolveAll es w) (es.flatMap fun e => Spot.lookings ⟨σ, .expr e⟩)
  | [], _, _ => .quiet (.refl w [])
  | e :: rest, formed, h =>
    (e.resolve_looks formed.1 h).trans (Expr.resolveAll_looks rest formed.2 (e.resolve_follows formed.1 h))

theorem Stmt.resolve_looks {w : Walk} {σ : Setting} : (s : Stmt) → s.Formed → w.Follows σ →
    w.Notes (s.resolve w) (Spot.lookings ⟨σ, .stmt s⟩)
  | .expression value, formed, h => by
    rw [Spot.lookings_stmt, Stmt.resolve]
    simpa [Stmt.parts] using value.resolve_looks formed h
  | .print _ value, formed, h => by
    rw [Spot.lookings_stmt, Stmt.resolve]
    simpa [Stmt.parts] using value.resolve_looks formed h
  | .var name none, _, _ => by
    rw [Spot.lookings_stmt]
    exact .quiet (w.grows_introduce name)
  | .var name (some initial), formed, h => by
    have inside := (Walk.Notes.quiet (w.grows_declare name)).trans (initial.resolve_looks formed (h.initializing name))
    have settled := inside.trans (.quiet (Walk.grows_settle _ name))
    rw [Spot.lookings_stmt, Stmt.resolve]
    simpa [Stmt.parts] using settled
  | .block body, formed, h => by
    have inside := Stmt.resolveAll_looks body formed (h.block body)
    have left : w.Notes _ _ := Walk.Notes.trans inside (.quiet (Walk.grows_leave _))
    rw [Spot.lookings_stmt, Stmt.resolve]
    simpa [Stmt.parts] using left
  | .branch condition yes none, formed, h => by
    obtain ⟨test, inner, _⟩ := formed
    have taken := yes.resolve_looks inner ((condition.resolve_follows test h).nest (.branch condition yes none) rfl)
    rw [Spot.lookings_stmt, Stmt.resolve]
    simpa [Stmt.parts] using (condition.resolve_looks test h).trans taken
  | .branch condition yes (some no), formed, h => by
    obtain ⟨test, ⟨inner, nothing⟩, other, _⟩ := formed
    have before := condition.resolve_follows test h
    have between := yes.resolve_follows inner before
    rw [nothing, σ.declare_nil] at between
    have taken := yes.resolve_looks inner (before.nest (.branch condition yes (some no)) rfl)
    have refused := no.resolve_looks other (between.nest (.branch condition yes (some no)) rfl)
    rw [Spot.lookings_stmt, Stmt.resolve]
    simpa [Stmt.parts] using ((condition.resolve_looks test h).trans taken).trans refused
  | .loop condition body, formed, h => by
    obtain ⟨test, inner, _⟩ := formed
    have turned := h.turn condition body
    have asked := condition.resolve_looks test turned
    have taken : w.Notes _ _ := asked.trans (body.resolve_looks inner (condition.resolve_follows test turned))
    rw [Spot.lookings_stmt]
    simpa [Stmt.parts] using show w.Notes (Stmt.resolve (.loop condition body) w) _ from taken
  | .leave keyword, _, _ => by
    rw [Spot.lookings_stmt]
    exact .quiet (Stmt.resolve_grows (.leave keyword) w)
  | .function routine, formed, h => by
    have inside := (Walk.Notes.quiet (w.grows_introduce routine.head)).trans
      (routine.resolve_looks .function formed (h.introduce routine.head))
    rw [Spot.lookings_stmt, Stmt.resolve]
    simpa [Stmt.parts] using inside
  | .giveBack keyword none, _, _ => by
    rw [Spot.lookings_stmt]
    exact .quiet (Stmt.resolve_grows (.giveBack keyword none) w)
  | .giveBack keyword (some value), formed, h => by
    rw [Spot.lookings_stmt]
    unfold Stmt.resolve
    have plain : ∀ {w' : Walk}, w'.Follows σ → w'.notes = w.notes →
        w.Notes (value.resolve w') (List.flatMap Spot.lookings [⟨σ, .expr value⟩]) := by
      intro w' follows same
      have inside := value.resolve_looks formed follows
      unfold Walk.Notes at inside ⊢
      simpa [same] using inside
    dsimp only
    split <;> split
    · exact plain ((h.faulted _ _).faulted _ _) rfl
    · exact plain (h.faulted _ _) rfl
    · exact plain (h.faulted _ _) rfl
    · exact plain h rfl
  | .classes name methods, formed, h => by
    have inside := Routine.resolveMethods_looks methods formed (h.methods name methods)
    have introduced : w.Notes _ _ := (Walk.Notes.quiet (w.grows_introduce name)).trans inside
    have left := introduced.trans (.quiet (Walk.grows_leave _))
    change w.Notes (Stmt.resolve (.classes name methods) w) _ at left
    rw [Spot.lookings_stmt]
    simpa [Stmt.parts, List.flatMap_map] using left

theorem Stmt.resolveAll_looks {w : Walk} {σ : Setting} : (ss : List Stmt) → Stmt.FormedAll ss → w.Follows σ →
    w.Notes (Stmt.resolveAll ss w) (Spot.lookings ⟨σ, .stmts ss⟩)
  | [], _, _ => by
    rw [Spot.lookings_eq]
    exact .quiet (.refl w [])
  | s :: rest, formed, h => by
    have both := (s.resolve_looks formed.1 h).trans
      (Stmt.resolveAll_looks rest formed.2 (s.resolve_follows formed.1 h))
    rw [Spot.lookings_eq, Stmt.resolveAll]
    simpa [Spot.looks, Spot.parts] using both

theorem Routine.resolve_looks {w : Walk} {σ : Setting} (kind : BodyKind) : (r : Routine) → r.Formed → w.Follows σ →
    w.Notes (r.resolve kind w) (Spot.lookings ⟨σ, .routine kind r⟩)
  | .mk head parameters body, formed, h => by
    have entered : Walk.Notes _ (w.enterRoutine kind parameters) [] := .quiet (Walk.grows_introduceAll _ parameters)
    have inside := entered.trans (Stmt.resolveAll_looks body formed (h.routine kind (.mk head parameters body)))
    have left := (inside.trans (.quiet (Walk.grows_flag _ body))).trans (.quiet (Walk.grows_leave _))
    change w.Notes (Routine.resolve kind (.mk head parameters body) w) _ at left
    rw [Spot.lookings_eq]
    simpa [Spot.looks, Spot.parts, Routine.body] using left

theorem Routine.resolveMethods_looks {w : Walk} {σ : Setting} : (rs : List Routine) → Routine.FormedAll rs →
    w.Follows σ → w.Notes (Routine.resolveMethods rs w) (rs.flatMap fun r => Spot.lookings ⟨σ, .routine r.methodKind r⟩)
  | [], _, _ => .quiet (.refl w [])
  | r :: rest, formed, h =>
    (r.resolve_looks r.methodKind formed.1 h).trans
      (Routine.resolveMethods_looks rest formed.2 (r.resolve_follows r.methodKind formed.1 h))

end

-- The id of a single piece of code.
def Spot.ref? : Spot → Option RefId
  | ⟨_, .expr (.variable i _)⟩ => some i
  | ⟨_, .expr (.assign i _ _)⟩ => some i
  | ⟨_, .expr (.this i _)⟩ => some i
  | _ => none

theorem Spot.ref?_eq {σ : Setting} {e : Expr} : Spot.ref? ⟨σ, .expr e⟩ = some i ↔ ∃ name, e.Refers i name := by
  constructor
  · intro found
    cases e with
    | assign j name value =>
      cases found
      exact ⟨name, .assign⟩
    | this j keyword =>
      cases found
      exact ⟨keyword, .this⟩
    | literal | grouping | unary | binary | logical | call | lambda | get | set => cases found
    | _ j name =>
      cases found
      exact ⟨name, .look⟩
  · rintro ⟨name, refers⟩
    cases refers <;> rfl

theorem Spot.ref_looks {T : Spot} {note : Note} (looked : note ∈ T.looks) : T.ref? = some note.id := by
  obtain ⟨σ, code⟩ := T
  cases code with
  | expr e =>
    change note ∈ e.looks σ at looked
    cases e with
    | assign j name value =>
      cases List.mem_singleton.mp looked
      rfl
    | this j keyword =>
      rw [Expr.looks] at looked
      split at looked
      · cases List.mem_singleton.mp looked
        rfl
      · cases looked
    | literal | grouping | unary | binary | logical | call | lambda | get | set => cases looked
    | _ j name =>
      cases List.mem_singleton.mp looked
      rfl
  | _ => cases looked

theorem Expr.refsOf_mentionsAll (es : List Expr) :
    refsOf (Expr.mentionsAll es) = es.flatMap fun e => refsOf e.mentions := by
  induction es with
  | nil => rfl
  | cons e rest ih => rw [Expr.mentionsAll, refsOf_append, ih, List.flatMap_cons]

theorem Routine.refsOf_mentionsAll (rs : List Routine) :
    refsOf (Routine.mentionsAll rs) = rs.flatMap fun r => refsOf r.mentions := by
  induction rs with
  | nil => rfl
  | cons r rest ih => rw [Routine.mentionsAll, refsOf_append, ih, List.flatMap_cons]

-- The ids of some code are its own and those of its parts.
theorem Spot.parts_refs (S : Spot) : (refsOf S.code.mentions).Perm
    (S.ref?.toList ++ S.parts.flatMap fun part => refsOf part.code.mentions) := by
  obtain ⟨σ, code⟩ := S
  cases code with
  | expr e =>
    cases e with
    | call callee close arguments =>
      simp [Spot.ref?, Spot.parts, Expr.parts, Code.mentions, Expr.mentions, Expr.refsOf_mentionsAll, List.flatMap_map]
    | assign i name value =>
      simp [Spot.ref?, Spot.parts, Expr.parts, Code.mentions, Expr.mentions]
    | _ => simp [Spot.ref?, Spot.parts, Expr.parts, Code.mentions, Expr.mentions]
  | stmt s =>
    cases s with
    | classes name methods =>
      simp [Spot.ref?, Spot.parts, Stmt.parts, Code.mentions, Stmt.mentions, Routine.refsOf_mentionsAll,
        List.flatMap_map]
    | var name initial | giveBack name initial =>
      cases initial <;> simp [Spot.ref?, Spot.parts, Stmt.parts, Code.mentions, Stmt.mentions]
    | branch condition yes no =>
      cases no <;> simp [Spot.ref?, Spot.parts, Stmt.parts, Code.mentions, Stmt.mentions]
    | _ => simp [Spot.ref?, Spot.parts, Stmt.parts, Code.mentions, Stmt.mentions]
  | stmts ss =>
    cases ss <;> simp [Spot.ref?, Spot.parts, Code.mentions, Stmt.mentionsAll]
  | routine kind r =>
    obtain ⟨head, parameters, body⟩ := r
    simp [Spot.ref?, Spot.parts, Code.mentions, Routine.mentions, Routine.body]

theorem Spot.everywhere_refs (S : Spot) :
    (refsOf S.code.mentions).Perm (S.everywhere.flatMap fun T => T.ref?.toList) := by
  -- On the code, since the parts of a spot are smaller.
  induction small : S.code.size using Nat.strongRecOn generalizing S with
  | _ size ih =>
    rw [S.everywhere_flatMap]
    refine S.parts_refs.trans (List.Perm.append_left _ ?_)
    exact List.Perm.flatMap_left _ fun part member => ih _ (small ▸ Spot.parts_smaller member) part rfl

-- Two nodes of a tree with different ids each have ids of their own.
theorem Spot.ref_unique {root S T : Spot} (single : (refsOf root.code.mentions).Nodup) (here : S ∈ root.everywhere)
    (there : T ∈ root.everywhere) (first : S.ref? = some i) (second : T.ref? = some i) : S = T := by
  have each := (List.nodup_flatMap.mp (root.everywhere_refs.nodup_iff.mp single)).2
  have symmetric : Std.Symm (Function.onFun List.Disjoint fun T : Spot => T.ref?.toList) :=
    ⟨fun _ _ apart _ first second => apart second first⟩
  by_contra differ
  exact each.forall here there differ (Option.mem_toList.mpr first) (Option.mem_toList.mpr second)

end ScopeScript
