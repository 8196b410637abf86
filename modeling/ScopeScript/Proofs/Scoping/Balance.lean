import ScopeScript.Proofs.Scoping.Await
import ScopeScript.Proofs.Scoping.Rename

namespace ScopeScript

-- The names that a statement adds to the scope it stands in, those of the bare branches and bodies inside included.
def Stmt.introduces : Stmt → List Token
  | .branch _ yes none => yes.introduces
  | .branch _ yes (some no) => yes.introduces ++ no.introduces
  | .loop _ body => body.introduces
  | .var name _ => [name]
  | .function routine => [routine.head]
  | .classes name _ => [name]
  | _ => []

-- What a name stands for before and after a walk that does not declare it: the same, at most marked as used.
structure Declared.Marked (before after : Option Declared) : Prop where
  same : after.map (fun entry => (entry.token, entry.defined)) = before.map fun entry => (entry.token, entry.defined)
  used : before.any (·.used) = true → after.any (·.used) = true

def Names.Marked (before after : Names Declared) : Prop :=
  ∀ name, Declared.Marked (before.get? name) (after.get? name)

-- A scope in which some names are declared, in this order: each has its value, and the token that declared it last.
-- Every other name is at most marked as used.
def Names.Gains (declared : List Token) (before after : Names Declared) : Prop :=
  ∀ name, match declared.reverse.find? (·.lexeme == name) with
    | some t => ∃ used, after.get? name = some ⟨true, used, some t⟩
    | none => Declared.Marked (before.get? name) (after.get? name)

-- Only the innermost scope gains names. Outside of all scopes there is none to gain them.
inductive Levels (declared : List Token) : List (Names Declared) → List (Names Declared) → Prop where
  | global : Levels declared [] []
  | nested (inner : Names.Gains declared names names') (outer : List.Forall₂ Names.Marked scopes scopes') :
      Levels declared (names :: scopes) (names' :: scopes')

-- A walk comes back to where it began.
structure Walk.Balanced (declared : List Token) (w after : Walk) : Prop where
  depth : after.scopes.length = w.scopes.length
  levels : Levels declared w.scopes after.scopes
  body : after.body = w.body
  inClass : after.inClass = w.inClass
  loops : after.loops = w.loops

namespace Declared.Marked

theorem refl (entry : Option Declared) : Marked entry entry := ⟨rfl, id⟩

theorem trans {a b c : Option Declared} (first : Marked a b) (second : Marked b c) : Marked a c :=
  ⟨second.same.trans first.same, second.used ∘ first.used⟩

theorem settled {t : Token} {ready used : Bool} {after : Option Declared} (h : Marked (some ⟨ready, used, some t⟩) after) :
    ∃ used, after = some ⟨ready, used, some t⟩ := by
  have same := h.same
  cases after with
  | none => cases same
  | some entry =>
    obtain ⟨d, u, token⟩ := entry
    cases same
    exact ⟨u, rfl⟩

end Declared.Marked

namespace Names

variable {a b c : Names Declared}

theorem Marked.refl (names : Names Declared) : names.Marked names := fun _ => .refl _

theorem Marked.trans (first : a.Marked b) (second : b.Marked c) : a.Marked c := fun name => (first name).trans (second name)

theorem Marked.use {names : Names Declared} {name : String} (found : names.get? name = some entry) :
    names.Marked (names.put name { entry with used := true }) := by
  intro asked
  rw [get?_put]
  split
  · next same =>
    subst same
    rw [found]
    exact ⟨rfl, fun _ => rfl⟩
  · exact .refl _

theorem Marked.gains (h : a.Marked b) : a.Gains [] b := h

theorem Gains.marked (h : a.Gains [] b) : a.Marked b := h

theorem Gains.trans {first second : List Token} (before : a.Gains first b) (behind : b.Gains second c) :
    a.Gains (first ++ second) c := by
  intro name
  have early := before name
  have late := behind name
  rw [List.reverse_append, List.find?_append]
  cases last : second.reverse.find? (·.lexeme == name) with
  | some t =>
    rw [last] at late
    exact late
  | none =>
    rw [last] at late
    cases mine : first.reverse.find? (·.lexeme == name) with
    | some t =>
      rw [mine] at early
      obtain ⟨used, found⟩ := early
      rw [found] at late
      exact late.settled
    | none =>
      rw [mine] at early
      exact early.trans late

-- A name is put into a scope, some names are marked as used, and it has its value.
theorem Gains.settle {names : Names Declared} {t : Token} (used : Bool)
    (passed : Marked (names.put t.lexeme ⟨false, false, some t⟩) b) :
    names.Gains [t] (b.put t.lexeme ⟨true, used, some t⟩) := by
  intro name
  have other := passed name
  rw [get?_put] at other
  rw [get?_put]
  by_cases same : name = t.lexeme
  · subst same
    simp
  · rw [if_neg same] at other ⊢
    simpa [Ne.symm same] using other

end Names

theorem Levels.marked {scopes scopes' : List (Names Declared)} (h : List.Forall₂ Names.Marked scopes scopes') :
    Levels [] scopes scopes' := by
  cases h with
  | nil => exact .global
  | cons inner outer => exact .nested inner.gains outer

theorem Names.marked_all (scopes : List (Names Declared)) : List.Forall₂ Names.Marked scopes scopes :=
  List.forall₂_same.mpr fun names _ => .refl names

theorem Names.marked_trans {a b c : List (Names Declared)} (first : List.Forall₂ Names.Marked a b)
    (second : List.Forall₂ Names.Marked b c) : List.Forall₂ Names.Marked a c := by
  induction first generalizing c with
  | nil => exact second
  | cons inner outer ih =>
    cases second with
    | cons inner' outer' => exact .cons (inner.trans inner') (ih outer')

theorem Levels.trans {a b c : List (Names Declared)} {first second : List Token} (before : Levels first a b)
    (behind : Levels second b c) : Levels (first ++ second) a c := by
  cases before with
  | global =>
    cases behind
    exact .global
  | nested inner outer =>
    cases behind with
    | nested inner' outer' => exact .nested (inner.trans inner') (Names.marked_trans outer outer')

theorem Levels.length {a b : List (Names Declared)} {declared : List Token} (h : Levels declared a b) :
    b.length = a.length := by
  cases h with
  | global => rfl
  | nested inner outer => exact congrArg Nat.succ outer.length_eq.symm

namespace Walk

theorem findFrom_marks {name : String} {depth : Nat} {scopes changed : List (Names Declared)}
    (found : findFrom name depth scopes = some (out, changed)) : List.Forall₂ Names.Marked scopes changed := by
  induction scopes generalizing depth changed with
  | nil => cases found
  | cons names outer ih =>
    unfold findFrom at found
    cases entry : names.get? name with
    | some declared =>
      rw [entry] at found
      cases found
      exact .cons (.use entry) (Names.marked_all outer)
    | none =>
      rw [entry] at found
      obtain ⟨⟨further, rest⟩, later, same⟩ := Option.map_eq_some_iff.mp found
      cases same
      exact .cons (.refl names) (ih later)

namespace Balanced

variable {w middle after : Walk} {declared : List Token}

theorem of_levels (levels : Levels declared w.scopes after.scopes) (body : after.body = w.body)
    (inClass : after.inClass = w.inClass) (loops : after.loops = w.loops) : w.Balanced declared after :=
  ⟨levels.length, levels, body, inClass, loops⟩

theorem refl (w : Walk) : w.Balanced [] w := of_levels (.marked (Names.marked_all _)) rfl rfl rfl

theorem trans {first second : List Token} (before : w.Balanced first middle) (behind : middle.Balanced second after) :
    w.Balanced (first ++ second) after :=
  of_levels (before.levels.trans behind.levels) (behind.body.trans before.body) (behind.inClass.trans before.inClass)
    (behind.loops.trans before.loops)

theorem fault (w : Walk) (cause : StaticCause) (t : Token) : w.Balanced [] (w.fault cause t) := { refl w with }

theorem refer (w : Walk) (i : RefId) (name : Token) : w.Balanced [] (w.refer i name) := by
  unfold Walk.refer
  split
  · next found => exact of_levels (.marked (findFrom_marks found)) rfl rfl rfl
  · exact { refl w with }

theorem flag (w : Walk) (ss : List Stmt) : w.Balanced [] (w.flagUnreachable ss) := by
  obtain ⟨warnings, same⟩ := w.flagUnreachable_warns ss
  rw [same]
  exact { refl w with }

theorem fields_declare (w : Walk) (t : Token) :
    (w.declare t).body = w.body ∧ (w.declare t).inClass = w.inClass ∧ (w.declare t).loops = w.loops := by
  unfold Walk.declare
  split
  · exact ⟨rfl, rfl, rfl⟩
  · dsimp only
    split <;> exact ⟨rfl, rfl, rfl⟩

theorem fields_settle (w : Walk) (t : Token) :
    (w.settle t).body = w.body ∧ (w.settle t).inClass = w.inClass ∧ (w.settle t).loops = w.loops := by
  unfold Walk.settle
  split
  · exact ⟨rfl, rfl, rfl⟩
  · split <;> exact ⟨rfl, rfl, rfl⟩

-- A declaration, with what is walked between the name and its value.
theorem settle {t : Token} (passed : (w.declare t).Balanced [] after) : w.Balanced [t] (after.settle t) := by
  obtain ⟨body, inClass, loops⟩ := fields_declare w t
  obtain ⟨body', inClass', loops'⟩ := fields_settle after t
  refine of_levels ?_ (body'.trans (passed.body.trans body)) (inClass'.trans (passed.inClass.trans inClass))
    (loops'.trans (passed.loops.trans loops))
  have levels := passed.levels
  rw [declare_scopes] at levels
  unfold Walk.settle
  cases given : w.scopes with
  | nil =>
    rw [given] at levels
    generalize left : after.scopes = scopes at levels
    cases levels
    dsimp only
    rw [left]
    exact .global
  | cons names outer =>
    rw [given] at levels
    generalize left : after.scopes = scopes at levels
    cases levels with
    | @nested _ names' _ scopes' inner outer =>
      have still := inner.marked t.lexeme
      rw [Names.get?_put, if_pos rfl] at still
      obtain ⟨used, found⟩ := still.settled
      dsimp only
      rw [found]
      exact .nested (.settle used inner.marked) outer

theorem introduce (w : Walk) (t : Token) : w.Balanced [t] (w.introduce t) := settle (refl _)

theorem introduceAll (names : List Token) (w : Walk) : w.Balanced names (names.foldl Walk.introduce w) := by
  induction names generalizing w with
  | nil => exact refl w
  | cons t rest ih => exact (introduce w t).trans (ih _)

-- Inside there is one scope more.
theorem stands {names : Names Declared} (inside : (w.enter names).Balanced declared after) :
    after.scopes.length = w.scopes.length + 1 := inside.depth

-- The scope that was entered is the one that is left.
theorem leave {names : Names Declared} (inside : (w.enter names).Balanced declared after) : w.Balanced [] after.leave := by
  obtain ⟨warnings, same⟩ := after.leave_warns
  have levels := inside.levels
  generalize given : after.scopes = scopes at levels
  cases levels with
  | nested inner outer =>
    rw [same, given]
    exact of_levels (.marked outer) inside.body inside.inClass inside.loops

theorem routine {kind : BodyKind} {parameters : List Token} (ss : List Stmt)
    (inside : (w.enterRoutine kind parameters).Balanced declared after) :
    Balanced (parameters ++ declared ++ []) ({ w with body := kind, loops := 0 }.enter []) (after.flagUnreachable ss) :=
  ((introduceAll parameters _).trans inside).trans (flag after ss)

-- The routine that was entered is the one that is left.
theorem leaveRoutine {kind : BodyKind} {parameters : List Token} (ss : List Stmt)
    (inside : (w.enterRoutine kind parameters).Balanced declared after) :
    w.Balanced [] ((after.flagUnreachable ss).leaveRoutine w.body w.loops) :=
  have left := leave (inside.routine ss)
  of_levels left.levels rfl left.inClass rfl

end Balanced

end Walk

-- Code of any kind leaves the walk as it found it. Induction on the code.
mutual

theorem Expr.resolve_balanced : (e : Expr) → (w : Walk) → w.Balanced [] (e.resolve w)
  | .literal _, w => .refl w
  | .grouping inner, w => inner.resolve_balanced w
  | .unary _ operand, w => operand.resolve_balanced w
  | .binary left _ right, w => (left.resolve_balanced w).trans (right.resolve_balanced _)
  | .logical left _ right, w => (left.resolve_balanced w).trans (right.resolve_balanced _)
  | .variable i name, w => by
    unfold Expr.resolve
    dsimp only
    split
    · exact (Walk.Balanced.fault w _ _).trans (.refer _ i name)
    · exact .refer w i name
  | .assign i name value, w => (value.resolve_balanced w).trans (.refer _ i name)
  | .call callee _ arguments, w => (callee.resolve_balanced w).trans (Expr.resolveAll_balanced arguments _)
  | .lambda routine, w => routine.resolve_balanced .lambda w
  | .get object _, w => object.resolve_balanced w
  | .set object _ value, w => (object.resolve_balanced w).trans (value.resolve_balanced _)
  | .this i keyword, w => by
    unfold Expr.resolve
    split
    · exact .refer w i keyword
    · exact .fault w _ _

theorem Expr.resolveAll_balanced : (es : List Expr) → (w : Walk) → w.Balanced [] (Expr.resolveAll es w)
  | [], w => .refl w
  | e :: rest, w => (e.resolve_balanced w).trans (Expr.resolveAll_balanced rest _)

theorem Stmt.resolve_balanced : (s : Stmt) → (w : Walk) → w.Balanced s.introduces (s.resolve w)
  | .expression value, w => value.resolve_balanced w
  | .print _ value, w => value.resolve_balanced w
  | .var name none, w => .introduce w name
  | .var name (some initial), w => .settle (initial.resolve_balanced (w.declare name))
  | .block body, w => .leave (Stmt.resolveAll_balanced body (w.enter []))
  | .branch condition yes none, w => (condition.resolve_balanced w).trans (yes.resolve_balanced _)
  | .branch condition yes (some no), w =>
    (condition.resolve_balanced w).trans ((yes.resolve_balanced _).trans (no.resolve_balanced _))
  | .loop condition body, w => by
    have turn := (condition.resolve_balanced { w with loops := w.loops + 1 }).trans (body.resolve_balanced _)
    exact .of_levels turn.levels turn.body turn.inClass (by simp [Stmt.resolve, turn.loops])
  | .leave keyword, w => by
    unfold Stmt.resolve
    split
    · exact .fault w _ _
    · exact .refl w
  | .function routine, w => (Walk.Balanced.introduce w routine.head).trans (routine.resolve_balanced .function _)
  | .giveBack keyword none, w => by
    unfold Stmt.resolve
    split
    · exact .fault w _ _
    · exact .refl w
  | .giveBack keyword (some value), w => by
    unfold Stmt.resolve
    dsimp only
    split <;> split
    · exact ((Walk.Balanced.fault w _ _).trans (.fault _ _ _)).trans (value.resolve_balanced _)
    · exact (Walk.Balanced.fault w _ _).trans (value.resolve_balanced _)
    · exact (Walk.Balanced.fault w _ _).trans (value.resolve_balanced _)
    · exact value.resolve_balanced w
  | .classes name methods, w => by
    have introduced := Walk.Balanced.introduce w name
    have left := Walk.Balanced.leave (Routine.resolveMethods_balanced methods
      ({ w.introduce name with inClass := true }.enter [(receiverName, ⟨true, true, none⟩)]))
    exact .of_levels (introduced.levels.trans left.levels) (left.body.trans introduced.body) rfl
      (left.loops.trans introduced.loops)

theorem Stmt.resolveAll_balanced : (ss : List Stmt) → (w : Walk) →
    w.Balanced (ss.flatMap Stmt.introduces) (Stmt.resolveAll ss w)
  | [], w => .refl w
  | s :: rest, w => (s.resolve_balanced w).trans (Stmt.resolveAll_balanced rest _)

theorem Routine.resolve_balanced (kind : BodyKind) : (r : Routine) → (w : Walk) → w.Balanced [] (r.resolve kind w)
  | .mk _ parameters body, w => .leaveRoutine body (Stmt.resolveAll_balanced body (w.enterRoutine kind parameters))

theorem Routine.resolveMethods_balanced : (rs : List Routine) → (w : Walk) →
    w.Balanced [] (Routine.resolveMethods rs w)
  | [], w => .refl w
  | r :: rest, w => (r.resolve_balanced _ w).trans (Routine.resolveMethods_balanced rest _)

end

-- Nothing is taken back that is not there: not a turn of a loop, and not the scope of a block, a class or a routine.
-- A statement of a program is walked in the setting of the start, with what was found so far.
theorem walks_balanced :
    (∀ (s : Stmt) (w : Walk), w.Balanced s.introduces (s.resolve w)) ∧
    (∀ (e : Expr) (w : Walk), w.Balanced [] (e.resolve w)) ∧
    (∀ (condition : Expr) (body : Stmt) (w : Walk),
      let inside := body.resolve (condition.resolve { w with loops := w.loops + 1 })
      (Stmt.loop condition body).resolve w = { inside with loops := inside.loops - 1 } ∧ inside.loops = w.loops + 1) ∧
    (∀ (body : List Stmt) (w : Walk),
      let inside := Stmt.resolveAll body (w.enter [])
      (Stmt.block body).resolve w = inside.leave ∧ inside.scopes.length = w.scopes.length + 1) ∧
    (∀ (name : Token) (methods : List Routine) (w : Walk),
      let inside := Routine.resolveMethods methods
        ({ w.introduce name with inClass := true }.enter [(receiverName, ⟨true, true, none⟩)])
      (Stmt.classes name methods).resolve w = { inside.leave with inClass := w.inClass } ∧
        inside.scopes.length = w.scopes.length + 1) ∧
    (∀ (kind : BodyKind) (head : Token) (parameters : List Token) (body : List Stmt) (w : Walk),
      let inside := (Stmt.resolveAll body (w.enterRoutine kind parameters)).flagUnreachable body
      (Routine.mk head parameters body).resolve kind w = { inside.leave with body := w.body, loops := w.loops } ∧
        inside.scopes.length = w.scopes.length + 1) ∧
    (∀ (before : List Stmt) (s : Stmt) (rest : List Stmt),
      let w := Stmt.resolveAll before .start
      Stmt.resolveAll (before ++ s :: rest) .start = Stmt.resolveAll rest (s.resolve w) ∧
        w = { Walk.start with faults := w.faults, warnings := w.warnings, notes := w.notes }) := by
  refine ⟨Stmt.resolve_balanced, Expr.resolve_balanced, fun condition body w => ⟨rfl, ?_⟩, fun body w => ⟨rfl, ?_⟩,
    fun name methods w => ⟨rfl, ?_⟩, fun kind head parameters body w => ⟨rfl, ?_⟩, fun before s rest => ⟨?_, ?_⟩⟩
  · have turn := (condition.resolve_balanced { w with loops := w.loops + 1 }).trans (body.resolve_balanced _)
    exact turn.loops
  · exact (Stmt.resolveAll_balanced body (w.enter [])).stands
  · have inside := (Routine.resolveMethods_balanced methods
      ({ w.introduce name with inClass := true }.enter [(receiverName, ⟨true, true, none⟩)])).stands
    exact inside.trans (congrArg (· + 1) (Walk.Balanced.introduce w name).depth)
  · exact ((Stmt.resolveAll_balanced body (w.enterRoutine kind parameters)).routine body).stands
  · exact Stmt.resolveAll_append before (s :: rest) _
  · have back := Stmt.resolveAll_balanced before .start
    have none_left : (Stmt.resolveAll before .start).scopes = [] := List.eq_nil_of_length_eq_zero back.depth
    generalize Stmt.resolveAll before .start = w at back none_left
    obtain ⟨scopes, body, inClass, loops, faults, warnings, notes⟩ := w
    cases none_left
    cases back.body
    cases back.inClass
    cases back.loops
    rfl

end ScopeScript
