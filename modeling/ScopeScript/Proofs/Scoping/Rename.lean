import ScopeScript.Scoping.Resolve
import ScopeScript.Proofs.Grammar.Rename

namespace ScopeScript

namespace Names

-- The same names for other things.
def mapThings (f : α → β) (names : Names α) : Names β := names.map fun row => (row.1, f row.2)

variable (f : α → β) (names : Names α) (name : String) (thing : α)

theorem get?_mapThings : (names.mapThings f).get? name = (names.get? name).map f := by
  induction names with
  | nil => rfl
  | cons row rest ih =>
    show get? ((row.1, f row.2) :: mapThings f rest) name = (get? ((row.1, row.2) :: rest) name).map f
    rw [get?_cons, get?_cons, ih]
    split <;> rfl

theorem binds_mapThings : (names.mapThings f).binds name = names.binds name := by
  unfold binds
  rw [get?_mapThings, Option.isSome_map]

theorem put_mapThings : put name (f thing) (names.mapThings f) = (put name thing names).mapThings f := by
  induction names with
  | nil => rfl
  | cons row rest ih =>
    obtain ⟨other, old⟩ := row
    show put name (f thing) ((other, f old) :: mapThings f rest) = mapThings f (put name thing ((other, old) :: rest))
    unfold put
    split
    · rfl
    · rw [ih]
      rfl

end Names

-- The new places stand in the order of the old ones.
def Renaming.Orderly (ρ : Renaming) : Prop := ∀ a b, (ρ.place a).before (ρ.place b) = a.before b

def Declared.rename (ρ : Renaming) (d : Declared) : Declared := { d with token := d.token.map (Token.rename ρ) }

def StaticFault.rename (ρ : Renaming) (f : StaticFault) : StaticFault := { f with token := f.token.rename ρ }

def Warning.rename (ρ : Renaming) (w : Warning) : Warning := { w with token := w.token.rename ρ }

def Note.rename (ρ : Renaming) (n : Note) : Note := { n with id := ρ.ref n.id }

namespace Walk

-- A walk over the renamed tree, with what another walk found before it.
def rename (w : Walk) (ρ : Renaming) (prior : Walk) : Walk :=
  { w with
    scopes := w.scopes.map (Names.mapThings (Declared.rename ρ))
    faults := prior.faults ++ w.faults.map (StaticFault.rename ρ)
    warnings := prior.warnings ++ w.warnings.map (Warning.rename ρ)
    notes := prior.notes ++ w.notes.map (Note.rename ρ) }

section

variable (w : Walk) (ρ : Renaming) (prior : Walk)

theorem rename_fault (cause : StaticCause) (t : Token) :
    (w.rename ρ prior).fault cause (t.rename ρ) = (w.fault cause t).rename ρ prior := by
  simp [rename, fault, StaticFault.rename]

theorem rename_warn (cause : WarningCause) (t : Token) :
    (w.rename ρ prior).warn cause (t.rename ρ) = (w.warn cause t).rename ρ prior := by
  simp [rename, warn, Warning.rename]

theorem rename_note (i : RefId) (depth : Option Nat) :
    (w.rename ρ prior).note (ρ.ref i) depth = (w.note i depth).rename ρ prior := by
  simp [rename, note, Note.rename]

theorem rename_warnAll (ts : List Token) :
    (ts.map (Token.rename ρ)).foldl (fun w t => w.warn .unusedVariable t) (w.rename ρ prior) =
      (ts.foldl (fun w t => w.warn .unusedVariable t) w).rename ρ prior := by
  induction ts generalizing w with
  | nil => rfl
  | cons t rest ih => rw [List.map_cons, List.foldl_cons, List.foldl_cons, rename_warn, ih]

-- Whether a fault is found does not depend on the renaming.
theorem rename_faultIf {P : Prop} [Decidable P] (cause : StaticCause) (t : Token) :
    (if P then (w.rename ρ prior).fault cause (t.rename ρ) else w.rename ρ prior) =
      (if P then w.fault cause t else w).rename ρ prior := by
  split
  · exact w.rename_fault ρ prior cause t
  · rfl

theorem rename_declare (name : Token) :
    (w.rename ρ prior).declare (name.rename ρ) = (w.declare name).rename ρ prior := by
  obtain ⟨scopes, body, inClass, loops, faults, warnings, notes⟩ := w
  cases scopes with
  | nil => rfl
  | cons names outer =>
    have entry : (⟨false, false, some (name.rename ρ)⟩ : Declared) =
        Declared.rename ρ ⟨false, false, some name⟩ := rfl
    simp only [declare, rename, List.map_cons, Token.rename_lexeme, Names.binds_mapThings, entry,
      Names.put_mapThings]
    exact rename_faultIf ⟨names.put name.lexeme ⟨false, false, some name⟩ :: outer, body, inClass, loops, faults,
      warnings, notes⟩ ρ prior .duplicateDeclaration name

theorem rename_settle (name : Token) :
    (w.rename ρ prior).settle (name.rename ρ) = (w.settle name).rename ρ prior := by
  obtain ⟨scopes, body, inClass, loops, faults, warnings, notes⟩ := w
  cases scopes with
  | nil => rfl
  | cons names outer =>
    simp only [settle, rename, List.map_cons, Token.rename_lexeme, Names.get?_mapThings]
    cases names.get? name.lexeme with
    | none => rfl
    | some entry =>
      have defined : ({ entry.rename ρ with defined := true } : Declared) =
          Declared.rename ρ { entry with defined := true } := rfl
      simp only [Option.map_some, defined, Names.put_mapThings, List.map_cons]

theorem rename_introduce (name : Token) :
    (w.rename ρ prior).introduce (name.rename ρ) = (w.introduce name).rename ρ prior := by
  unfold introduce
  rw [rename_declare, rename_settle]

theorem rename_initializing (name : String) :
    (w.rename ρ prior).initializing name = w.initializing name := by
  obtain ⟨scopes, body, inClass, loops, faults, warnings, notes⟩ := w
  cases scopes with
  | nil => rfl
  | cons names outer =>
    simp only [initializing, rename, List.map_cons, Names.get?_mapThings]
    cases names.get? name <;> rfl

theorem findFrom_mapThings (name : String) (depth : Nat) (scopes : List (Names Declared)) :
    findFrom name depth (scopes.map (Names.mapThings (Declared.rename ρ))) =
      (findFrom name depth scopes).map fun found =>
        (found.1, found.2.map (Names.mapThings (Declared.rename ρ))) := by
  induction scopes generalizing depth with
  | nil => rfl
  | cons names outer ih =>
    rw [List.map_cons, findFrom, findFrom, Names.get?_mapThings]
    cases names.get? name with
    | none =>
      dsimp only [Option.map_none]
      rw [ih, Option.map_map, Option.map_map]
      rfl
    | some entry =>
      have used : ({ entry.rename ρ with used := true } : Declared) =
          Declared.rename ρ { entry with used := true } := rfl
      dsimp only [Option.map_some]
      rw [used, Names.put_mapThings]
      rfl

theorem rename_refer (i : RefId) (name : Token) :
    (w.rename ρ prior).refer (ρ.ref i) (name.rename ρ) = (w.refer i name).rename ρ prior := by
  unfold refer
  have found := findFrom_mapThings ρ name.lexeme 0 w.scopes
  rw [Token.rename_lexeme, show (w.rename ρ prior).scopes = w.scopes.map _ from rfl, found]
  cases findFrom name.lexeme 0 w.scopes with
  | none => exact w.rename_note ρ prior i none
  | some found => exact Walk.rename_note { w with scopes := found.2 } ρ prior i (some found.1)

theorem unused_mapThings (orderly : ρ.Orderly) (names : Names Declared) :
    unused (names.mapThings (Declared.rename ρ)) = (unused names).map (Token.rename ρ) := by
  have declaring : ((names.mapThings (Declared.rename ρ)).filterMap fun row => if row.2.used then none else row.2.token) =
      (names.filterMap fun row => if row.2.used then none else row.2.token).map (Token.rename ρ) := by
    unfold Names.mapThings
    rw [List.filterMap_map, List.map_filterMap]
    congr 1
    funext row
    obtain ⟨name, defined, used, token⟩ := row
    cases used <;> rfl
  unfold unused
  rw [declaring]
  exact (List.map_mergeSort fun a _ b _ => (orderly a.position b.position).symm).symm

theorem rename_leave (orderly : ρ.Orderly) : (w.rename ρ prior).leave = w.leave.rename ρ prior := by
  obtain ⟨scopes, body, inClass, loops, faults, warnings, notes⟩ := w
  cases scopes with
  | nil => rfl
  | cons names outer =>
    simp only [leave, rename, List.map_cons, unused_mapThings ρ orderly]
    exact rename_warnAll ⟨outer, body, inClass, loops, faults, warnings, notes⟩ ρ prior (unused names)

theorem rename_flagUnreachable (ss : List Stmt) : (w.rename ρ prior).flagUnreachable (Stmt.renameAll ρ ss) =
    (w.flagUnreachable ss).rename ρ prior := by
  induction ss generalizing w with
  | nil => rfl
  | cons s rest ih =>
    cases s with
    | giveBack keyword value =>
      cases rest with
      | nil => cases value <;> rfl
      | cons next rest =>
        have warned := ih (w.warn .unreachableCode keyword)
        rw [← rename_warn] at warned
        cases value <;> exact warned
    | var name initial => cases initial <;> exact ih w
    | branch condition yes no => cases no <;> exact ih w
    | _ => exact ih w

theorem rename_introduceAll (names : List Token) :
    (names.map (Token.rename ρ)).foldl introduce (w.rename ρ prior) =
      (names.foldl introduce w).rename ρ prior := by
  induction names generalizing w with
  | nil => rfl
  | cons t rest ih => rw [List.map_cons, List.foldl_cons, List.foldl_cons, rename_introduce, ih]

theorem rename_enterRoutine (kind : BodyKind) (parameters : List Token) :
    (w.rename ρ prior).enterRoutine kind (parameters.map (Token.rename ρ)) =
      (w.enterRoutine kind parameters).rename ρ prior :=
  rename_introduceAll (enter { w with body := kind, loops := 0 } []) ρ prior parameters

theorem rename_leaveRoutine (orderly : ρ.Orderly) (kind : BodyKind) (loops : Nat) :
    (w.rename ρ prior).leaveRoutine kind loops = (w.leaveRoutine kind loops).rename ρ prior := by
  unfold leaveRoutine
  rw [rename_leave _ _ _ orderly]
  rfl

end

end Walk

-- A walk over a renamed tree finds the same, renamed.
section

variable {ρ : Renaming} (prior : Walk)

mutual

theorem Expr.resolve_rename (orderly : ρ.Orderly) (e : Expr) (w : Walk) :
    (e.rename ρ).resolve (w.rename ρ prior) = (e.resolve w).rename ρ prior := by
  cases e with
  | literal value => rfl
  | grouping inner => exact inner.resolve_rename orderly w
  | unary operator operand => exact operand.resolve_rename orderly w
  | binary left operator right =>
    rw [Expr.rename, Expr.resolve, left.resolve_rename orderly w, right.resolve_rename orderly]
    rfl
  | logical left operator right =>
    rw [Expr.rename, Expr.resolve, left.resolve_rename orderly w, right.resolve_rename orderly]
    rfl
  | assign i name value =>
    rw [Expr.rename, Expr.resolve, value.resolve_rename orderly w, Walk.rename_refer]
    rfl
  | call callee close arguments =>
    rw [Expr.rename, Expr.resolve, callee.resolve_rename orderly w, Expr.resolveAll_rename orderly arguments]
    rfl
  | lambda routine => exact routine.resolve_rename orderly .lambda w
  | get object name => exact object.resolve_rename orderly w
  | set object name value =>
    rw [Expr.rename, Expr.resolve, object.resolve_rename orderly w, value.resolve_rename orderly]
    rfl
  | this i keyword =>
    rw [Expr.rename, Expr.resolve, Expr.resolve, Walk.rename_refer, Walk.rename_fault]
    exact (apply_ite (Walk.rename · ρ prior) _ _ _).symm
  | _ i name =>
    rw [Expr.rename, Expr.resolve, Token.rename_lexeme, Walk.rename_initializing, Walk.rename_faultIf,
      Walk.rename_refer]
    rfl

theorem Expr.resolveAll_rename (orderly : ρ.Orderly) (es : List Expr) (w : Walk) :
    Expr.resolveAll (Expr.renameAll ρ es) (w.rename ρ prior) = (Expr.resolveAll es w).rename ρ prior := by
  cases es with
  | nil => rfl
  | cons e rest =>
    rw [Expr.renameAll, Expr.resolveAll, e.resolve_rename orderly w, Expr.resolveAll_rename orderly rest]
    rfl

theorem Stmt.resolve_rename (orderly : ρ.Orderly) (s : Stmt) (w : Walk) :
    (s.rename ρ).resolve (w.rename ρ prior) = (s.resolve w).rename ρ prior := by
  cases s with
  | expression value => exact value.resolve_rename orderly w
  | print keyword value => exact value.resolve_rename orderly w
  | var name initial =>
    cases initial with
    | none => exact w.rename_introduce ρ prior name
    | some e =>
      rw [Stmt.rename, Stmt.resolve, Walk.rename_declare, e.resolve_rename orderly, Walk.rename_settle]
      rfl
  | block body =>
    have inside := Stmt.resolveAll_rename orderly body (w.enter [])
    rw [Stmt.rename, Stmt.resolve]
    exact (congrArg Walk.leave inside).trans (Walk.rename_leave _ ρ prior orderly)
  | branch condition yes no =>
    cases no with
    | none =>
      rw [Stmt.rename, Stmt.resolve, condition.resolve_rename orderly w, yes.resolve_rename orderly]
      rfl
    | some no =>
      rw [Stmt.rename, Stmt.resolve, condition.resolve_rename orderly w, yes.resolve_rename orderly, no.resolve_rename orderly]
      rfl
  | loop condition body =>
    have turned := condition.resolve_rename orderly { w with loops := w.loops + 1 }
    have inside := body.resolve_rename orderly (condition.resolve { w with loops := w.loops + 1 })
    rw [← turned] at inside
    rw [Stmt.rename, Stmt.resolve]
    exact congrArg (fun w : Walk => { w with loops := w.loops - 1 }) inside
  | leave keyword => exact w.rename_faultIf ρ prior .breakOutsideLoop keyword
  | function routine =>
    rw [Stmt.rename, Stmt.resolve, Routine.rename_head, Walk.rename_introduce, routine.resolve_rename orderly]
    rfl
  | giveBack keyword value =>
    have outside := w.rename_faultIf ρ prior (P := w.body = .outside) .returnOutsideFunction keyword
    cases value with
    | none => exact outside
    | some e =>
      have plain := Walk.rename_faultIf (if w.body = .outside then w.fault .returnOutsideFunction keyword else w) ρ prior
        (P := Walk.body (if w.body = .outside then w.fault .returnOutsideFunction keyword else w) = .initializer)
        .valueFromInitializer keyword
      have checked := congrArg (fun w : Walk =>
        if w.body = .initializer then w.fault .valueFromInitializer (keyword.rename ρ) else w) outside
      exact (congrArg (e.rename ρ).resolve (checked.trans plain)).trans (e.resolve_rename orderly _)
  | classes name methods =>
    let entered := Walk.enter { w.introduce name with inClass := true } [(receiverName, ⟨true, true, none⟩)]
    have introduced := congrArg (fun w : Walk => Walk.enter { w with inClass := true } [(receiverName, ⟨true, true, none⟩)])
      (w.rename_introduce ρ prior name)
    have inside := (congrArg (Routine.resolveMethods (Routine.renameAll ρ methods)) introduced).trans
      (Routine.resolveMethods_rename orderly methods entered)
    have left := (congrArg Walk.leave inside).trans (Walk.rename_leave _ ρ prior orderly)
    exact congrArg (fun left : Walk => { left with inClass := w.inClass }) left

theorem Stmt.resolveAll_rename (orderly : ρ.Orderly) (ss : List Stmt) (w : Walk) :
    Stmt.resolveAll (Stmt.renameAll ρ ss) (w.rename ρ prior) = (Stmt.resolveAll ss w).rename ρ prior := by
  cases ss with
  | nil => rfl
  | cons s rest =>
    rw [Stmt.renameAll, Stmt.resolveAll, s.resolve_rename orderly w, Stmt.resolveAll_rename orderly rest]
    rfl

theorem Routine.resolve_rename (orderly : ρ.Orderly) (r : Routine) (kind : BodyKind) (w : Walk) :
    (r.rename ρ).resolve kind (w.rename ρ prior) = (r.resolve kind w).rename ρ prior := by
  cases r with
  | mk head parameters body =>
    rw [Routine.rename, Routine.resolve, Walk.rename_enterRoutine, Stmt.resolveAll_rename orderly body,
      Walk.rename_flagUnreachable]
    exact Walk.rename_leaveRoutine _ ρ prior orderly _ _

theorem Routine.resolveMethods_rename (orderly : ρ.Orderly) (rs : List Routine) (w : Walk) :
    Routine.resolveMethods (Routine.renameAll ρ rs) (w.rename ρ prior) =
      (Routine.resolveMethods rs w).rename ρ prior := by
  cases rs with
  | nil => rfl
  | cons r rest =>
    rw [Routine.renameAll, Routine.resolveMethods, Routine.rename_isInitializer, r.resolve_rename orderly,
      Routine.resolveMethods_rename orderly rest]
    rfl

end

end

theorem Renaming.nameless_orderly : nameless.Orderly := fun _ _ => rfl

theorem Stmt.resolveAll_append (ss more : List Stmt) (w : Walk) :
    Stmt.resolveAll (ss ++ more) w = Stmt.resolveAll more (Stmt.resolveAll ss w) := by
  induction ss generalizing w with
  | nil => rfl
  | cons s rest ih => exact ih (s.resolve w)

theorem Walk.rename_nameless (w : Walk) : (w.rename .nameless .start).faults = w.faults ∧
    (w.rename .nameless .start).warnings = w.warnings := by
  have faults : (w.rename .nameless .start).faults = #[] ++ w.faults.map id := rfl
  have warnings : (w.rename .nameless .start).warnings = #[] ++ w.warnings.map id := rfl
  rw [faults, warnings, Array.map_id, Array.map_id, Array.empty_append, Array.empty_append]
  exact ⟨rfl, rfl⟩

end ScopeScript
