import ScopeScript.Scoping.Resolve
import ScopeScript.Proofs.Grammar.Cite

namespace ScopeScript

-- What is bound to names has a property, whatever the names are.
theorem Names.put_all {p : α → Prop} {names : Names α} (h : ∀ row ∈ names, p row.2) (name : String) {thing : α}
    (new : p thing) : ∀ row ∈ names.put name thing, p row.2 := by
  induction names with
  | nil => simpa [Names.put] using new
  | cons row rest ih =>
    obtain ⟨other, old⟩ := row
    obtain ⟨first, others⟩ := List.forall_mem_cons.mp h
    unfold Names.put
    split
    · exact List.forall_mem_cons.mpr ⟨new, others⟩
    · exact List.forall_mem_cons.mpr ⟨first, ih others⟩

theorem Names.get?_all {p : α → Prop} {names : Names α} (h : ∀ row ∈ names, p row.2) {name : String} {thing : α}
    (found : names.get? name = some thing) : p thing := by
  induction names with
  | nil => cases found
  | cons row rest ih =>
    rw [Names.get?_cons] at found
    split at found
    · exact Option.some.inj found ▸ h row List.mem_cons_self
    · exact ih (fun row member => h row (List.mem_cons_of_mem _ member)) found

variable {known : Token → Prop}

def Declared.Cites (known : Token → Prop) (entry : Declared) : Prop := ∀ t ∈ entry.token, known t

-- Known tokens are all that a walk declares, blames or warns of.
structure Walk.Cites (known : Token → Prop) (w : Walk) : Prop where
  scopes : ∀ names ∈ w.scopes, ∀ row ∈ names, row.2.Cites known
  faults : ∀ f ∈ w.faults, known f.token
  warnings : ∀ f ∈ w.warnings, known f.token

namespace Walk.Cites

variable {w : Walk}

theorem start : Walk.start.Cites known := ⟨by simp [Walk.start], by simp [Walk.start], by simp [Walk.start]⟩

theorem fault (h : w.Cites known) (cause : StaticCause) {t : Token} (blamed : known t) : (w.fault cause t).Cites known where
  scopes := h.scopes
  faults f member := by
    rcases Array.mem_push.mp member with old | rfl
    · exact h.faults f old
    · exact blamed
  warnings := h.warnings

theorem faultIf (h : w.Cites known) (broken : Prop) [Decidable broken] (cause : StaticCause) {t : Token}
    (blamed : known t) : (if broken then w.fault cause t else w).Cites known := by
  split
  · exact h.fault cause blamed
  · exact h

theorem warn (h : w.Cites known) (cause : WarningCause) {t : Token} (named : known t) : (w.warn cause t).Cites known where
  scopes := h.scopes
  faults := h.faults
  warnings f member := by
    rcases Array.mem_push.mp member with old | rfl
    · exact h.warnings f old
    · exact named

theorem warnAll (h : w.Cites known) (cause : WarningCause) {ts : List Token} (named : ∀ t ∈ ts, known t) :
    (ts.foldl (fun w t => w.warn cause t) w).Cites known := by
  induction ts generalizing w with
  | nil => exact h
  | cons t rest ih =>
    exact ih (h.warn cause (named t List.mem_cons_self)) fun u member => named u (List.mem_cons_of_mem t member)

theorem rescoped (h : w.Cites known) {scopes : List (Names Declared)}
    (all : ∀ names ∈ scopes, ∀ row ∈ names, row.2.Cites known) : Cites known { w with scopes := scopes } :=
  ⟨all, h.faults, h.warnings⟩

theorem enter (h : w.Cites known) {names : Names Declared} (all : ∀ row ∈ names, row.2.Cites known) :
    (w.enter names).Cites known :=
  h.rescoped (List.forall_mem_cons.mpr ⟨all, h.scopes⟩)

theorem leave (h : w.Cites known) : w.leave.Cites known := by
  unfold Walk.leave
  cases given : w.scopes with
  | nil => exact h
  | cons names outer =>
    have all := h.scopes
    rw [given] at all
    obtain ⟨inner, around⟩ := List.forall_mem_cons.mp all
    refine (h.rescoped around).warnAll _ fun t member => ?_
    obtain ⟨row, there, named⟩ := List.mem_filterMap.mp (List.mem_mergeSort.mp member)
    split at named
    · cases named
    · exact inner row there t named

-- The innermost scope gets a new entry for a name.
theorem entered (h : w.Cites known) {names : Names Declared} {outer : List (Names Declared)}
    (given : w.scopes = names :: outer) (name : String) {entry : Declared} (new : entry.Cites known) :
    Cites known { w with scopes := names.put name entry :: outer } := by
  have all := h.scopes
  rw [given] at all
  obtain ⟨inner, around⟩ := List.forall_mem_cons.mp all
  exact h.rescoped (List.forall_mem_cons.mpr ⟨Names.put_all inner name new, around⟩)

theorem declare (h : w.Cites known) {name : Token} (taken : known name) : (w.declare name).Cites known := by
  unfold Walk.declare
  cases given : w.scopes with
  | nil => exact h
  | cons names outer =>
    have new : Declared.Cites known ⟨false, false, some name⟩ := fun t same => Option.some.inj same ▸ taken
    have declared := h.entered given name.lexeme new
    dsimp only
    split
    · exact declared.fault _ taken
    · exact declared

theorem settle (h : w.Cites known) (name : Token) : (w.settle name).Cites known := by
  unfold Walk.settle
  cases given : w.scopes with
  | nil => exact h
  | cons names outer =>
    dsimp only
    cases found : names.get? name.lexeme with
    | none => exact h
    | some entry =>
      have inner : ∀ row ∈ names, row.2.Cites known := h.scopes names (by simp [given])
      have settled : entry.Cites known := Names.get?_all inner found
      exact h.entered given name.lexeme settled

theorem introduce (h : w.Cites known) {name : Token} (taken : known name) : (w.introduce name).Cites known :=
  (h.declare taken).settle name

theorem introduceAll (h : w.Cites known) {names : List Token} (taken : ∀ t ∈ names, known t) :
    (names.foldl Walk.introduce w).Cites known := by
  induction names generalizing w with
  | nil => exact h
  | cons t rest ih =>
    exact ih (h.introduce (taken t List.mem_cons_self)) fun u member => taken u (List.mem_cons_of_mem t member)

theorem findFrom {name : String} {depth : Nat} {scopes changed : List (Names Declared)}
    (all : ∀ names ∈ scopes, ∀ row ∈ names, row.2.Cites known)
    (found : Walk.findFrom name depth scopes = some (out, changed)) :
    ∀ names ∈ changed, ∀ row ∈ names, row.2.Cites known := by
  induction scopes generalizing depth changed with
  | nil => cases found
  | cons names outer ih =>
    obtain ⟨inner, around⟩ := List.forall_mem_cons.mp all
    unfold Walk.findFrom at found
    cases entry : names.get? name with
    | some declared =>
      rw [entry] at found
      cases found
      have used : declared.Cites known := Names.get?_all inner entry
      exact List.forall_mem_cons.mpr ⟨Names.put_all inner name used, around⟩
    | none =>
      rw [entry] at found
      obtain ⟨⟨further, rest⟩, later, same⟩ := Option.map_eq_some_iff.mp found
      cases same
      exact List.forall_mem_cons.mpr ⟨inner, ih around later⟩

theorem refer (h : w.Cites known) (i : RefId) (name : Token) : (w.refer i name).Cites known := by
  unfold Walk.refer
  split
  · exact ⟨findFrom h.scopes ‹_›, h.faults, h.warnings⟩
  · exact ⟨h.scopes, h.faults, h.warnings⟩

theorem enterRoutine (h : w.Cites known) (kind : BodyKind) {parameters : List Token} (taken : ∀ t ∈ parameters, known t) :
    (w.enterRoutine kind parameters).Cites known := by
  have inside : Cites known { w with body := kind, loops := 0 } := ⟨h.scopes, h.faults, h.warnings⟩
  exact (inside.enter fun _ absent => absurd absent List.not_mem_nil).introduceAll taken

theorem leaveRoutine (h : w.Cites known) (kind : BodyKind) (loops : Nat) : (w.leaveRoutine kind loops).Cites known :=
  ⟨h.leave.scopes, h.leave.faults, h.leave.warnings⟩

theorem flagUnreachable (h : w.Cites known) {ss : List Stmt} (cites : Stmt.CitesAll known ss) :
    (w.flagUnreachable ss).Cites known := by
  induction ss generalizing w with
  | nil => exact h
  | cons s rest ih =>
    cases rest with
    | nil => cases s <;> exact h
    | cons next more =>
      cases s with
      | giveBack keyword value =>
        have taken : known keyword := by
          have first := cites.1
          cases value with
          | none => exact first
          | some e => exact first.1
        exact ih (h.warn _ taken) cites.2
      | _ => exact ih h cites.2

end Walk.Cites

-- Walking over a tree of known tokens keeps to known tokens.
mutual

theorem Expr.resolve_cites {e : Expr} (cites : e.Cites known) {w : Walk} (h : w.Cites known) : (e.resolve w).Cites known := by
  cases e with
  | literal value => exact h
  | grouping inner => exact Expr.resolve_cites (e := inner) cites h
  | unary operator operand => exact Expr.resolve_cites cites.2 h
  | binary left operator right => exact Expr.resolve_cites cites.2.2 (Expr.resolve_cites cites.1 h)
  | logical left operator right => exact Expr.resolve_cites cites.2.2 (Expr.resolve_cites cites.1 h)
  | assign i name value => exact (Expr.resolve_cites cites.2 h).refer i name
  | call callee close arguments => exact Expr.resolveAll_cites cites.2.2 (Expr.resolve_cites cites.1 h)
  | lambda routine => exact Routine.resolve_cites (r := routine) cites .lambda h
  | get object name => exact Expr.resolve_cites cites.1 h
  | set object name value => exact Expr.resolve_cites cites.2 (Expr.resolve_cites cites.1.1 h)
  | this i keyword =>
    unfold Expr.resolve
    split
    · exact h.refer i keyword
    · exact h.fault _ cites
  | _ i name => exact (h.faultIf _ _ cites).refer i name

theorem Expr.resolveAll_cites {es : List Expr} (cites : Expr.CitesAll known es) {w : Walk} (h : w.Cites known) :
    (Expr.resolveAll es w).Cites known := by
  cases es with
  | nil => exact h
  | cons e rest => exact Expr.resolveAll_cites cites.2 (Expr.resolve_cites cites.1 h)

theorem Stmt.resolve_cites {s : Stmt} (cites : s.Cites known) {w : Walk} (h : w.Cites known) : (s.resolve w).Cites known := by
  cases s with
  | expression value => exact Expr.resolve_cites (e := value) cites h
  | print keyword value => exact Expr.resolve_cites cites.2 h
  | var name initial =>
    cases initial with
    | none => exact h.introduce cites
    | some e => exact (Expr.resolve_cites cites.2 (h.declare cites.1)).settle name
  | block body =>
    have inner : Stmt.CitesAll known body := cites
    exact (Stmt.resolveAll_cites inner (h.enter fun _ absent => absurd absent List.not_mem_nil)).leave
  | branch condition yes no =>
    cases no with
    | none => exact Stmt.resolve_cites cites.2 (Expr.resolve_cites cites.1 h)
    | some no => exact Stmt.resolve_cites cites.2.2 (Stmt.resolve_cites cites.2.1 (Expr.resolve_cites cites.1 h))
  | loop condition body =>
    have inside : Walk.Cites known { w with loops := w.loops + 1 } := ⟨h.scopes, h.faults, h.warnings⟩
    have after := Stmt.resolve_cites cites.2 (Expr.resolve_cites cites.1 inside)
    exact ⟨after.scopes, after.faults, after.warnings⟩
  | leave keyword => exact h.faultIf _ _ cites
  | function routine =>
    have taken : known routine.head := by
      cases routine with
      | mk head parameters body => exact cites.1
    exact Routine.resolve_cites (r := routine) cites .function (h.introduce taken)
  | giveBack keyword value =>
    cases value with
    | none => exact h.faultIf _ _ cites
    | some e => exact Expr.resolve_cites cites.2 ((h.faultIf _ _ cites.1).faultIf _ _ cites.1)
  | classes name methods =>
    have named := h.introduce cites.1
    have inside : Walk.Cites known { w.introduce name with inClass := true } := ⟨named.scopes, named.faults, named.warnings⟩
    have receiver : ∀ row ∈ ([(receiverName, ⟨true, true, none⟩)] : Names Declared), row.2.Cites known := by
      simp [Declared.Cites]
    have after := (Routine.resolveMethods_cites cites.2 (inside.enter receiver)).leave
    exact ⟨after.scopes, after.faults, after.warnings⟩

theorem Stmt.resolveAll_cites {ss : List Stmt} (cites : Stmt.CitesAll known ss) {w : Walk} (h : w.Cites known) :
    (Stmt.resolveAll ss w).Cites known := by
  cases ss with
  | nil => exact h
  | cons s rest => exact Stmt.resolveAll_cites cites.2 (Stmt.resolve_cites cites.1 h)

theorem Routine.resolve_cites {r : Routine} (cites : r.Cites known) (kind : BodyKind) {w : Walk} (h : w.Cites known) :
    (r.resolve kind w).Cites known := by
  cases r with
  | mk head parameters body =>
    have inside := Stmt.resolveAll_cites cites.2.2 (h.enterRoutine kind cites.2.1)
    exact (inside.flagUnreachable cites.2.2).leaveRoutine w.body w.loops

theorem Routine.resolveMethods_cites {rs : List Routine} (cites : Routine.CitesAll known rs) {w : Walk}
    (h : w.Cites known) : (Routine.resolveMethods rs w).Cites known := by
  cases rs with
  | nil => exact h
  | cons r rest => exact Routine.resolveMethods_cites cites.2 (Routine.resolve_cites cites.1 _ h)

end

theorem resolveProgram_cites {program : List Stmt} (cites : Stmt.CitesAll known program) :
    (∀ f ∈ (resolveProgram program).faults, known f.token) ∧
      ∀ f ∈ (resolveProgram program).warnings, known f.token := by
  have walked := Stmt.resolveAll_cites cites Walk.Cites.start
  refine ⟨fun f member => walked.faults f (Array.mem_toList_iff.mp member), fun f member => ?_⟩
  exact walked.warnings f (Array.mem_toList_iff.mp (List.mem_mergeSort.mp member))

end ScopeScript
