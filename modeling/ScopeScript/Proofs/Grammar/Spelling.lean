import ScopeScript.Proofs.Grammar.Order
import ScopeScript.Proofs.Lexis.Cut

namespace ScopeScript

-- A name that may be declared or assigned to. The receiver's is reserved.
def Token.Free (t : Token) : Prop := t.lexeme ≠ receiverName

theorem Token.Spelled.free {t : Token} (h : t.Spelled) (named : t.kind = .identifier) : t.Free := by
  intro same
  have keyword := (h .thisWord).mpr same
  rw [named] at keyword
  cases keyword

theorem Token.Spelled.receiver {t : Token} (h : t.Spelled) (spelled : t.kind = .keyword .thisWord) :
    t.lexeme = receiverName := (h .thisWord).mp spelled

-- Only the keyword stands for the receiver: it is never declared, looked up or assigned to as a name.
mutual

def Expr.Spelled : Expr → Prop
  | .literal _ => True
  | .grouping inner => inner.Spelled
  | .unary _ operand => operand.Spelled
  | .binary left _ right => left.Spelled ∧ right.Spelled
  | .logical left _ right => left.Spelled ∧ right.Spelled
  | .variable _ name => name.Free
  | .assign _ name value => name.Free ∧ value.Spelled
  | .call callee _ arguments => callee.Spelled ∧ Expr.SpelledAll arguments
  | .lambda routine => routine.Spelled
  | .get object _ => object.Spelled
  | .set object _ value => object.Spelled ∧ value.Spelled
  | .this _ keyword => keyword.lexeme = receiverName

def Expr.SpelledAll : List Expr → Prop
  | [] => True
  | e :: rest => e.Spelled ∧ Expr.SpelledAll rest

def Stmt.Spelled : Stmt → Prop
  | .expression value => value.Spelled
  | .print _ value => value.Spelled
  | .var name none => name.Free
  | .var name (some initial) => name.Free ∧ initial.Spelled
  | .block body => Stmt.SpelledAll body
  | .branch condition yes none => condition.Spelled ∧ yes.Spelled
  | .branch condition yes (some no) => condition.Spelled ∧ yes.Spelled ∧ no.Spelled
  | .loop condition body => condition.Spelled ∧ body.Spelled
  | .leave _ => True
  | .function routine => routine.head.Free ∧ routine.Spelled
  | .giveBack _ none => True
  | .giveBack _ (some value) => value.Spelled
  | .classes name methods => name.Free ∧ Routine.SpelledAll methods

def Stmt.SpelledAll : List Stmt → Prop
  | [] => True
  | s :: rest => s.Spelled ∧ Stmt.SpelledAll rest

def Routine.Spelled : Routine → Prop
  | .mk _ parameters body => (∀ t ∈ parameters, t.Free) ∧ Stmt.SpelledAll body

def Routine.SpelledAll : List Routine → Prop
  | [] => True
  | r :: rest => r.Spelled ∧ Routine.SpelledAll rest

end

theorem Expr.spelledAll_iff (es : List Expr) : Expr.SpelledAll es ↔ ∀ e ∈ es, e.Spelled := by
  induction es with
  | nil => simp [Expr.SpelledAll]
  | cons e rest ih => simp [Expr.SpelledAll, ih]

theorem Routine.spelledAll_iff (rs : List Routine) : Routine.SpelledAll rs ↔ ∀ r ∈ rs, r.Spelled := by
  induction rs with
  | nil => simp [Routine.SpelledAll]
  | cons r rest ih => simp [Routine.SpelledAll, ih]

def Phrase.Spelled : Phrase → Prop
  | .declarations ss => Stmt.SpelledAll ss
  | .declaration s => s.Spelled
  | .functions rs => Routine.SpelledAll rs
  | .function r => r.head.Free ∧ r.Spelled
  | .routine r => r.Spelled
  | .parameters ps => ∀ t ∈ ps, t.Free
  | .names ps => ∀ t ∈ ps, t.Free
  | .variable s => s.Spelled
  | .statement _ s => s.Spelled
  | .sentence s => s.Spelled
  | .firstClause o => ∀ s ∈ o, s.Spelled
  | .optional o => ∀ e ∈ o, e.Spelled
  | .expression e => e.Spelled
  | .rank _ e => e.Spelled
  | .further _ before after => before.Spelled → after.Spelled
  | .unary e => e.Spelled
  | .call e => e.Spelled
  | .suffixes before after => before.Spelled → after.Spelled
  | .values es => Expr.SpelledAll es
  | .expressions es => Expr.SpelledAll es
  | .primary e => e.Spelled

theorem Phrase.spelled_operand (k : Rank) (e : Expr) : (Phrase.operand k e).Spelled ↔ e.Spelled := by
  cases k <;> rfl

theorem Rank.node_spelled (k : Rank) (left : Expr) (operator : Token) (right : Expr) :
    (k.node left operator right).Spelled ↔ left.Spelled ∧ right.Spelled := by
  cases k <;> rfl

theorem spelledLoop_spelled {initial : Option Stmt} {condition step : Option Expr} {body : Stmt}
    (first : (Phrase.firstClause initial).Spelled) (test : (Phrase.optional condition).Spelled)
    (last : (Phrase.optional step).Spelled) (inner : body.Spelled) :
    (spelledLoop initial condition step body).Spelled := by
  have asked : (condition.getD (.literal .true)).Spelled := by
    cases condition with
    | none => exact trivial
    | some e => exact test e rfl
  cases initial <;> cases step <;> simp_all [Phrase.Spelled, spelledLoop, Stmt.Spelled, Stmt.SpelledAll]

theorem Derives.spelled (h : Derives p w) : (∀ t ∈ w, t.Spelled) → p.Spelled := by
  induction h with
  | forStatement opening left first test stop last right inner ihFirst ihTest ihLast ihInner =>
    intro spelled
    exact spelledLoop_spelled (ihFirst fun t member => spelled t (by simp [member]))
      (ihTest fun t member => spelled t (by simp [member]))
      (ihLast fun t member => spelled t (by simp [member]))
      (ihInner fun t member => spelled t (by simp [member]))
  | rank first others ihFirst ihOthers =>
    intro spelled
    have operand := ihFirst fun t member => spelled t (by simp [member])
    exact ihOthers (fun t member => spelled t (by simp [member])) ((Phrase.spelled_operand _ _).mp operand)
  | further operator next others ihNext ihOthers =>
    intro spelled before
    have operand := ihNext fun t member => spelled t (by simp [member])
    exact ihOthers (fun t member => spelled t (by simp [member]))
      ((Rank.node_spelled ..).mpr ⟨before, (Phrase.spelled_operand _ _).mp operand⟩)
  | @returnStatement o w _ _ opening inner stop ihInner =>
    intro spelled
    cases o with
    | none => exact trivial
    | some e => exact ihInner (fun t member => spelled t (by simp [member])) e rfl
  | this spelled => exact fun each => (each _ List.mem_cons_self).receiver spelled
  | name named => exact fun each => (each _ List.mem_cons_self).free named
  -- Every other phrase adds nothing but names to its parts, and names are identifiers.
  | _ =>
    intro spelled
    simp_all [Phrase.Spelled, Stmt.Spelled, Stmt.SpelledAll, Expr.Spelled, Expr.SpelledAll, Routine.Spelled,
      Routine.SpelledAll, Routine.head, Token.Spelled.free, or_imp, forall_and]

end ScopeScript
