import ScopeScript.Proofs.Grammar.Order

namespace ScopeScript

-- The body of a conditional or a loop is a statement of its own and adds no name to the scope around.
mutual

def Expr.Formed : Expr → Prop
  | .literal _ => True
  | .grouping inner => inner.Formed
  | .unary _ operand => operand.Formed
  | .binary left _ right => left.Formed ∧ right.Formed
  | .logical left _ right => left.Formed ∧ right.Formed
  | .variable _ _ => True
  | .assign _ _ value => value.Formed
  | .call callee _ arguments => callee.Formed ∧ Expr.FormedAll arguments
  | .lambda routine => routine.Formed
  | .get object _ => object.Formed
  | .set object _ value => object.Formed ∧ value.Formed
  | .this _ _ => True

def Expr.FormedAll : List Expr → Prop
  | [] => True
  | e :: rest => e.Formed ∧ Expr.FormedAll rest

def Stmt.Formed : Stmt → Prop
  | .expression value => value.Formed
  | .print _ value => value.Formed
  | .var _ none => True
  | .var _ (some initial) => initial.Formed
  | .block body => Stmt.FormedAll body
  | .branch condition yes none => condition.Formed ∧ yes.Formed ∧ yes.declares = []
  | .branch condition yes (some no) =>
    condition.Formed ∧ (yes.Formed ∧ yes.declares = []) ∧ no.Formed ∧ no.declares = []
  | .loop condition body => condition.Formed ∧ body.Formed ∧ body.declares = []
  | .leave _ => True
  | .function routine => routine.Formed
  | .giveBack _ none => True
  | .giveBack _ (some value) => value.Formed
  | .classes _ methods => Routine.FormedAll methods

def Stmt.FormedAll : List Stmt → Prop
  | [] => True
  | s :: rest => s.Formed ∧ Stmt.FormedAll rest

def Routine.Formed : Routine → Prop
  | .mk _ _ body => Stmt.FormedAll body

def Routine.FormedAll : List Routine → Prop
  | [] => True
  | r :: rest => r.Formed ∧ Routine.FormedAll rest

end

-- Code in the order of a source is formed.
mutual

theorem Expr.Ordered.formed {e : Expr} (h : e.Ordered) : e.Formed := by
  cases e with
  | grouping inner => exact Expr.Ordered.formed (e := inner) h
  | unary operator operand => exact Expr.Ordered.formed (e := operand) h
  | binary left operator right => exact ⟨Expr.Ordered.formed h.1, Expr.Ordered.formed h.2⟩
  | logical left operator right => exact ⟨Expr.Ordered.formed h.1, Expr.Ordered.formed h.2⟩
  | assign i name value => exact Expr.Ordered.formed (e := value) h
  | call callee close arguments => exact ⟨Expr.Ordered.formed h.1, Expr.OrderedAll.formed h.2⟩
  | lambda routine => exact Routine.Ordered.formed (r := routine) h
  | get object name => exact Expr.Ordered.formed (e := object) h
  | set object name value => exact ⟨Expr.Ordered.formed h.1, Expr.Ordered.formed h.2⟩
  | _ => trivial

theorem Expr.OrderedAll.formed {es : List Expr} (h : Expr.OrderedAll es) : Expr.FormedAll es := by
  cases es with
  | nil => trivial
  | cons e rest => exact ⟨Expr.Ordered.formed h.1, Expr.OrderedAll.formed h.2⟩

theorem Stmt.Ordered.formed {s : Stmt} (h : s.Ordered) : s.Formed := by
  cases s with
  | expression value => exact Expr.Ordered.formed (e := value) h
  | print keyword value => exact Expr.Ordered.formed (e := value) h
  | var name initial =>
    cases initial with
    | none => trivial
    | some e => exact Expr.Ordered.formed h.1
  | block body =>
    have inside : Stmt.OrderedAll body := h
    exact inside.formed
  | branch condition yes no =>
    cases no with
    | none => exact ⟨Expr.Ordered.formed h.1, Stmt.Ordered.formed h.2.1, h.2.2⟩
    | some no =>
      obtain ⟨test, ⟨inner, nothing⟩, other, nothing'⟩ := h
      exact ⟨Expr.Ordered.formed test, ⟨Stmt.Ordered.formed inner, nothing⟩, Stmt.Ordered.formed other, nothing'⟩
  | loop condition body => exact ⟨Expr.Ordered.formed h.1, Stmt.Ordered.formed h.2.1, h.2.2⟩
  | leave keyword => trivial
  | function routine => exact Routine.Ordered.formed h.1
  | giveBack keyword value =>
    cases value with
    | none => trivial
    | some e => exact Expr.Ordered.formed (e := e) h
  | classes name methods => exact Routine.OrderedAll.formed h.1

theorem Stmt.OrderedAll.formed {ss : List Stmt} (h : Stmt.OrderedAll ss) : Stmt.FormedAll ss := by
  cases ss with
  | nil => trivial
  | cons s rest => exact ⟨Stmt.Ordered.formed h.1.1, Stmt.OrderedAll.formed h.1.2⟩

theorem Routine.Ordered.formed {r : Routine} (h : r.Ordered) : r.Formed := by
  cases r with
  | mk head parameters body => exact Stmt.OrderedAll.formed h.1

theorem Routine.OrderedAll.formed {rs : List Routine} (h : Routine.OrderedAll rs) : Routine.FormedAll rs := by
  cases rs with
  | nil => trivial
  | cons r rest => exact ⟨Routine.Ordered.formed h.1, Routine.OrderedAll.formed h.2⟩

end

def Phrase.Formed : Phrase → Prop
  | .declarations ss => Stmt.FormedAll ss
  | .declaration s => s.Formed
  | .functions rs => Routine.FormedAll rs
  | .function r => r.Formed
  | .routine r => r.Formed
  | .parameters _ => True
  | .names _ => True
  | .variable s => s.Formed
  | .statement _ s => s.Formed ∧ s.declares = []
  | .sentence s => s.Formed ∧ s.declares = []
  | .firstClause o => ∀ s ∈ o, s.Formed
  | .optional o => ∀ e ∈ o, e.Formed
  | .expression e => e.Formed
  | .rank _ e => e.Formed
  | .further _ before after => before.Formed → after.Formed
  | .unary e => e.Formed
  | .call e => e.Formed
  | .suffixes before after => before.Formed → after.Formed
  | .values es => Expr.FormedAll es
  | .expressions es => Expr.FormedAll es
  | .primary e => e.Formed

theorem Phrase.formed_operand (k : Rank) (e : Expr) : (Phrase.operand k e).Formed ↔ e.Formed := by
  cases k <;> rfl

theorem Rank.node_formed (k : Rank) (left : Expr) (operator : Token) (right : Expr) :
    (k.node left operator right).Formed ↔ left.Formed ∧ right.Formed := by
  cases k <;> rfl

theorem spelledLoop_formed {initial : Option Stmt} {condition step : Option Expr} {body : Stmt}
    (first : (Phrase.firstClause initial).Formed) (test : (Phrase.optional condition).Formed)
    (last : (Phrase.optional step).Formed) (inner : body.Formed ∧ body.declares = []) :
    (spelledLoop initial condition step body).Formed ∧ (spelledLoop initial condition step body).declares = [] := by
  have asked : (condition.getD (.literal .true)).Formed := by
    cases condition with
    | none => exact trivial
    | some e => exact test e rfl
  cases initial <;> cases step <;>
    simp_all [Phrase.Formed, spelledLoop, Stmt.Formed, Stmt.FormedAll, Stmt.declares]

-- The grammar derives formed trees only.
theorem Derives.formed (h : Derives p w) : p.Formed := by
  induction h with
  | forStatement _ _ _ _ _ _ _ _ ihFirst ihTest ihLast ihInner =>
    exact spelledLoop_formed ihFirst ihTest ihLast ihInner
  | rank _ _ ihFirst ihOthers => exact ihOthers ((Phrase.formed_operand _ _).mp ihFirst)
  | further _ _ _ ihNext ihOthers =>
    exact fun before => ihOthers ((Rank.node_formed ..).mpr ⟨before, (Phrase.formed_operand _ _).mp ihNext⟩)
  | @returnStatement o _ _ _ _ _ _ ihInner =>
    cases o with
    | none => exact ⟨trivial, rfl⟩
    | some e => exact ⟨ihInner e rfl, rfl⟩
  -- Every other phrase puts its parts together, and a statement among them declares nothing.
  | _ =>
    simp_all [Phrase.Formed, Stmt.Formed, Stmt.FormedAll, Stmt.declares, Expr.Formed, Expr.FormedAll, Routine.Formed,
      Routine.FormedAll]

end ScopeScript
