import ScopeScript.Proofs.Grammar.Phrase
import ScopeScript.Proofs.Scoping.Setting

namespace ScopeScript

-- The code right inside other code, wherever that stands.
def Code.parts (code : Code) : List Code := (Spot.parts ⟨.outermost, code⟩).map (·.code)

theorem Spot.parts_code (S : Spot) : S.parts.map (·.code) = S.code.parts := by
  obtain ⟨σ, code⟩ := S
  cases code with
  | expr e => simp [Code.parts, Spot.parts, Function.comp_def]
  | stmt s =>
    cases s with
    | var name initial | giveBack name initial => cases initial <;> rfl
    | branch condition yes no => cases no <;> rfl
    | classes name methods => simp [Code.parts, Spot.parts, Stmt.parts, Function.comp_def]
    | _ => rfl
  | stmts ss => cases ss <;> rfl
  | routine kind r => rfl

-- Something holds of code and of all code inside it.
inductive Code.Throughout (P : Code → Prop) : Code → Prop where
  | intro {code : Code} (here : P code) (inner : ∀ part ∈ code.parts, Throughout P part) : Throughout P code

namespace Code

variable {P : Code → Prop}

theorem Throughout.here {code : Code} (h : code.Throughout P) : P code := by
  cases h with
  | intro here _ => exact here

theorem Throughout.inner {code : Code} (h : code.Throughout P) : ∀ part ∈ code.parts, part.Throughout P := by
  cases h with
  | intro _ inner => exact inner

theorem Throughout.within {root S : Spot} (h : root.code.Throughout P) (inside : root.Within S) :
    S.code.Throughout P := by
  induction inside with
  | root => exact h
  | part _ member ih => exact ih.inner _ (Spot.parts_code _ ▸ List.mem_map_of_mem member)

theorem Throughout.expr {e : Expr} (here : P (.expr e)) (inner : ∀ part ∈ e.parts, part.Throughout P) :
    (Code.expr e).Throughout P := .intro here (by simpa [parts, Spot.parts] using inner)

theorem Throughout.stmt {s : Stmt} (here : P (.stmt s)) (inner : ∀ T ∈ s.parts .outermost, T.code.Throughout P) :
    (Code.stmt s).Throughout P := .intro here (by simpa [parts, Spot.parts] using inner)

theorem Throughout.leaf {code : Code} (here : P code) (bare : code.parts = []) : code.Throughout P :=
  .intro here fun _ member => absurd (bare ▸ member) List.not_mem_nil

theorem Throughout.cons {s : Stmt} {rest : List Stmt} (here : P (.stmts (s :: rest))) (first : (Code.stmt s).Throughout P)
    (others : (Code.stmts rest).Throughout P) : (Code.stmts (s :: rest)).Throughout P :=
  .intro here (by simp [parts, Spot.parts, first, others])

theorem Throughout.routine {kind : BodyKind} {r : Routine} (here : P (.routine kind r))
    (inner : (Code.stmts r.body).Throughout P) : (Code.routine kind r).Throughout P :=
  .intro here (by simp [parts, Spot.parts, inner])

end Code

def unaryOperators : List TokenKind := [.mark .bang, .mark .minus]

def binaryOperators : List TokenKind :=
  [.mark .minus, .mark .plus, .mark .slash, .mark .star, .mark .bangEqual, .mark .equalEqual,
    .mark .greater, .mark .greaterEqual, .mark .less, .mark .lessEqual]

def logicalOperators : List TokenKind := [.keyword .andWord, .keyword .orWord]

-- Operators are of the kind that their node needs, names are identifiers, and lists that a call
-- pairs up are short.
def Expr.Apt : Expr → Prop
  | .unary operator _ => operator.kind ∈ unaryOperators
  | .binary _ operator _ => operator.kind ∈ binaryOperators
  | .logical _ operator _ => operator.kind ∈ logicalOperators
  | .variable _ name => name.kind = .identifier
  | .assign _ name _ => name.kind = .identifier
  | .call _ _ arguments => arguments.length ≤ 255
  | .get _ name => name.kind = .identifier
  | .set _ name _ => name.kind = .identifier
  | _ => True

def Stmt.Apt : Stmt → Prop
  | .var name _ => name.kind = .identifier
  | .classes name _ => name.kind = .identifier
  | _ => True

-- The head of a lambda is no name.
structure Routine.Apt (kind : BodyKind) (r : Routine) : Prop where
  head : kind ≠ .lambda → r.head.kind = .identifier
  parameters : ∀ t ∈ r.parameters, t.kind = .identifier
  few : r.parameters.length ≤ 255

def Code.Apt : Code → Prop
  | .expr e => e.Apt
  | .stmt s => s.Apt
  | .stmts _ => True
  | .routine kind r => r.Apt kind

def Phrase.Apt : Phrase → Prop
  | .declarations ss => (Code.stmts ss).Throughout Code.Apt
  | .declaration s => (Code.stmt s).Throughout Code.Apt
  | .functions rs => ∀ r ∈ rs, ∀ kind, (Code.routine kind r).Throughout Code.Apt
  | .function r => ∀ kind, (Code.routine kind r).Throughout Code.Apt
  | .routine r => r.Apt .lambda ∧ (Code.stmts r.body).Throughout Code.Apt
  | .parameters ps => (∀ t ∈ ps, t.kind = .identifier) ∧ ps.length ≤ 255
  | .names ps => ∀ t ∈ ps, t.kind = .identifier
  | .variable s => (Code.stmt s).Throughout Code.Apt
  | .statement _ s => (Code.stmt s).Throughout Code.Apt
  | .sentence s => (Code.stmt s).Throughout Code.Apt
  | .firstClause o => ∀ s ∈ o, (Code.stmt s).Throughout Code.Apt
  | .optional o => ∀ e ∈ o, (Code.expr e).Throughout Code.Apt
  | .expression e => (Code.expr e).Throughout Code.Apt
  | .rank _ e => (Code.expr e).Throughout Code.Apt
  | .further _ before after => (Code.expr before).Throughout Code.Apt → (Code.expr after).Throughout Code.Apt
  | .unary e => (Code.expr e).Throughout Code.Apt
  | .call e => (Code.expr e).Throughout Code.Apt
  | .suffixes before after => (Code.expr before).Throughout Code.Apt → (Code.expr after).Throughout Code.Apt
  | .values es => es.length ≤ 255 ∧ ∀ e ∈ es, (Code.expr e).Throughout Code.Apt
  | .expressions es => ∀ e ∈ es, (Code.expr e).Throughout Code.Apt
  | .primary e => (Code.expr e).Throughout Code.Apt

theorem Phrase.apt_operand (k : Rank) (e : Expr) :
    (Phrase.operand k e).Apt ↔ (Code.expr e).Throughout Code.Apt := by
  cases k <;> rfl

theorem Rank.node_apt {k : Rank} {left right : Expr} {operator : Token} (spelled : operator.kind ∈ k.operators)
    (before : (Code.expr left).Throughout Code.Apt) (next : (Code.expr right).Throughout Code.Apt) :
    (Code.expr (k.node left operator right)).Throughout Code.Apt := by
  have inner : ∀ part ∈ [Code.expr left, .expr right], part.Throughout Code.Apt := by simp [before, next]
  have weak : ∀ kinds : List TokenKind, k.operators ⊆ kinds → operator.kind ∈ kinds := fun _ sub => sub spelled
  cases k with
  | disjunction | conjunction => exact .expr (weak logicalOperators (by simp [operators, logicalOperators])) inner
  | equality | comparison | sum | product =>
    exact .expr (weak binaryOperators (by simp [operators, binaryOperators])) inner

theorem spelledLoop_apt {initial : Option Stmt} {condition step : Option Expr} {body : Stmt}
    (first : (Phrase.firstClause initial).Apt) (test : (Phrase.optional condition).Apt)
    (last : (Phrase.optional step).Apt) (inner : (Code.stmt body).Throughout Code.Apt) :
    (Code.stmt (spelledLoop initial condition step body)).Throughout Code.Apt := by
  have asked : (Code.expr (condition.getD (.literal .true))).Throughout Code.Apt := by
    cases condition with
    | none => exact .leaf trivial rfl
    | some e => exact test e rfl
  have turn : ∀ {s : Stmt}, (Code.stmt s).Throughout Code.Apt →
      (Code.stmt (.loop (condition.getD (.literal .true)) s)).Throughout Code.Apt := fun inside =>
    .stmt trivial (by simp [Stmt.parts, asked, inside])
  have pair : ∀ {s t : Stmt}, (Code.stmt s).Throughout Code.Apt → (Code.stmt t).Throughout Code.Apt →
      (Code.stmt (.block [s, t])).Throughout Code.Apt := fun one two =>
    .stmt trivial (by simpa [Stmt.parts] using .cons trivial one (.cons trivial two (.leaf trivial rfl)))
  have stepped : ∀ e ∈ step, (Code.stmt (.block [body, .expression e])).Throughout Code.Apt := fun e given =>
    pair inner (.stmt trivial (by simpa [Stmt.parts] using last e given))
  cases initial with
  | none =>
    cases step with
    | none => exact turn inner
    | some e => exact turn (stepped e rfl)
  | some s =>
    cases step with
    | none => exact pair (first s rfl) (turn inner)
    | some e => exact pair (first s rfl) (turn (stepped e rfl))

theorem Derives.apt (h : Derives p w) : p.Apt := by
  induction h with
  | noDeclarations => exact .leaf trivial rfl
  | declarations _ _ ihFirst ihOthers => exact .cons trivial ihFirst ihOthers
  | classes _ named _ _ _ ih => exact .stmt named (by simpa [Stmt.parts] using fun r inside => ih r inside _)
  | functionDeclaration _ _ ih => exact .stmt trivial (List.forall_mem_singleton.mpr (ih _))
  | function named _ ih => exact fun kind => .routine ⟨fun _ => named, ih.1.parameters, ih.1.few⟩ ih.2
  | routine _ _ _ _ _ _ ihNames ihInner => exact ⟨⟨fun other => absurd rfl other, ihNames.1, ihNames.2⟩, ihInner⟩
  | plainVariable named => exact .leaf named rfl
  | filledVariable named _ _ _ ih => exact .stmt named (List.forall_mem_singleton.mpr ih)
  | forStatement _ _ _ _ _ _ _ _ ihFirst ihTest ihLast ihInner =>
    exact spelledLoop_apt ihFirst ihTest ihLast ihInner
  | ifStatement _ _ _ _ _ ihTest ihInner => exact .stmt trivial (by simp_all [Phrase.Apt, Stmt.parts])
  | ifElseStatement _ _ _ _ _ _ _ ihTest ihInner ihOther => exact .stmt trivial (by simp_all [Phrase.Apt, Stmt.parts])
  | whileStatement _ _ _ _ _ ihTest ihInner => exact .stmt trivial (by simp_all [Phrase.Apt, Stmt.parts])
  | printStatement _ _ _ ih => exact .stmt trivial (List.forall_mem_singleton.mpr ih)
  | @returnStatement o _ _ _ _ _ _ ih =>
    cases o with
    | none => exact .leaf trivial rfl
    | some e => exact .stmt trivial (List.forall_mem_singleton.mpr (ih e rfl))
  | breakStatement => exact .leaf trivial rfl
  | blockStatement _ _ _ ih => exact .stmt trivial (List.forall_mem_singleton.mpr ih)
  | sentence _ _ ih => exact .stmt trivial (List.forall_mem_singleton.mpr ih)
  | assignVariable named _ _ ih => exact .expr named (List.forall_mem_singleton.mpr ih)
  | assignProperty _ _ named _ _ ihTarget ihValue => exact .expr named (by simp_all [Phrase.Apt, Expr.parts])
  | rank _ _ ihFirst ihOthers => exact ihOthers ((Phrase.apt_operand _ _).mp ihFirst)
  | further spelled _ _ ihNext ihOthers =>
    exact fun before => ihOthers (Rank.node_apt spelled before ((Phrase.apt_operand _ _).mp ihNext))
  | unary spelled _ ih => exact .expr spelled (List.forall_mem_singleton.mpr ih)
  | callSuffix _ _ _ _ ihInner ihOthers =>
    exact fun before => ihOthers (.expr ihInner.1 (by simpa [Expr.parts] using ⟨before, ihInner.2⟩))
  | getSuffix _ named _ ih => exact fun before => ih (.expr named (List.forall_mem_singleton.mpr before))
  | number | string | true | false | nil | this => exact .leaf trivial rfl
  | name named => exact .leaf named rfl
  | grouping _ _ _ ih => exact .expr trivial (List.forall_mem_singleton.mpr ih)
  | lambda _ _ ih => exact .expr trivial (List.forall_mem_singleton.mpr (.routine ih.1 ih.2))
  -- Every other phrase builds no node of its own.
  | _ => simp_all [Phrase.Apt]

end ScopeScript
