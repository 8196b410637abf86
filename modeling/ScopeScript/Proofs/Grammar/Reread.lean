import ScopeScript.Proofs.Grammar.Form
import ScopeScript.Proofs.Grammar.Rename
import ScopeScript.Proofs.Grammar.Unparse
import ScopeScript.Proofs.Lexis.Cut
import ScopeScript.Proofs.Scoping.Gather

namespace ScopeScript

-- Outlines read back as trees without ids and places, numbers by whatever tells them apart.

def wordToken (w : String) : Token :=
  match Keyword.ofSpelling? w.toList with
  | some k => k.token
  | none =>
    match Mark.all.find? fun m => m.spelling == w with
    | some m => m.token
    | none => ⟨.identifier, w, .start⟩

-- No other word begins like a number.
def opensNumber (w : String) : Bool := w.toList.head?.any fun c => c.isDigit || c == '-'

def Expr.ofWord (numeral : String → Float) (w : String) : Expr :=
  if opensNumber w then .literal (.number (numeral w))
  else
    match (wordToken w).kind with
    | .keyword .trueWord => .literal .true
    | .keyword .falseWord => .literal .false
    | .keyword .nilWord => .literal .nil
    | .keyword .thisWord => .this 0 (wordToken w)
    | _ => .variable 0 (wordToken w)

def Expr.ofOperator (operator : Token) (left right : Expr) : Expr :=
  match operator.kind with
  | .keyword _ => .logical left operator right
  | _ => .binary left operator right

def Form.names? : List Form → Option (List Token)
  | [] => some []
  | .word w :: rest => (Form.names? rest).map (wordToken w :: ·)
  | .list _ :: _ => none

mutual

@[simp] def Form.expr? (numeral : String → Float) : Form → Option Expr
  | .word w => some (.ofWord numeral w)
  | .list [.word "group", inner] => return .grouping (← inner.expr? numeral)
  | .list [.word "=", .word name, value] => return .assign 0 (wordToken name) (← value.expr? numeral)
  | .list [.word "=", .list [.word ".", object, .word name], value] =>
    return .set (← object.expr? numeral) (wordToken name) (← value.expr? numeral)
  | .list [.word ".", object, .word name] => return .get (← object.expr? numeral) (wordToken name)
  | .list (.word "call" :: callee :: arguments) =>
    return .call (← callee.expr? numeral) Mark.rightParen.token (← Form.exprs? numeral arguments)
  | .list (.word "fun" :: parts) => return .lambda (← Form.routine? numeral Keyword.funWord.token parts)
  | .list [.word operator, operand] => return .unary (wordToken operator) (← operand.expr? numeral)
  | .list [.word operator, left, right] =>
    return .ofOperator (wordToken operator) (← left.expr? numeral) (← right.expr? numeral)
  | _ => none

@[simp] def Form.exprs? (numeral : String → Float) : List Form → Option (List Expr)
  | [] => some []
  | f :: rest => return (← f.expr? numeral) :: (← Form.exprs? numeral rest)

@[simp] def Form.stmt? (numeral : String → Float) : Form → Option Stmt
  | .list [.word ";", value] => return .expression (← value.expr? numeral)
  | .list [.word "print", value] => return .print Keyword.printWord.token (← value.expr? numeral)
  | .list [.word "var", .word name] => some (.var (wordToken name) none)
  | .list [.word "var", .word name, initial] => return .var (wordToken name) (some (← initial.expr? numeral))
  | .list (.word "block" :: body) => return .block (← Form.stmts? numeral body)
  | .list [.word "if", condition, yes] => return .branch (← condition.expr? numeral) (← yes.stmt? numeral) none
  | .list [.word "if", condition, yes, no] =>
    return .branch (← condition.expr? numeral) (← yes.stmt? numeral) (some (← no.stmt? numeral))
  | .list [.word "while", condition, body] => return .loop (← condition.expr? numeral) (← body.stmt? numeral)
  | .list [.word "break"] => some (.leave Keyword.breakWord.token)
  | .list (.word "fun" :: .word name :: parts) => return .function (← Form.routine? numeral (wordToken name) parts)
  | .list [.word "return"] => some (.giveBack Keyword.returnWord.token none)
  | .list [.word "return", value] => return .giveBack Keyword.returnWord.token (some (← value.expr? numeral))
  | .list (.word "class" :: .word name :: methods) => return .classes (wordToken name) (← Form.methods? numeral methods)
  | _ => none

@[simp] def Form.stmts? (numeral : String → Float) : List Form → Option (List Stmt)
  | [] => some []
  | f :: rest => return (← f.stmt? numeral) :: (← Form.stmts? numeral rest)

@[simp] def Form.routine? (numeral : String → Float) (head : Token) : List Form → Option Routine
  | .list parameters :: body => return .mk head (← Form.names? parameters) (← Form.stmts? numeral body)
  | _ => none

@[simp] def Form.methods? (numeral : String → Float) : List Form → Option (List Routine)
  | [] => some []
  | .list (.word "method" :: .word name :: parts) :: rest =>
    return (← Form.routine? numeral (wordToken name) parts) :: (← Form.methods? numeral rest)
  | _ => none

end

-- Wipes out every id and every place.
def Renaming.bare : Renaming := ⟨fun _ => 0, fun _ => .start⟩

-- What the words of an outline tell of a token that is written there.
structure Token.Rereads (t : Token) : Prop where
  token : wordToken t.lexeme = t.rename .bare
  worded : t.form.Worded

theorem Mark.wordToken_spelling (m : Mark) : wordToken m.spelling = m.token := by
  cases m <;> rfl

theorem Keyword.wordToken_spelling (k : Keyword) : wordToken k.spelling = k.token := by
  cases k <;> rfl

theorem Mark.spelling_opens (m : Mark) : m.spelling.toList.head?.any Piece.startsWord = false := by
  cases m <;> rfl

theorem Piece.inWord_loose {c : Char} (h : Piece.inWord c = true) : c ≠ '(' ∧ Form.ends c = false := by
  have apart : ∀ d : Char, Piece.inWord d = false → c ≠ d := by
    rintro d outside rfl
    rw [h] at outside
    cases outside
  refine ⟨apart '(' rfl, ?_⟩
  simp [Form.ends, apart ' ' rfl, apart ')' rfl, apart '\n' rfl]

theorem Piece.inWord_of_startsWord {c : Char} (h : Piece.startsWord c = true) : Piece.inWord c = true := by
  unfold Piece.startsWord at h
  unfold Piece.inWord Char.isAlphanum
  rcases Bool.or_eq_true_iff.mp h with letter | line
  · simp [letter]
  · simp [line]

-- A text of its kind, as the scanner gives it.
def Token.Fits (t : Token) : Prop := Lexeme (.token t.kind) t.lexeme.toList

namespace Token.Fits

variable {t : Token}

theorem mark {m : Mark} (fits : t.Fits) (spelled : t.kind = .mark m) : t.lexeme = m.spelling := by
  unfold Fits at fits
  rw [spelled] at fits
  generalize given : t.lexeme.toList = text at fits
  cases fits
  exact String.toList_inj.mp given

theorem keyword {k : Keyword} (fits : t.Fits) (spelled : t.kind = .keyword k) : t.lexeme = k.spelling :=
  (Lexeme.spelled fits k).mp spelled

theorem ofMark {m : Mark} (fits : t.Fits) (spelled : t.kind = .mark m) : t.rename .bare = m.token := by
  rw [Token.rename, fits.mark spelled, spelled]
  rfl

theorem ofKeyword {k : Keyword} (fits : t.Fits) (spelled : t.kind = .keyword k) : t.rename .bare = k.token := by
  rw [Token.rename, fits.keyword spelled, spelled]
  rfl

-- A name is no word of the language and begins with a letter.
theorem named (fits : t.Fits) (named : t.kind = .identifier) :
    t.Rereads ∧ opensNumber t.lexeme = false := by
  have fits' := fits
  unfold Fits at fits'
  rw [named] at fits'
  generalize given : t.lexeme.toList = text at fits'
  cases fits' with
  | @identifier c w opens inside free =>
    have unreserved : Keyword.ofSpelling? t.lexeme.toList = none := by
      rw [given]
      exact Keyword.ofSpelling?_eq_none.mpr free
    have unmarked : Mark.all.find? (fun m => m.spelling == t.lexeme) = none := by
      refine List.find?_eq_none.mpr fun m _ same => ?_
      have first := m.spelling_opens
      rw [beq_iff_eq.mp same, given] at first
      simp [opens] at first
    refine ⟨⟨?_, ?_⟩, ?_⟩
    · rw [wordToken, unreserved]
      dsimp only
      rw [unmarked, Token.rename, named]
      rfl
    · refine ⟨by simp [given], fun d member => ?_⟩
      rw [given] at member
      rcases List.mem_cons.mp member with rfl | later
      · exact Piece.inWord_loose (Piece.inWord_of_startsWord opens)
      · exact Piece.inWord_loose (inside d later)
    · have noDigit := Piece.startsWord_not_digit opens
      have noMinus : c ≠ '-' := by
        rintro rfl
        cases opens
      simp [opensNumber, given, noDigit, noMinus]

-- An operator is told apart from every other word that a list can begin with.
theorem operator (fits : t.Fits) (spelled : t.kind ∈ [.mark .bang, .mark .minus] ∨ ∃ k : Rank, t.kind ∈ k.operators) :
    t.Rereads ∧ t.lexeme ∉ ["group", "=", ".", "call", "fun"] := by
  have marked : ∀ m : Mark, m ∉ [.leftParen, .rightParen, .equal, .dot] → t.kind = .mark m →
      t.Rereads ∧ t.lexeme ∉ ["group", "=", ".", "call", "fun"] := by
    intro m other same
    refine ⟨⟨by rw [fits.mark same, m.wordToken_spelling, fits.ofMark same], ?_⟩, ?_⟩
    · unfold Token.form
      rw [fits.mark same]
      cases m <;> first | exact absurd other (by decide) | exact .plain rfl
    · rw [fits.mark same]
      cases m <;> first | exact absurd other (by decide) | decide
  have worded : ∀ k : Keyword, k ≠ .funWord → t.kind = .keyword k →
      t.Rereads ∧ t.lexeme ∉ ["group", "=", ".", "call", "fun"] := by
    intro k other same
    refine ⟨⟨by rw [fits.keyword same, k.wordToken_spelling, fits.ofKeyword same], ?_⟩, ?_⟩
    · unfold Token.form
      rw [fits.keyword same]
      cases k <;> exact .plain rfl
    · rw [fits.keyword same]
      cases k <;> first | exact absurd rfl other | decide
  rcases spelled with alone | ⟨k, between⟩
  · simp only [List.mem_cons, List.not_mem_nil, or_false] at alone
    rcases alone with same | same <;> exact marked _ (by decide) same
  · cases k <;> simp only [Rank.operators, List.mem_cons, List.not_mem_nil, or_false] at between
    case disjunction | conjunction => exact worded _ (by decide) between
    case equality | sum | product => rcases between with same | same <;> exact marked _ (by decide) same
    case comparison => rcases between with same | same | same | same <;> exact marked _ (by decide) same

end Token.Fits

theorem Rank.ofOperator (k : Rank) {operator : Token} (spelled : operator.kind ∈ k.operators) (left right : Expr) :
    Expr.ofOperator operator left right = k.node left operator right := by
  unfold Expr.ofOperator
  cases k <;> simp only [Rank.operators, List.mem_cons, List.not_mem_nil, or_false] at spelled
  case disjunction | conjunction => simp [spelled, Rank.node]
  case equality | sum | product => rcases spelled with same | same <;> simp [same, Rank.node]
  case comparison => rcases spelled with same | same | same | same <;> simp [same, Rank.node]

-- A word that only a number can have.
def NumberWord (w : String) : Prop := opensNumber w = true ∧ ∀ c ∈ w.toList, c ≠ '(' ∧ Form.ends c = false

def Literal.Legible (numeral : String → Float) : Literal → Prop
  | .number x => numeral (Decimal.withPoint x) = x ∧ NumberWord (Decimal.withPoint x)
  | .string _ => False
  | _ => True

def Code.literals : Code → List Literal
  | .expr (.literal value) => [value]
  | _ => []

variable (numeral : String → Float)

def Expr.Rereads (e : Expr) : Prop := (∀ l ∈ e.gather Code.literals, l.Legible numeral) →
  Form.expr? numeral e.form = some (e.rename .bare) ∧ e.form.Worded

def Expr.RereadsAll (es : List Expr) : Prop := (∀ l ∈ Expr.gatherAll Code.literals es, l.Legible numeral) →
  Form.exprs? numeral (Expr.forms es) = some (Expr.renameAll .bare es) ∧ Form.WordedAll (Expr.forms es)

def Stmt.Rereads (s : Stmt) : Prop := (∀ l ∈ s.gather Code.literals, l.Legible numeral) →
  Form.stmt? numeral s.form = some (s.rename .bare) ∧ s.form.Worded

def Stmt.RereadsAll (ss : List Stmt) : Prop := (∀ l ∈ Stmt.gatherAll Code.literals ss, l.Legible numeral) →
  Form.stmts? numeral (Stmt.forms ss) = some (Stmt.renameAll .bare ss) ∧ Form.WordedAll (Stmt.forms ss)

-- The head of a routine stands outside of its forms.
def Routine.Rereads (r : Routine) : Prop := (∀ l ∈ Stmt.gatherAll Code.literals r.body, l.Legible numeral) →
  (∀ head, Form.routine? numeral head r.forms = some (.mk head (r.rename .bare).parameters (r.rename .bare).body)) ∧
    Form.WordedAll r.forms

def Routine.RereadsAll (rs : List Routine) : Prop := (∀ l ∈ Routine.gatherAll Code.literals rs, l.Legible numeral) →
  Form.methods? numeral (Routine.methodForms rs) = some (Routine.renameAll .bare rs) ∧
    Form.WordedAll (Routine.methodForms rs)

def Token.RereadsAll (ts : List Token) : Prop :=
  Form.names? (ts.map Token.form) = some (ts.map (Token.rename .bare)) ∧ Form.WordedAll (ts.map Token.form)

def Phrase.Rereads : Phrase → Prop
  | .declarations ss => Stmt.RereadsAll numeral ss
  | .declaration s => s.Rereads numeral
  | .functions rs => Routine.RereadsAll numeral rs
  | .function r => r.head.Rereads ∧ r.Rereads numeral
  | .routine r => r.Rereads numeral
  | .parameters ps => Token.RereadsAll ps
  | .names ps => Token.RereadsAll ps
  | .variable s => s.Rereads numeral
  | .statement _ s => s.Rereads numeral
  | .sentence s => s.Rereads numeral
  | .firstClause o => ∀ s ∈ o, s.Rereads numeral
  | .optional o => ∀ e ∈ o, e.Rereads numeral
  | .expression e => e.Rereads numeral
  | .rank _ e => e.Rereads numeral
  | .further _ before after => before.Rereads numeral → after.Rereads numeral
  | .unary e => e.Rereads numeral
  | .call e => e.Rereads numeral
  | .suffixes before after => before.Rereads numeral → after.Rereads numeral
  | .values es => Expr.RereadsAll numeral es
  | .expressions es => Expr.RereadsAll numeral es
  | .primary e => e.Rereads numeral

theorem Phrase.rereads_operand (k : Rank) (e : Expr) : (Phrase.operand k e).Rereads numeral ↔ e.Rereads numeral := by
  cases k <;> rfl

variable {numeral}

namespace Expr.Rereads

variable {e value left right object : Expr} {name operator keyword close : Token}

theorem grouping (h : e.Rereads numeral) : (Expr.grouping e).Rereads numeral := by
  intro legible
  obtain ⟨same, worded⟩ := h legible
  exact ⟨by simp [form, same, rename], .plain rfl, worded, trivial⟩

theorem unary (fits : operator.Fits) (spelled : operator.kind ∈ [.mark .bang, .mark .minus]) (h : e.Rereads numeral) :
    (Expr.unary operator e).Rereads numeral := by
  intro legible
  obtain ⟨same, worded⟩ := h legible
  obtain ⟨reread, other⟩ := fits.operator (.inl spelled)
  simp only [List.mem_cons, List.not_mem_nil, or_false, not_or] at other
  exact ⟨by simp [form, Token.form, same, rename, other, reread.token], reread.worded, worded, trivial⟩

theorem node {k : Rank} (fits : operator.Fits) (spelled : operator.kind ∈ k.operators) (first : left.Rereads numeral)
    (second : right.Rereads numeral) : (k.node left operator right).Rereads numeral := by
  intro legible
  have parts : (k.node left operator right).gather Code.literals = left.gather Code.literals ++ right.gather Code.literals := by
    cases k <;> rfl
  rw [parts] at legible
  obtain ⟨here, there⟩ := List.forall_mem_append.mp legible
  obtain ⟨same, worded⟩ := first here
  obtain ⟨same', worded'⟩ := second there
  obtain ⟨reread, other⟩ := fits.operator (.inr ⟨k, spelled⟩)
  simp only [List.mem_cons, List.not_mem_nil, or_false, not_or] at other
  have form : (k.node left operator right).form = .list [operator.form, left.form, right.form] := by cases k <;> rfl
  rw [form, Rank.rename_node, ← Rank.ofOperator k (show (operator.rename .bare).kind ∈ k.operators from spelled)]
  exact ⟨by simp [Token.form, same, same', other, reread.token], reread.worded, worded, worded', trivial⟩

theorem «variable» (fits : name.Fits) (named : name.kind = .identifier) (i : RefId) :
    (Expr.variable i name).Rereads numeral := by
  intro _
  obtain ⟨reread, noNumber⟩ := fits.named named
  refine ⟨?_, reread.worded⟩
  simp [form, Token.form, ofWord, noNumber, reread.token, named, rename, Renaming.bare]

theorem assign (fits : name.Fits) (named : name.kind = .identifier) (i : RefId) (h : value.Rereads numeral) :
    (Expr.assign i name value).Rereads numeral := by
  intro legible
  obtain ⟨same, worded⟩ := h legible
  obtain ⟨reread, -⟩ := fits.named named
  exact ⟨by simp [form, Token.form, same, reread.token, rename, Renaming.bare], .plain rfl,
    reread.worded, worded, trivial⟩

theorem get (fits : name.Fits) (named : name.kind = .identifier) (h : object.Rereads numeral) :
    (Expr.get object name).Rereads numeral := by
  intro legible
  obtain ⟨same, worded⟩ := h legible
  obtain ⟨reread, -⟩ := fits.named named
  exact ⟨by simp [form, Token.form, same, reread.token, rename], .plain rfl, worded, reread.worded,
    trivial⟩

theorem set (fits : name.Fits) (named : name.kind = .identifier) (first : object.Rereads numeral)
    (second : value.Rereads numeral) : (Expr.set object name value).Rereads numeral := by
  intro legible
  obtain ⟨here, there⟩ := List.forall_mem_append.mp (show ∀ l ∈ object.gather _ ++ value.gather _, _ from legible)
  obtain ⟨same, worded⟩ := first here
  obtain ⟨same', worded'⟩ := second there
  obtain ⟨reread, -⟩ := fits.named named
  exact ⟨by simp [form, Token.form, same, same', reread.token, rename], .plain rfl,
    ⟨.plain rfl, worded, reread.worded, trivial⟩, worded', trivial⟩

theorem this (fits : keyword.Fits) (spelled : keyword.kind = .keyword .thisWord) (i : RefId) :
    (Expr.this i keyword).Rereads numeral := by
  intro _
  refine ⟨?_, .plain rfl⟩
  rw [form, Form.expr?, rename, fits.ofKeyword spelled]
  rfl

theorem literal (value : Literal) : (Expr.literal value).Rereads numeral := by
  intro legible
  have mine := legible value List.mem_cons_self
  cases value with
  | number x =>
    obtain ⟨same, opens, loose⟩ := mine
    refine ⟨by simp [form, Literal.outline, ofWord, opens, same, rename], ?_, loose⟩
    intro empty
    change (Decimal.withPoint x).toList = [] at empty
    simp [opensNumber, empty] at opens
  | string text => exact mine.elim
  | _ => exact ⟨rfl, .plain rfl⟩

theorem call {es : List Expr} (fits : close.Fits) (closes : close.kind = .mark .rightParen) (first : e.Rereads numeral)
    (others : RereadsAll numeral es) : (Expr.call e close es).Rereads numeral := by
  intro legible
  obtain ⟨here, there⟩ := List.forall_mem_append.mp (show ∀ l ∈ e.gather _ ++ gatherAll _ es, _ from legible)
  obtain ⟨same, worded⟩ := first here
  obtain ⟨same', worded'⟩ := others there
  exact ⟨by simp [form, same, same', rename, fits.ofMark closes], .plain rfl, worded, worded'⟩

theorem lambda {ps : List Token} {body : List Stmt} (fits : keyword.Fits) (opening : keyword.kind = .keyword .funWord)
    (h : (Routine.mk keyword ps body).Rereads numeral) : (Expr.lambda (.mk keyword ps body)).Rereads numeral := by
  intro legible
  obtain ⟨same, worded⟩ := h legible
  exact ⟨by simp [form, same, rename, Routine.rename, Routine.parameters, Routine.body, fits.ofKeyword opening],
    .plain rfl, worded⟩

end Expr.Rereads

theorem Expr.RereadsAll.cons {e : Expr} {es : List Expr} (first : e.Rereads numeral) (others : RereadsAll numeral es) :
    RereadsAll numeral (e :: es) := by
  intro legible
  obtain ⟨here, there⟩ := List.forall_mem_append.mp (show ∀ l ∈ e.gather _ ++ gatherAll _ es, _ from legible)
  obtain ⟨same, worded⟩ := first here
  obtain ⟨same', worded'⟩ := others there
  exact ⟨by simp [forms, same, same', renameAll], worded, worded'⟩

theorem Token.RereadsAll.cons {t : Token} {ts : List Token} (first : t.Rereads) (others : RereadsAll ts) :
    RereadsAll (t :: ts) :=
  ⟨by simp [Token.form, Form.names?, others.1, first.token], first.worded, others.2⟩

namespace Stmt.Rereads

variable {e : Expr} {s yes no : Stmt} {name keyword : Token} {body : List Stmt} {ps : List Token}

theorem expression (h : e.Rereads numeral) : (Stmt.expression e).Rereads numeral := by
  intro legible
  obtain ⟨same, worded⟩ := h legible
  exact ⟨by simp [form, same, rename], .plain rfl, worded, trivial⟩

theorem print (fits : keyword.Fits) (spelled : keyword.kind = .keyword .printWord) (h : e.Rereads numeral) :
    (Stmt.print keyword e).Rereads numeral := by
  intro legible
  obtain ⟨same, worded⟩ := h legible
  exact ⟨by simp [form, same, rename, fits.ofKeyword spelled], .plain rfl, worded, trivial⟩

theorem plain (fits : name.Fits) (named : name.kind = .identifier) : (Stmt.var name none).Rereads numeral := by
  intro _
  obtain ⟨reread, -⟩ := fits.named named
  exact ⟨by simp [form, Token.form, reread.token, rename], .plain rfl, reread.worded, trivial⟩

theorem filled (fits : name.Fits) (named : name.kind = .identifier) (h : e.Rereads numeral) :
    (Stmt.var name (some e)).Rereads numeral := by
  intro legible
  obtain ⟨same, worded⟩ := h legible
  obtain ⟨reread, -⟩ := fits.named named
  exact ⟨by simp [form, Token.form, same, reread.token, rename], .plain rfl, reread.worded, worded,
    trivial⟩

theorem block (h : RereadsAll numeral body) : (Stmt.block body).Rereads numeral := by
  intro legible
  obtain ⟨same, worded⟩ := h legible
  exact ⟨by simp [form, same, rename], .plain rfl, worded⟩

theorem lone (test : e.Rereads numeral) (inner : yes.Rereads numeral) : (Stmt.branch e yes none).Rereads numeral := by
  intro legible
  obtain ⟨here, there⟩ := List.forall_mem_append.mp (show ∀ l ∈ e.gather _ ++ yes.gather _, _ from legible)
  obtain ⟨same, worded⟩ := test here
  obtain ⟨same', worded'⟩ := inner there
  exact ⟨by simp [form, same, same', rename], .plain rfl, worded, worded', trivial⟩

theorem branch (test : e.Rereads numeral) (inner : yes.Rereads numeral) (other : no.Rereads numeral) :
    (Stmt.branch e yes (some no)).Rereads numeral := by
  intro legible
  obtain ⟨here, rest⟩ := List.forall_mem_append.mp (show ∀ l ∈ e.gather _ ++ (yes.gather _ ++ no.gather _), _ from legible)
  obtain ⟨there, beyond⟩ := List.forall_mem_append.mp rest
  obtain ⟨same, worded⟩ := test here
  obtain ⟨same', worded'⟩ := inner there
  obtain ⟨same'', worded''⟩ := other beyond
  exact ⟨by simp [form, same, same', same'', rename], .plain rfl, worded, worded', worded'', trivial⟩

theorem loop (test : e.Rereads numeral) (inner : s.Rereads numeral) : (Stmt.loop e s).Rereads numeral := by
  intro legible
  obtain ⟨here, there⟩ := List.forall_mem_append.mp (show ∀ l ∈ e.gather _ ++ s.gather _, _ from legible)
  obtain ⟨same, worded⟩ := test here
  obtain ⟨same', worded'⟩ := inner there
  exact ⟨by simp [form, same, same', rename], .plain rfl, worded, worded', trivial⟩

theorem leave (fits : keyword.Fits) (spelled : keyword.kind = .keyword .breakWord) : (Stmt.leave keyword).Rereads numeral :=
  fun _ => ⟨by simp [form, rename, fits.ofKeyword spelled], .plain rfl, trivial⟩

theorem giveBack {value : Option Expr} (fits : keyword.Fits) (spelled : keyword.kind = .keyword .returnWord)
    (h : ∀ e ∈ value, e.Rereads numeral) : (Stmt.giveBack keyword value).Rereads numeral := by
  intro legible
  cases value with
  | none => exact ⟨by simp [form, rename, fits.ofKeyword spelled], .plain rfl, trivial⟩
  | some e =>
    obtain ⟨same, worded⟩ := h e rfl legible
    exact ⟨by simp [form, same, rename, fits.ofKeyword spelled], .plain rfl, worded, trivial⟩

theorem function {r : Routine} (head : r.head.Rereads) (h : r.Rereads numeral) : (Stmt.function r).Rereads numeral := by
  obtain ⟨name, ps, body⟩ := r
  intro legible
  obtain ⟨same, worded⟩ := h legible
  refine ⟨?_, .plain rfl, head.worded, worded⟩
  have token : wordToken name.lexeme = name.rename .bare := head.token
  simp [form, Token.form, same, token, rename, Routine.rename, Routine.head, Routine.parameters, Routine.body]

theorem classes {rs : List Routine} (fits : name.Fits) (named : name.kind = .identifier) (h : Routine.RereadsAll numeral rs) :
    (Stmt.classes name rs).Rereads numeral := by
  intro legible
  obtain ⟨same, worded⟩ := h legible
  obtain ⟨reread, -⟩ := fits.named named
  exact ⟨by simp [form, Token.form, same, reread.token, rename], .plain rfl, reread.worded, worded⟩

end Stmt.Rereads

theorem Stmt.RereadsAll.cons {s : Stmt} {ss : List Stmt} (first : s.Rereads numeral) (others : RereadsAll numeral ss) :
    RereadsAll numeral (s :: ss) := by
  intro legible
  obtain ⟨here, there⟩ := List.forall_mem_append.mp (show ∀ l ∈ s.gather _ ++ gatherAll _ ss, _ from legible)
  obtain ⟨same, worded⟩ := first here
  obtain ⟨same', worded'⟩ := others there
  exact ⟨by simp [forms, same, same', renameAll], worded, worded'⟩

theorem Routine.Rereads.mk {head : Token} {ps : List Token} {body : List Stmt} (names : Token.RereadsAll ps)
    (h : Stmt.RereadsAll numeral body) : (Routine.mk head ps body).Rereads numeral := by
  intro legible
  obtain ⟨same, worded⟩ := h legible
  exact ⟨fun head => by simp [forms, names.1, same, rename, parameters, Routine.body], names.2, worded⟩

theorem Routine.RereadsAll.cons {r : Routine} {rs : List Routine} (head : r.head.Rereads) (first : r.Rereads numeral)
    (others : RereadsAll numeral rs) : RereadsAll numeral (r :: rs) := by
  obtain ⟨name, ps, body⟩ := r
  intro legible
  obtain ⟨here, there⟩ :=
    List.forall_mem_append.mp (show ∀ l ∈ Stmt.gatherAll _ body ++ gatherAll _ rs, _ from legible)
  obtain ⟨same, worded⟩ := first here
  obtain ⟨same', worded'⟩ := others there
  refine ⟨?_, ⟨.plain rfl, head.worded, worded⟩, worded'⟩
  have token : wordToken name.lexeme = name.rename .bare := head.token
  simp [methodForms, Token.form, same, same', token, renameAll, rename, Routine.head, parameters, Routine.body]

theorem spelledLoop_rereads {initial : Option Stmt} {condition step : Option Expr} {body : Stmt}
    (first : ∀ s ∈ initial, s.Rereads numeral) (test : ∀ e ∈ condition, e.Rereads numeral)
    (last : ∀ e ∈ step, e.Rereads numeral) (inner : body.Rereads numeral) :
    (spelledLoop initial condition step body).Rereads numeral := by
  have asked : (condition.getD (.literal .true)).Rereads numeral := by
    cases condition with
    | none => exact .literal .true
    | some e => exact test e rfl
  have nothing : Stmt.RereadsAll numeral [] := fun _ => ⟨rfl, trivial⟩
  have pair : ∀ {s t : Stmt}, s.Rereads numeral → t.Rereads numeral → (Stmt.block [s, t]).Rereads numeral :=
    fun one two => .block (.cons one (.cons two nothing))
  have turn : (spelledLoop none condition step body).Rereads numeral := by
    cases step with
    | none => exact .loop asked inner
    | some e => exact .loop asked (pair inner (.expression (last e rfl)))
  cases initial with
  | none => exact turn
  | some s =>
    cases step with
    | none => exact pair (first s rfl) turn
    | some e => exact pair (first s rfl) turn

-- Whatever is derived from tokens with texts of their kind reads back. Induction on the derivation.
theorem Derives.rereads (h : Derives p w) : (∀ t ∈ w, t.Fits) → p.Rereads numeral := by
  induction h with
  | noDeclarations => exact fun _ _ => ⟨rfl, trivial⟩
  | declarations _ _ first others =>
    intro fits
    obtain ⟨here, there⟩ := List.forall_mem_append.mp fits
    exact .cons (first here) (others there)
  | classes _ named _ _ _ inner =>
    intro fits
    exact .classes (fits _ (by simp)) named (inner fun t member => fits t (by simp [member]))
  | functionDeclaration _ _ inner =>
    intro fits
    obtain ⟨head, routine⟩ := inner fun t member => fits t (by simp [member])
    exact Stmt.Rereads.function head routine
  | functions _ _ first others =>
    intro fits
    obtain ⟨here, there⟩ := List.forall_mem_append.mp fits
    obtain ⟨head, routine⟩ := first here
    exact .cons head routine (others there)
  | noFunctions => exact fun _ _ => ⟨rfl, trivial⟩
  | function named _ inner =>
    intro fits
    exact ⟨((fits _ List.mem_cons_self).named named).1, inner fun t member => fits t (by simp [member])⟩
  | routine _ _ _ _ _ _ names inner =>
    intro fits
    exact .mk (names fun t member => fits t (by simp [member])) (inner fun t member => fits t (by simp [member]))
  | noParameters => exact fun _ => ⟨rfl, trivial⟩
  | lastName named => exact fun fits => .cons ((fits _ List.mem_cons_self).named named).1 ⟨rfl, trivial⟩
  | names named _ _ others =>
    intro fits
    exact .cons ((fits _ List.mem_cons_self).named named).1 (others fun t member => fits t (by simp [member]))
  | plainVariable named => exact fun fits => Stmt.Rereads.plain (fits _ List.mem_cons_self) named
  | filledVariable named _ _ _ initial =>
    intro fits
    exact Stmt.Rereads.filled (fits _ List.mem_cons_self) named (initial fun t member => fits t (by simp [member]))
  | forStatement _ _ _ _ _ _ _ _ first test last inner =>
    intro fits
    exact spelledLoop_rereads (first fun t member => fits t (by simp [member]))
      (test fun t member => fits t (by simp [member])) (last fun t member => fits t (by simp [member]))
      (inner fun t member => fits t (by simp [member]))
  | ifStatement _ _ _ _ _ test inner =>
    intro fits
    exact Stmt.Rereads.lone (test fun t member => fits t (by simp [member])) (inner fun t member => fits t (by simp [member]))
  | ifElseStatement _ _ _ _ _ _ _ test inner other =>
    intro fits
    exact Stmt.Rereads.branch (test fun t member => fits t (by simp [member]))
      (inner fun t member => fits t (by simp [member])) (other fun t member => fits t (by simp [member]))
  | printStatement opening _ _ inner =>
    intro fits
    exact Stmt.Rereads.print (fits _ List.mem_cons_self) opening (inner fun t member => fits t (by simp [member]))
  | returnStatement opening _ _ inner =>
    intro fits
    exact Stmt.Rereads.giveBack (fits _ List.mem_cons_self) opening (inner fun t member => fits t (by simp [member]))
  | whileStatement _ _ _ _ _ test inner =>
    intro fits
    exact Stmt.Rereads.loop (test fun t member => fits t (by simp [member])) (inner fun t member => fits t (by simp [member]))
  | breakStatement opening => exact fun fits => Stmt.Rereads.leave (fits _ List.mem_cons_self) opening
  | blockStatement _ _ _ inner => exact fun fits => Stmt.Rereads.block (inner fun t member => fits t (by simp [member]))
  | sentence _ _ inner => exact fun fits => Stmt.Rereads.expression (inner fun t member => fits t (by simp [member]))
  | assignVariable named _ _ value =>
    intro fits
    exact Expr.Rereads.assign (fits _ List.mem_cons_self) named _ (value fun t member => fits t (by simp [member]))
  | assignProperty _ _ named _ _ target value =>
    intro fits
    exact Expr.Rereads.set (fits _ (by simp)) named (target fun t member => fits t (by simp [member]))
      (value fun t member => fits t (by simp [member]))
  | rank _ _ first others =>
    intro fits
    obtain ⟨here, there⟩ := List.forall_mem_append.mp fits
    exact others there ((Phrase.rereads_operand numeral _ _).mp (first here))
  | further spelled _ _ next others =>
    intro fits before
    have operand := (Phrase.rereads_operand numeral _ _).mp (next fun t member => fits t (by simp [member]))
    exact others (fun t member => fits t (by simp [member])) (.node (fits _ List.mem_cons_self) spelled before operand)
  | unary spelled _ inner =>
    intro fits
    exact Expr.Rereads.unary (fits _ List.mem_cons_self) spelled (inner fun t member => fits t (by simp [member]))
  | call _ _ first others =>
    intro fits
    obtain ⟨here, there⟩ := List.forall_mem_append.mp fits
    exact others there (first here)
  | callSuffix _ _ closes _ inner others =>
    intro fits before
    exact others (fun t member => fits t (by simp [member]))
      (.call (fits _ (by simp)) closes before (inner fun t member => fits t (by simp [member])))
  | getSuffix _ named _ others =>
    intro fits before
    exact others (fun t member => fits t (by simp [member])) (.get (fits _ (by simp)) named before)
  | noValues => exact fun _ _ => ⟨rfl, trivial⟩
  | lastExpression _ inner => exact fun fits => Expr.RereadsAll.cons (inner fits) fun _ => ⟨rfl, trivial⟩
  | expressions _ _ _ inner others =>
    intro fits
    exact Expr.RereadsAll.cons (inner fun t member => fits t (by simp [member])) (others fun t member => fits t (by simp [member]))
  | number | string | true | false | nil => exact fun _ => Expr.Rereads.literal _
  | this spelled => exact fun fits => Expr.Rereads.this (fits _ List.mem_cons_self) spelled _
  | name named => exact fun fits => Expr.Rereads.variable (fits _ List.mem_cons_self) named _
  | grouping _ _ _ inner => exact fun fits => Expr.Rereads.grouping (inner fun t member => fits t (by simp [member]))
  | lambda opening _ inner =>
    intro fits
    exact Expr.Rereads.lambda (fits _ List.mem_cons_self) opening (inner fun t member => fits t (by simp [member]))
  -- Every other phrase builds no node of its own.
  | _ => simp_all [Phrase.Rereads]

end ScopeScript
