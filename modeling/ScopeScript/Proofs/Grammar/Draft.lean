import ScopeScript.Grammar.Fault
import ScopeScript.Proofs.Grammar.Shape

namespace ScopeScript

-- A fault that stops a declaration, unlike one that is noted in passing.
def SyntaxCause.isHard : SyntaxCause → Bool
  | badTarget => false
  | tooMany _ => false
  | _ => true

def SyntaxFault.isHard (f : SyntaxFault) : Bool := f.cause.isHard

def Soft (softs : List SyntaxFault) : Prop := ∀ f ∈ softs, f.isHard = false

-- An entry of a list after as many others, told off at its first token if it is beyond the limit.
def surplus (what : Limited) (already : Nat) (w : List Token) : List SyntaxFault :=
  if 255 ≤ already then w.head?.toList.map (⟨.tooMany what, ·⟩) else []

-- The equals sign behind what is no target.
def stray (target : Bool) (equals : Token) : List SyntaxFault :=
  if target then [] else [⟨.badTarget, equals⟩]

-- A nonterminal of the grammar for drafts. Where it matters it says whether what it derives is a
-- bare variable or a property.
inductive Part where
  | declarations
  | declaration
  | functions
  | function
  | routine
  | parameters
  -- Entries of a list after as many others.
  | names (already : Nat)
  | variable
  | statement (hungry : Bool)
  | sentence
  | firstClause
  | optional
  | expression
  | rank (k : Rank) (target : Bool)
  | further (k : Rank) (before after : Bool)
  | unary (target : Bool)
  | call (target : Bool)
  | suffixes (before after : Bool)
  | values
  | expressions (already : Nat)
  | primary (target : Bool)

def Part.operand : Rank → Bool → Part
  | .disjunction => .rank .conjunction
  | .conjunction => .rank .equality
  | .equality => .rank .comparison
  | .comparison => .rank .sum
  | .sum => .rank .product
  | .product => .unary

-- The grammar with any expression of the weakest rank in front of an equals sign and with lists of
-- any length. A derivation lists what there is to complain about, from left to right but with a
-- value before the equals sign in front of it.
inductive Drafts : Part → List Token → List SyntaxFault → Prop where
  -- program → declaration*
  | noDeclarations : Drafts .declarations [] []
  | declarations (first : Drafts .declaration v s) (others : Drafts .declarations w t) :
      Drafts .declarations (v ++ w) (s ++ t)
  -- declaration → classDecl | funDecl | varDecl | statement
  | classes (opening : keyword.kind = .keyword .classWord) (named : name.kind = .identifier)
      (left : open_.kind = .mark .leftBrace) (inner : Drafts .functions w s)
      (right : close.kind = .mark .rightBrace) :
      Drafts .declaration (keyword :: name :: open_ :: (w ++ [close])) s
  | functionDeclaration (opening : keyword.kind = .keyword .funWord) (inner : Drafts .function w s) :
      Drafts .declaration (keyword :: w) s
  | variableDeclaration (opening : keyword.kind = .keyword .varWord) (inner : Drafts .variable w s) :
      Drafts .declaration (keyword :: w) s
  | statement (inner : Drafts (.statement hungry) w s) : Drafts .declaration w s
  -- function* and function → IDENT routine
  | noFunctions : Drafts .functions [] []
  | functions (first : Drafts .function v s) (others : Drafts .functions w t) :
      Drafts .functions (v ++ w) (s ++ t)
  | function (named : name.kind = .identifier) (inner : Drafts .routine w s) : Drafts .function (name :: w) s
  -- routine → "(" parameters? ")" "{" declaration* "}"
  | routine (left : open_.kind = .mark .leftParen) (names : Drafts .parameters v s)
      (right : close.kind = .mark .rightParen) (start : brace.kind = .mark .leftBrace)
      (inner : Drafts .declarations w t) (stop : unbrace.kind = .mark .rightBrace) :
      Drafts .routine (open_ :: (v ++ close :: brace :: (w ++ [unbrace]))) (s ++ t)
  | noParameters : Drafts .parameters [] []
  | parameters (inner : Drafts (.names 0) w s) : Drafts .parameters w s
  -- names → IDENT ( "," IDENT )*
  | lastName (named : name.kind = .identifier) :
      Drafts (.names already) [name] (surplus .parameters already [name])
  | names (named : name.kind = .identifier) (comma : sep.kind = .mark .comma)
      (others : Drafts (.names (already + 1)) w s) :
      Drafts (.names already) (name :: sep :: w) (surplus .parameters already [name] ++ s)
  -- variable → IDENT ( "=" expression )? ";"
  | plainVariable (named : name.kind = .identifier) (stop : semicolon.kind = .mark .semicolon) :
      Drafts .variable [name, semicolon] []
  | filledVariable (named : name.kind = .identifier) (equal : equals.kind = .mark .equal)
      (initial : Drafts .expression w s) (stop : semicolon.kind = .mark .semicolon) :
      Drafts .variable (name :: equals :: (w ++ [semicolon])) s
  -- statement → exprStmt | forStmt | ifStmt | printStmt | returnStmt | whileStmt | breakStmt | block
  | sentenceStatement (inner : Drafts .sentence w s) : Drafts (.statement false) w s
  | forStatement (opening : keyword.kind = .keyword .forWord) (left : open_.kind = .mark .leftParen)
      (first : Drafts .firstClause u s) (test : Drafts .optional v t)
      (stop : semicolon.kind = .mark .semicolon) (last : Drafts .optional w r)
      (right : close.kind = .mark .rightParen) (inner : Drafts (.statement hungry) x q) :
      Drafts (.statement hungry) (keyword :: open_ :: (u ++ (v ++ semicolon :: (w ++ close :: x))))
        (s ++ (t ++ (r ++ q)))
  | ifStatement (opening : keyword.kind = .keyword .ifWord) (left : open_.kind = .mark .leftParen)
      (test : Drafts .expression v s) (right : close.kind = .mark .rightParen)
      (inner : Drafts (.statement hungry) w t) :
      Drafts (.statement true) (keyword :: open_ :: (v ++ close :: w)) (s ++ t)
  -- An else belongs to the nearest if: what stands before it is not hungry.
  | ifElseStatement (opening : keyword.kind = .keyword .ifWord) (left : open_.kind = .mark .leftParen)
      (test : Drafts .expression u s) (right : close.kind = .mark .rightParen)
      (inner : Drafts (.statement false) v t) (middle : otherwise.kind = .keyword .elseWord)
      (other : Drafts (.statement hungry) w r) :
      Drafts (.statement hungry) (keyword :: open_ :: (u ++ close :: (v ++ otherwise :: w)))
        (s ++ (t ++ r))
  | printStatement (opening : keyword.kind = .keyword .printWord) (inner : Drafts .expression w s)
      (stop : semicolon.kind = .mark .semicolon) : Drafts (.statement false) (keyword :: (w ++ [semicolon])) s
  | returnStatement (opening : keyword.kind = .keyword .returnWord) (inner : Drafts .optional w s)
      (stop : semicolon.kind = .mark .semicolon) : Drafts (.statement false) (keyword :: (w ++ [semicolon])) s
  | whileStatement (opening : keyword.kind = .keyword .whileWord) (left : open_.kind = .mark .leftParen)
      (test : Drafts .expression v s) (right : close.kind = .mark .rightParen)
      (inner : Drafts (.statement hungry) w t) :
      Drafts (.statement hungry) (keyword :: open_ :: (v ++ close :: w)) (s ++ t)
  | breakStatement (opening : keyword.kind = .keyword .breakWord) (stop : semicolon.kind = .mark .semicolon) :
      Drafts (.statement false) [keyword, semicolon] []
  | blockStatement (start : brace.kind = .mark .leftBrace) (inner : Drafts .declarations w s)
      (stop : unbrace.kind = .mark .rightBrace) : Drafts (.statement false) (brace :: (w ++ [unbrace])) s
  -- sentence → expression ";"
  | sentence (inner : Drafts .expression w s) (stop : semicolon.kind = .mark .semicolon) :
      Drafts .sentence (w ++ [semicolon]) s
  -- firstClause → varDecl | exprStmt | ";"
  | noClause (stop : semicolon.kind = .mark .semicolon) : Drafts .firstClause [semicolon] []
  | variableClause (opening : keyword.kind = .keyword .varWord) (inner : Drafts .variable w s) :
      Drafts .firstClause (keyword :: w) s
  | sentenceClause (inner : Drafts .sentence w s) : Drafts .firstClause w s
  -- expression?
  | absent : Drafts .optional [] []
  | present (inner : Drafts .expression w s) : Drafts .optional w s
  -- expression → logic_or ( "=" expression )?
  | expression (inner : Drafts (.rank .disjunction target) w s) : Drafts .expression w s
  | assignment (left : Drafts (.rank .disjunction target) v s) (equal : equals.kind = .mark .equal)
      (value : Drafts .expression w t) :
      Drafts .expression (v ++ equals :: w) (s ++ (t ++ stray target equals))
  -- Every rank → operand ( operator operand )*, built from the left.
  | rank (first : Drafts (.operand k before) v s) (others : Drafts (.further k before target) w t) :
      Drafts (.rank k target) (v ++ w) (s ++ t)
  | noFurther : Drafts (.further k target target) [] []
  | further (spelled : operator.kind ∈ k.operators) (next : Drafts (.operand k right) v s)
      (others : Drafts (.further k false target) w t) :
      Drafts (.further k before target) (operator :: (v ++ w)) (s ++ t)
  -- unary → ( "!" | "-" ) unary | call
  | unary (spelled : operator.kind ∈ [.mark .bang, .mark .minus]) (inner : Drafts (.unary below) w s) :
      Drafts (.unary false) (operator :: w) s
  | plainUnary (inner : Drafts (.call target) w s) : Drafts (.unary target) w s
  -- call → primary ( "(" arguments? ")" | "." IDENT )*
  | call (first : Drafts (.primary before) v s) (others : Drafts (.suffixes before target) w t) :
      Drafts (.call target) (v ++ w) (s ++ t)
  | noSuffixes : Drafts (.suffixes target target) [] []
  | callSuffix (left : open_.kind = .mark .leftParen) (inner : Drafts .values v s)
      (right : close.kind = .mark .rightParen) (others : Drafts (.suffixes false target) w t) :
      Drafts (.suffixes before target) (open_ :: (v ++ close :: w)) (s ++ t)
  | getSuffix (point : dot.kind = .mark .dot) (named : name.kind = .identifier)
      (others : Drafts (.suffixes true target) w s) : Drafts (.suffixes before target) (dot :: name :: w) s
  | noValues : Drafts .values [] []
  | values (inner : Drafts (.expressions 0) w s) : Drafts .values w s
  -- arguments → expression ( "," expression )*
  | lastExpression (inner : Drafts .expression w s) :
      Drafts (.expressions already) w (surplus .arguments already w ++ s)
  | expressions (inner : Drafts .expression v s) (comma : sep.kind = .mark .comma)
      (others : Drafts (.expressions (already + 1)) w t) :
      Drafts (.expressions already) (v ++ sep :: w) (surplus .arguments already v ++ (s ++ t))
  -- primary → NUMBER | STRING | "true" | "false" | "nil" | "this" | IDENT | "(" expression ")"
  --         | "fun" routine
  | number (spelled : t.kind = .number x) : Drafts (.primary false) [t] []
  | string (spelled : t.kind = .string text) : Drafts (.primary false) [t] []
  | trueWord (spelled : t.kind = .keyword .trueWord) : Drafts (.primary false) [t] []
  | falseWord (spelled : t.kind = .keyword .falseWord) : Drafts (.primary false) [t] []
  | nilWord (spelled : t.kind = .keyword .nilWord) : Drafts (.primary false) [t] []
  | thisWord (spelled : t.kind = .keyword .thisWord) : Drafts (.primary false) [t] []
  | name (named : t.kind = .identifier) : Drafts (.primary true) [t] []
  | grouping (left : open_.kind = .mark .leftParen) (inner : Drafts .expression w s)
      (right : close.kind = .mark .rightParen) : Drafts (.primary false) (open_ :: (w ++ [close])) s
  | lambda (opening : keyword.kind = .keyword .funWord) (inner : Drafts .routine w s) :
      Drafts (.primary false) (keyword :: w) s

def TokenKind.token (kind : TokenKind) : Token := ⟨kind, "", .start⟩

theorem surplus_few {what : Limited} {already : Nat} {w : List Token} (few : already < 255) :
    surplus what already w = [] := if_neg (by omega)

theorem Soft.nil : Soft [] := fun _ none => absurd none List.not_mem_nil

theorem Soft.append {s t : List SyntaxFault} (first : Soft s) (second : Soft t) : Soft (s ++ t) := by
  intro f member
  rcases List.mem_append.mp member with early | late
  · exact first f early
  · exact second f late

theorem Soft.surplus (what : Limited) (already : Nat) (w : List Token) : Soft (surplus what already w) := by
  intro f member
  unfold ScopeScript.surplus at member
  split at member
  · obtain ⟨t, _, rfl⟩ := List.mem_map.mp member
    rfl
  · exact absurd member List.not_mem_nil

theorem Soft.stray (target : Bool) (equals : Token) : Soft (stray target equals) := by
  intro f member
  cases target with
  | true => exact absurd member List.not_mem_nil
  | false =>
    rw [List.mem_singleton.mp member]
    rfl

-- How the tokens of a part start, for the parts that are never empty.
def Part.Opening : Part → List Token → Prop
  | .declaration, w => ∃ t more, w = t :: more ∧ opensDeclaration t.kind = true
  | .statement _, w => Opens opensStatement w
  | .sentence, w => Opens opensExpression w
  | .function, w => ∃ t more, w = t :: more ∧ t.kind = .identifier
  | .routine, w => ∃ t more, w = t :: more ∧ t.kind = .mark .leftParen
  | .expression, w => Opens opensExpression w
  | .rank _ _, w => Opens opensExpression w
  | .unary _, w => Opens opensExpression w
  | .call _, w => Opens opensExpression w
  | .expressions _, w => Opens opensExpression w
  | .primary _, w => Opens opensExpression w
  | .names _, w => ∃ t more, w = t :: more ∧ t.kind = .identifier
  | _, _ => True

theorem Part.opening_operand (k : Rank) (target : Bool) (w : List Token) :
    (Part.operand k target).Opening w ↔ Opens opensExpression w := by
  cases k <;> rfl

theorem Rank.operator_unstopped {k : Rank} {t : Token} (spelled : t.kind ∈ k.operators) : t.isStop = false := by
  unfold Token.isStop
  cases kind : t.kind with
  | stop =>
    rw [kind] at spelled
    cases k <;> exact absurd spelled (by decide)
  | _ => rfl

namespace Drafts

theorem opening (h : Drafts p w s) : p.Opening w := by
  induction h with
  | classes opening | functionDeclaration opening | variableDeclaration opening =>
    exact ⟨_, _, rfl, by rw [opening]; rfl⟩
  | statement _ ih =>
    obtain ⟨t, more, same, opening, _⟩ := ih
    exact ⟨t, more, same, by simp [opensDeclaration, opening]⟩
  | function named => exact ⟨_, _, rfl, named⟩
  | routine left => exact ⟨_, _, rfl, left⟩
  | lastName named => exact ⟨_, _, rfl, named⟩
  | names named => exact ⟨_, _, rfl, named⟩
  | sentenceStatement _ ih => exact ih.mono opensStatement_of_expression
  | forStatement opening | ifStatement opening | ifElseStatement opening | printStatement opening
  | returnStatement opening | whileStatement opening | breakStatement opening
  | blockStatement opening => exact .of_kind opening rfl (by simp)
  | sentence _ _ ih => exact ih.append _
  | expression _ ih => exact ih
  | assignment _ _ _ ih _ => exact ih.append _
  | rank _ _ ih _ => exact ((Part.opening_operand _ _ _).mp ih).append _
  | unary spelled =>
    simp only [List.mem_cons, List.not_mem_nil, or_false] at spelled
    rcases spelled with bang | minus
    · exact .of_kind bang rfl (by simp)
    · exact .of_kind minus rfl (by simp)
  | plainUnary _ ih => exact ih
  | call _ _ ih _ => exact ih.append _
  | lastExpression _ ih => exact ih
  | expressions _ _ _ ih _ => exact ih.append _
  | number spelled | string spelled | trueWord spelled | falseWord spelled | nilWord spelled | thisWord spelled
  | name spelled | grouping spelled => exact .of_kind spelled rfl (by simp)
  | lambda opening _ ih =>
    obtain ⟨open_, more, rfl, left⟩ := ih
    exact ⟨_, _, rfl, by rw [opening]; rfl, fun _ => ⟨open_, more, rfl, left⟩⟩
  | _ => trivial

theorem soft (h : Drafts p w s) : Soft s := by
  induction h with
  | lastName => exact .surplus _ _ _
  | names _ _ _ ih => exact .append (.surplus _ _ _) ih
  | lastExpression _ ih => exact .append (.surplus _ _ _) ih
  | expressions _ _ _ ih ih' => exact .append (.surplus _ _ _) (.append ih ih')
  | assignment _ _ _ ih ih' => exact .append ih (.append ih' (.stray _ _))
  | forStatement _ _ _ _ _ _ _ _ a b c d => exact .append a (.append b (.append c d))
  | ifElseStatement _ _ _ _ _ _ _ a b c => exact .append a (.append b c)
  | _ => simp_all [Soft.nil, Soft.append]

-- No end stands inside.
theorem unstopped (h : Drafts p w s) : ∀ t ∈ w, t.isStop = false := by
  induction h with
  | further spelled _ _ ih ih' =>
    have word := Rank.operator_unstopped spelled
    simp_all [or_imp]
  | unary spelled =>
    simp only [List.mem_cons, List.not_mem_nil, or_false] at spelled
    rcases spelled with bang | minus
    · simp_all [Token.isStop]
    · simp_all [Token.isStop]
  | _ => simp_all [Token.isStop, or_imp]

-- A call is an expression of every rank.
theorem rank_of_operand {k : Rank} (h : Drafts (.operand k target) w s) : Drafts (.rank k target) w s := by
  simpa using Drafts.rank h .noFurther

theorem rank_of_call (h : Drafts (.call target) w s) (k : Rank) : Drafts (.rank k target) w s := by
  have product : Drafts (.rank .product target) w s := rank_of_operand (.plainUnary h)
  have sum : Drafts (.rank .sum target) w s := rank_of_operand product
  have comparison : Drafts (.rank .comparison target) w s := rank_of_operand sum
  have equality : Drafts (.rank .equality target) w s := rank_of_operand comparison
  have conjunction : Drafts (.rank .conjunction target) w s := rank_of_operand equality
  cases k with
  | disjunction => exact rank_of_operand conjunction
  | conjunction => exact conjunction
  | equality => exact equality
  | comparison => exact comparison
  | sum => exact sum
  | product => exact product

theorem call_of_primary (h : Drafts (.primary target) w s) : Drafts (.call target) w s := by
  simpa using Drafts.call h .noSuffixes

theorem expression_of_primary (h : Drafts (.primary target) w s) : Drafts .expression w s :=
  .expression (rank_of_call (call_of_primary h) .disjunction)

-- An else behind a hungry statement belongs to one of its conditionals.
theorem fed {otherwise : Token} (h : Drafts p v s) (hungry : p = .statement true)
    (middle : otherwise.kind = .keyword .elseWord) (other : Drafts (.statement more) w t) :
    ∃ still, Drafts (.statement still) (v ++ otherwise :: w) (s ++ t) := by
  induction h with
  | forStatement opening left first test stop last right _ _ _ _ ih =>
    obtain ⟨still, inner⟩ := ih hungry
    exact ⟨still, by simpa using Drafts.forStatement opening left first test stop last right inner⟩
  | @ifStatement _ _ innerHungry _ _ _ _ _ opening left test right inner _ ih =>
    cases innerHungry with
    | true =>
      obtain ⟨still, inner⟩ := ih rfl
      exact ⟨true, by simpa using Drafts.ifStatement opening left test right inner⟩
    | false => exact ⟨more, by simpa using Drafts.ifElseStatement opening left test right inner middle other⟩
  | ifElseStatement opening left test right yes middle _ _ _ ih =>
    obtain ⟨still, inner⟩ := ih hungry
    exact ⟨still, by simpa using Drafts.ifElseStatement opening left test right yes middle inner⟩
  | whileStatement opening left test right _ _ ih =>
    obtain ⟨still, inner⟩ := ih hungry
    exact ⟨still, by simpa using Drafts.whileStatement opening left test right inner⟩
  | _ => cases hungry

end Drafts

end ScopeScript
