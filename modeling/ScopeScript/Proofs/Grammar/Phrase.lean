import ScopeScript.Grammar.Tree

namespace ScopeScript

-- The ranks of binary operators in the grammar, from the weakest binding to the strongest.
inductive Rank where
  | disjunction | conjunction | equality | comparison | sum | product

def Rank.operators : Rank → List TokenKind
  | disjunction => [.keyword .orWord]
  | conjunction => [.keyword .andWord]
  | equality => [.mark .bangEqual, .mark .equalEqual]
  | comparison => [.mark .greater, .mark .greaterEqual, .mark .less, .mark .lessEqual]
  | sum => [.mark .minus, .mark .plus]
  | product => [.mark .slash, .mark .star]

def Rank.node : Rank → Expr → Token → Expr → Expr
  | disjunction, left, operator, right => .logical left operator right
  | conjunction, left, operator, right => .logical left operator right
  | _, left, operator, right => .binary left operator right

-- A nonterminal of the grammar with the tree built for it. Repetitions that build a tree from the
-- left carry the tree before and the tree after.
inductive Phrase where
  | declarations (tree : List Stmt)
  | declaration (tree : Stmt)
  | functions (tree : List Routine)
  | function (tree : Routine)
  -- What stands behind the head of a function, method or lambda.
  | routine (tree : Routine)
  | parameters (tree : List Token)
  | names (tree : List Token)
  | variable (tree : Stmt)
  -- A hungry statement ends in a conditional that an else right behind it would belong to.
  | statement (hungry : Bool) (tree : Stmt)
  | sentence (tree : Stmt)
  | firstClause (tree : Option Stmt)
  | optional (tree : Option Expr)
  | expression (tree : Expr)
  | rank (k : Rank) (tree : Expr)
  | further (k : Rank) (before after : Expr)
  | unary (tree : Expr)
  | call (tree : Expr)
  | suffixes (before after : Expr)
  | values (tree : List Expr)
  | expressions (tree : List Expr)
  | primary (tree : Expr)

-- Operands of a rank: the next stronger rank, behind the last one the unary operators.
def Phrase.operand : Rank → Expr → Phrase
  | .disjunction => .rank .conjunction
  | .conjunction => .rank .equality
  | .equality => .rank .comparison
  | .comparison => .rank .sum
  | .sum => .rank .product
  | .product => .unary

-- { first; while (condition) { body; step } } with what is absent left out.
def spelledLoop : Option Stmt → Option Expr → Option Expr → Stmt → Stmt
  | none, condition, none, body => .loop (condition.getD (.literal .true)) body
  | none, condition, some step, body =>
    .loop (condition.getD (.literal .true)) (.block [body, .expression step])
  | some first, condition, none, body =>
    .block [first, .loop (condition.getD (.literal .true)) body]
  | some first, condition, some step, body =>
    .block [first, .loop (condition.getD (.literal .true)) (.block [body, .expression step])]

-- The grammar. Ids of references are free: a derivation says nothing about them.
inductive Derives : Phrase → List Token → Prop where
  -- program → declaration*
  | noDeclarations : Derives (.declarations []) []
  | declarations (first : Derives (.declaration s) v) (others : Derives (.declarations rest) w) :
      Derives (.declarations (s :: rest)) (v ++ w)
  -- declaration → classDecl | funDecl | varDecl | statement
  | classes (opening : keyword.kind = .keyword .classWord) (named : name.kind = .identifier)
      (left : open_.kind = .mark .leftBrace) (inner : Derives (.functions rs) w)
      (right : close.kind = .mark .rightBrace) :
      Derives (.declaration (.classes name rs)) (keyword :: name :: open_ :: (w ++ [close]))
  | functionDeclaration (opening : keyword.kind = .keyword .funWord)
      (inner : Derives (.function r) w) : Derives (.declaration (.function r)) (keyword :: w)
  | variableDeclaration (opening : keyword.kind = .keyword .varWord)
      (inner : Derives (.variable s) w) : Derives (.declaration s) (keyword :: w)
  | statement (inner : Derives (.statement hungry s) w) : Derives (.declaration s) w
  -- function* and function → IDENT routine
  | noFunctions : Derives (.functions []) []
  | functions (first : Derives (.function r) v) (others : Derives (.functions rest) w) :
      Derives (.functions (r :: rest)) (v ++ w)
  | function (named : name.kind = .identifier) (inner : Derives (.routine (.mk name ps body)) w) :
      Derives (.function (.mk name ps body)) (name :: w)
  -- routine → "(" parameters? ")" "{" declaration* "}"
  | routine (left : open_.kind = .mark .leftParen) (names : Derives (.parameters ps) v)
      (right : close.kind = .mark .rightParen) (start : brace.kind = .mark .leftBrace)
      (inner : Derives (.declarations body) w) (stop : unbrace.kind = .mark .rightBrace) :
      Derives (.routine (.mk head ps body))
        (open_ :: (v ++ close :: brace :: (w ++ [unbrace])))
  | noParameters : Derives (.parameters []) []
  | parameters (inner : Derives (.names ps) w) (few : ps.length ≤ 255) : Derives (.parameters ps) w
  -- names → IDENT ( "," IDENT )*
  | lastName (named : name.kind = .identifier) : Derives (.names [name]) [name]
  | names (named : name.kind = .identifier) (comma : sep.kind = .mark .comma)
      (others : Derives (.names ps) w) : Derives (.names (name :: ps)) (name :: sep :: w)
  -- variable → IDENT ( "=" expression )? ";"
  | plainVariable (named : name.kind = .identifier) (stop : semicolon.kind = .mark .semicolon) :
      Derives (.variable (.var name none)) [name, semicolon]
  | filledVariable (named : name.kind = .identifier) (equal : equals.kind = .mark .equal)
      (initial : Derives (.expression e) w) (stop : semicolon.kind = .mark .semicolon) :
      Derives (.variable (.var name (some e))) (name :: equals :: (w ++ [semicolon]))
  -- statement → exprStmt | forStmt | ifStmt | printStmt | returnStmt | whileStmt | breakStmt | block
  | sentenceStatement (inner : Derives (.sentence s) w) : Derives (.statement false s) w
  | forStatement (opening : keyword.kind = .keyword .forWord) (left : open_.kind = .mark .leftParen)
      (first : Derives (.firstClause initial) u) (test : Derives (.optional condition) v)
      (stop : semicolon.kind = .mark .semicolon) (last : Derives (.optional step) w)
      (right : close.kind = .mark .rightParen) (inner : Derives (.statement hungry body) x) :
      Derives (.statement hungry (spelledLoop initial condition step body))
        (keyword :: open_ :: (u ++ (v ++ semicolon :: (w ++ close :: x))))
  | ifStatement (opening : keyword.kind = .keyword .ifWord) (left : open_.kind = .mark .leftParen)
      (test : Derives (.expression condition) v) (right : close.kind = .mark .rightParen)
      (inner : Derives (.statement hungry yes) w) :
      Derives (.statement true (.branch condition yes none))
        (keyword :: open_ :: (v ++ close :: w))
  -- An else belongs to the nearest if: what stands before it is not hungry.
  | ifElseStatement (opening : keyword.kind = .keyword .ifWord)
      (left : open_.kind = .mark .leftParen) (test : Derives (.expression condition) u)
      (right : close.kind = .mark .rightParen) (inner : Derives (.statement false yes) v)
      (middle : otherwise.kind = .keyword .elseWord) (other : Derives (.statement hungry no) w) :
      Derives (.statement hungry (.branch condition yes (some no)))
        (keyword :: open_ :: (u ++ close :: (v ++ otherwise :: w)))
  | printStatement (opening : keyword.kind = .keyword .printWord)
      (inner : Derives (.expression e) w) (stop : semicolon.kind = .mark .semicolon) :
      Derives (.statement false (.print keyword e)) (keyword :: (w ++ [semicolon]))
  | returnStatement (opening : keyword.kind = .keyword .returnWord)
      (inner : Derives (.optional e) w) (stop : semicolon.kind = .mark .semicolon) :
      Derives (.statement false (.giveBack keyword e)) (keyword :: (w ++ [semicolon]))
  | whileStatement (opening : keyword.kind = .keyword .whileWord)
      (left : open_.kind = .mark .leftParen) (test : Derives (.expression condition) v)
      (right : close.kind = .mark .rightParen) (inner : Derives (.statement hungry body) w) :
      Derives (.statement hungry (.loop condition body)) (keyword :: open_ :: (v ++ close :: w))
  | breakStatement (opening : keyword.kind = .keyword .breakWord)
      (stop : semicolon.kind = .mark .semicolon) :
      Derives (.statement false (.leave keyword)) [keyword, semicolon]
  | blockStatement (start : brace.kind = .mark .leftBrace) (inner : Derives (.declarations body) w)
      (stop : unbrace.kind = .mark .rightBrace) :
      Derives (.statement false (.block body)) (brace :: (w ++ [unbrace]))
  -- sentence → expression ";"
  | sentence (inner : Derives (.expression e) w) (stop : semicolon.kind = .mark .semicolon) :
      Derives (.sentence (.expression e)) (w ++ [semicolon])
  -- firstClause → varDecl | exprStmt | ";"
  | noClause (stop : semicolon.kind = .mark .semicolon) :
      Derives (.firstClause none) [semicolon]
  | variableClause (opening : keyword.kind = .keyword .varWord) (inner : Derives (.variable s) w) :
      Derives (.firstClause (some s)) (keyword :: w)
  | sentenceClause (inner : Derives (.sentence s) w) : Derives (.firstClause (some s)) w
  -- expression?
  | absent : Derives (.optional none) []
  | present (inner : Derives (.expression e) w) : Derives (.optional (some e)) w
  -- expression → ( call "." )? IDENT "=" expression | logic_or
  | assignVariable (named : name.kind = .identifier) (equal : equals.kind = .mark .equal)
      (value : Derives (.expression e) w) :
      Derives (.expression (.assign i name e)) (name :: equals :: w)
  | assignProperty (target : Derives (.call object) v) (point : dot.kind = .mark .dot)
      (named : name.kind = .identifier) (equal : equals.kind = .mark .equal)
      (value : Derives (.expression e) w) :
      Derives (.expression (.set object name e)) (v ++ dot :: name :: equals :: w)
  | expression (inner : Derives (.rank .disjunction e) w) : Derives (.expression e) w
  -- Every rank → operand ( operator operand )*, built from the left.
  | rank (first : Derives (.operand k left) v) (others : Derives (.further k left e) w) :
      Derives (.rank k e) (v ++ w)
  | noFurther : Derives (.further k e e) []
  | further (spelled : operator.kind ∈ k.operators) (next : Derives (.operand k right) v)
      (others : Derives (.further k (k.node left operator right) e) w) :
      Derives (.further k left e) (operator :: (v ++ w))
  -- unary → ( "!" | "-" ) unary | call
  | unary (spelled : operator.kind ∈ [.mark .bang, .mark .minus]) (inner : Derives (.unary e) w) :
      Derives (.unary (.unary operator e)) (operator :: w)
  | plainUnary (inner : Derives (.call e) w) : Derives (.unary e) w
  -- call → primary ( "(" arguments? ")" | "." IDENT )*
  | call (first : Derives (.primary before) v) (others : Derives (.suffixes before e) w) :
      Derives (.call e) (v ++ w)
  | noSuffixes : Derives (.suffixes e e) []
  | callSuffix (left : open_.kind = .mark .leftParen) (inner : Derives (.values es) v)
      (right : close.kind = .mark .rightParen)
      (others : Derives (.suffixes (.call before close es) e) w) :
      Derives (.suffixes before e) (open_ :: (v ++ close :: w))
  | getSuffix (point : dot.kind = .mark .dot) (named : name.kind = .identifier)
      (others : Derives (.suffixes (.get before name) e) w) :
      Derives (.suffixes before e) (dot :: name :: w)
  | noValues : Derives (.values []) []
  | values (inner : Derives (.expressions es) w) (few : es.length ≤ 255) : Derives (.values es) w
  -- arguments → expression ( "," expression )*
  | lastExpression (inner : Derives (.expression e) w) : Derives (.expressions [e]) w
  | expressions (inner : Derives (.expression e) v) (comma : sep.kind = .mark .comma)
      (others : Derives (.expressions es) w) : Derives (.expressions (e :: es)) (v ++ sep :: w)
  -- primary → NUMBER | STRING | "true" | "false" | "nil" | "this" | IDENT | "(" expression ")"
  --         | "fun" routine
  | number (spelled : t.kind = .number x) : Derives (.primary (.literal (.number x))) [t]
  | string (spelled : t.kind = .string text) : Derives (.primary (.literal (.string text))) [t]
  | true (spelled : t.kind = .keyword .trueWord) : Derives (.primary (.literal .true)) [t]
  | false (spelled : t.kind = .keyword .falseWord) : Derives (.primary (.literal .false)) [t]
  | nil (spelled : t.kind = .keyword .nilWord) : Derives (.primary (.literal .nil)) [t]
  | this (spelled : t.kind = .keyword .thisWord) : Derives (.primary (.this i t)) [t]
  | name (named : t.kind = .identifier) : Derives (.primary (.variable i t)) [t]
  | grouping (left : open_.kind = .mark .leftParen) (inner : Derives (.expression e) w)
      (right : close.kind = .mark .rightParen) :
      Derives (.primary (.grouping e)) (open_ :: (w ++ [close]))
  | lambda (opening : keyword.kind = .keyword .funWord)
      (inner : Derives (.routine (.mk keyword ps body)) w) :
      Derives (.primary (.lambda (.mk keyword ps body))) (keyword :: w)

-- Trees with every id of a reference wiped out.
mutual

def Expr.anonymous : Expr → Expr
  | .literal value => .literal value
  | .grouping inner => .grouping inner.anonymous
  | .unary operator operand => .unary operator operand.anonymous
  | .binary left operator right => .binary left.anonymous operator right.anonymous
  | .logical left operator right => .logical left.anonymous operator right.anonymous
  | .variable _ name => .variable 0 name
  | .assign _ name value => .assign 0 name value.anonymous
  | .call callee close arguments => .call callee.anonymous close (Expr.anonymousAll arguments)
  | .lambda routine => .lambda routine.anonymous
  | .get object name => .get object.anonymous name
  | .set object name value => .set object.anonymous name value.anonymous
  | .this _ keyword => .this 0 keyword

def Expr.anonymousAll : List Expr → List Expr
  | [] => []
  | e :: rest => e.anonymous :: Expr.anonymousAll rest

def Stmt.anonymous : Stmt → Stmt
  | .expression value => .expression value.anonymous
  | .print keyword value => .print keyword value.anonymous
  | .var name none => .var name none
  | .var name (some initial) => .var name (some initial.anonymous)
  | .block body => .block (Stmt.anonymousAll body)
  | .branch condition yes none => .branch condition.anonymous yes.anonymous none
  | .branch condition yes (some no) =>
    .branch condition.anonymous yes.anonymous (some no.anonymous)
  | .loop condition body => .loop condition.anonymous body.anonymous
  | .leave keyword => .leave keyword
  | .function routine => .function routine.anonymous
  | .giveBack keyword none => .giveBack keyword none
  | .giveBack keyword (some value) => .giveBack keyword (some value.anonymous)
  | .classes name methods => .classes name (Routine.anonymousAll methods)

def Stmt.anonymousAll : List Stmt → List Stmt
  | [] => []
  | s :: rest => s.anonymous :: Stmt.anonymousAll rest

def Routine.anonymous : Routine → Routine
  | .mk head parameters body => .mk head parameters (Stmt.anonymousAll body)

def Routine.anonymousAll : List Routine → List Routine
  | [] => []
  | r :: rest => r.anonymous :: Routine.anonymousAll rest

end

end ScopeScript
