import Mathlib.Data.List.Basic
import ScopeScript.Proofs.Grammar.Exact

namespace ScopeScript

-- Trees written back in concrete syntax. A token that a tree keeps stands for itself, every other
-- one is spelled anew. Parentheses come from groupings alone: none is added for precedence. A for
-- loop was read as a block and a while loop and is written as these.

def Mark.token (m : Mark) : Token := ⟨.mark m, m.spelling, .start⟩

def Keyword.token (k : Keyword) : Token := ⟨.keyword k, k.spelling, .start⟩

def Literal.token : Literal → Token
  | .number x => ⟨.number x, Decimal.withPoint x, .start⟩
  | .string s => ⟨.string s, "\x22" ++ s ++ "\x22", .start⟩
  | .true => Keyword.trueWord.token
  | .false => Keyword.falseWord.token
  | .nil => Keyword.nilWord.token

mutual

def Expr.unparse : Expr → List Token
  | .literal value => [value.token]
  | .grouping inner => Mark.leftParen.token :: (inner.unparse ++ [Mark.rightParen.token])
  | .unary operator operand => operator :: operand.unparse
  | .binary left operator right => left.unparse ++ operator :: right.unparse
  | .logical left operator right => left.unparse ++ operator :: right.unparse
  | .variable _ name => [name]
  | .assign _ name value => name :: Mark.equal.token :: value.unparse
  | .call callee close arguments =>
    callee.unparse ++ Mark.leftParen.token :: (Expr.unparseAll arguments ++ [close])
  | .lambda routine => routine.head :: routine.unparse
  | .get object name => object.unparse ++ [Mark.dot.token, name]
  | .set object name value =>
    object.unparse ++ Mark.dot.token :: name :: Mark.equal.token :: value.unparse
  | .this _ keyword => [keyword]

-- Expressions apart by commas.
def Expr.unparseAll : List Expr → List Token
  | [] => []
  | e :: rest =>
    e.unparse ++ if rest.isEmpty then [] else Mark.comma.token :: Expr.unparseAll rest

def Stmt.unparse : Stmt → List Token
  | .expression value => value.unparse ++ [Mark.semicolon.token]
  | .print keyword value => keyword :: (value.unparse ++ [Mark.semicolon.token])
  | .var name none => [Keyword.varWord.token, name, Mark.semicolon.token]
  | .var name (some initial) =>
    Keyword.varWord.token :: name :: Mark.equal.token :: (initial.unparse ++ [Mark.semicolon.token])
  | .block body => Mark.leftBrace.token :: (Stmt.unparseAll body ++ [Mark.rightBrace.token])
  | .branch condition yes none =>
    Keyword.ifWord.token :: Mark.leftParen.token ::
      (condition.unparse ++ Mark.rightParen.token :: yes.unparse)
  | .branch condition yes (some no) =>
    Keyword.ifWord.token :: Mark.leftParen.token :: (condition.unparse ++ Mark.rightParen.token ::
      (yes.unparse ++ Keyword.elseWord.token :: no.unparse))
  | .loop condition body =>
    Keyword.whileWord.token :: Mark.leftParen.token ::
      (condition.unparse ++ Mark.rightParen.token :: body.unparse)
  | .leave keyword => [keyword, Mark.semicolon.token]
  | .function routine => Keyword.funWord.token :: routine.head :: routine.unparse
  | .giveBack keyword none => [keyword, Mark.semicolon.token]
  | .giveBack keyword (some value) => keyword :: (value.unparse ++ [Mark.semicolon.token])
  | .classes name methods =>
    Keyword.classWord.token :: name :: Mark.leftBrace.token ::
      (Routine.unparseAll methods ++ [Mark.rightBrace.token])

def Stmt.unparseAll : List Stmt → List Token
  | [] => []
  | s :: rest => s.unparse ++ Stmt.unparseAll rest

-- Parameters and body. The head stands in front of them.
def Routine.unparse : Routine → List Token
  | .mk _ parameters body =>
    Mark.leftParen.token :: (parameters.intersperse Mark.comma.token ++ Mark.rightParen.token ::
      Mark.leftBrace.token :: (Stmt.unparseAll body ++ [Mark.rightBrace.token]))

def Routine.unparseAll : List Routine → List Token
  | [] => []
  | r :: rest => (r.head :: r.unparse) ++ Routine.unparseAll rest

end

-- What the grammar derives it derives from the tree's own tokens too. A repetition adds its own
-- tokens behind those of the tree before it. Loops written as blocks may be less hungry than the
-- source, never more.
def Phrase.Unparses : Phrase → Prop
  | .declarations ss => Derives (.declarations ss) (Stmt.unparseAll ss)
  | .declaration s => Derives (.declaration s) s.unparse
  | .functions rs => Derives (.functions rs) (Routine.unparseAll rs)
  | .function r => Derives (.function r) (r.head :: r.unparse)
  | .routine r => Derives (.routine r) r.unparse
  | .parameters ps => Derives (.parameters ps) (ps.intersperse Mark.comma.token)
  | .names ps => Derives (.names ps) (ps.intersperse Mark.comma.token) ∧ ps ≠ []
  | .variable s => ∃ w, s.unparse = Keyword.varWord.token :: w ∧ Derives (.variable s) w
  | .statement hungry s =>
    ∃ left, (left = true → hungry = true) ∧ Derives (.statement left s) s.unparse
  | .sentence s => Derives (.sentence s) s.unparse
  | .firstClause o => ∀ s ∈ o, Derives (.declaration s) s.unparse
  | .optional o => ∀ e ∈ o, Derives (.expression e) e.unparse
  | .expression e => Derives (.expression e) e.unparse
  | .rank k e => Derives (.rank k e) e.unparse
  | .further k before after => ∃ w, after.unparse = before.unparse ++ w ∧ Derives (.further k before after) w
  | .unary e => Derives (.unary e) e.unparse
  | .call e => Derives (.call e) e.unparse
  | .suffixes before after => ∃ w, after.unparse = before.unparse ++ w ∧ Derives (.suffixes before after) w
  | .values es => Derives (.values es) (Expr.unparseAll es)
  | .expressions es => Derives (.expressions es) (Expr.unparseAll es) ∧ es ≠ []
  | .primary e => Derives (.primary e) e.unparse

theorem Phrase.unparses_operand (k : Rank) (e : Expr) :
    (Phrase.operand k e).Unparses ↔ Derives (Phrase.operand k e) e.unparse := by
  cases k <;> rfl

theorem Rank.node_unparse (k : Rank) (left : Expr) (operator : Token) (right : Expr) :
    (k.node left operator right).unparse = left.unparse ++ operator :: right.unparse := by
  cases k <;> simp only [Rank.node, Expr.unparse]

-- The loop that stands for a for loop. Only the body can make it hungry.
theorem spelledLoop_unparsed_alone {condition : Option Expr} {step : Option Expr} {body : Stmt} {left : Bool}
    (test : (Phrase.optional condition).Unparses) (last : (Phrase.optional step).Unparses)
    (inner : Derives (.statement left body) body.unparse) :
    ∃ kept, (kept = true → left = true) ∧ Derives (.statement kept (spelledLoop none condition step body))
      (spelledLoop none condition step body).unparse := by
  have asked : Derives (.expression (condition.getD (.literal .true))) (condition.getD (.literal .true)).unparse := by
    cases condition with
    | none => exact .expression (.rank_of_call (.call (v := [_]) (w := []) (.true rfl) .noSuffixes))
    | some e => exact test e rfl
  cases step with
  | none =>
    simp only [spelledLoop, Stmt.unparse]
    exact ⟨left, id, .whileStatement rfl rfl asked rfl inner⟩
  | some step =>
    have sentence : Derives (.statement false (.expression step)) (Stmt.expression step).unparse := by
      rw [Stmt.unparse]
      exact .sentenceStatement (.sentence (last step rfl) rfl)
    have turn : Derives (.statement false (.block [body, .expression step]))
        (Stmt.block [body, .expression step]).unparse := by
      rw [Stmt.unparse]
      exact .blockStatement rfl (.declarations (.statement inner)
        (.declarations (.statement sentence) .noDeclarations)) rfl
    refine ⟨false, fun hungry => absurd hungry Bool.false_ne_true, ?_⟩
    rw [spelledLoop, Stmt.unparse]
    exact .whileStatement rfl rfl asked rfl turn

theorem spelledLoop_unparsed {initial : Option Stmt} {condition step : Option Expr} {body : Stmt} {hungry : Bool}
    (first : (Phrase.firstClause initial).Unparses) (test : (Phrase.optional condition).Unparses)
    (last : (Phrase.optional step).Unparses) (inner : (Phrase.statement hungry body).Unparses) :
    (Phrase.statement hungry (spelledLoop initial condition step body)).Unparses := by
  obtain ⟨left, fewer, derived⟩ := inner
  obtain ⟨kept, fewer', loop⟩ := spelledLoop_unparsed_alone test last derived
  cases initial with
  | none => exact ⟨kept, fewer ∘ fewer', loop⟩
  | some s =>
    have behind : spelledLoop (some s) condition step body = .block [s, spelledLoop none condition step body] := by
      cases step <;> rfl
    refine ⟨false, fun hungry => absurd hungry Bool.false_ne_true, ?_⟩
    rw [behind, Stmt.unparse]
    exact .blockStatement rfl (.declarations (first s rfl)
      (.declarations (.statement loop) .noDeclarations)) rfl

theorem Phrase.unparses_of_derives (h : Derives p w) : p.Unparses := by
  induction h with
  | noDeclarations => exact .noDeclarations
  | declarations _ _ first others => exact .declarations first others
  | classes opening named left _ right inner => exact .classes rfl named rfl inner rfl
  | functionDeclaration opening _ inner => exact .functionDeclaration rfl inner
  | variableDeclaration opening _ inner =>
    obtain ⟨w, same, derived⟩ := inner
    rw [Phrase.Unparses, same]
    exact .variableDeclaration rfl derived
  | statement _ inner =>
    obtain ⟨left, _, derived⟩ := inner
    exact .statement derived
  | noFunctions => exact .noFunctions
  | functions _ _ first others => exact .functions first others
  | function named _ inner => exact .function named inner
  | routine _ _ _ _ _ _ names inner => exact .routine rfl names rfl rfl inner rfl
  | noParameters => exact .noParameters
  | parameters _ few inner => exact .parameters inner.1 few
  | lastName named => exact ⟨.lastName named, nofun⟩
  | @names name sep ps w named comma _ others =>
    obtain ⟨derived, some⟩ := others
    obtain ⟨first, rest, rfl⟩ := List.exists_cons_of_ne_nil some
    exact ⟨.names named rfl derived, nofun⟩
  | plainVariable named stop => exact ⟨_, rfl, .plainVariable named rfl⟩
  | filledVariable named equal _ stop initial =>
    exact ⟨_, by rw [Stmt.unparse], .filledVariable named rfl initial rfl⟩
  | sentenceStatement _ inner => exact ⟨false, id, .sentenceStatement inner⟩
  | forStatement _ _ _ _ _ _ _ _ first test last inner => exact spelledLoop_unparsed first test last inner
  | ifStatement _ _ _ _ _ test inner =>
    obtain ⟨left, _, derived⟩ := inner
    refine ⟨true, id, ?_⟩
    rw [Stmt.unparse]
    exact .ifStatement rfl rfl test rfl derived
  | ifElseStatement _ _ _ _ _ _ _ test inner other =>
    obtain ⟨left, fewer, derived⟩ := inner
    obtain ⟨kept, fewer', last⟩ := other
    have sated : left = false := Bool.eq_false_iff.mpr fun hungry => nomatch fewer hungry
    subst sated
    refine ⟨kept, fewer', ?_⟩
    rw [Stmt.unparse]
    exact .ifElseStatement rfl rfl test rfl derived rfl last
  | printStatement opening _ _ inner =>
    refine ⟨false, id, ?_⟩
    rw [Stmt.unparse]
    exact .printStatement opening inner rfl
  | @returnStatement o _ _ _ opening _ _ inner =>
    refine ⟨false, id, ?_⟩
    cases o with
    | none => exact .returnStatement (w := []) opening .absent rfl
    | some e =>
      rw [Stmt.unparse]
      exact .returnStatement opening (.present (inner e rfl)) rfl
  | whileStatement _ _ _ _ _ test inner =>
    obtain ⟨left, fewer, derived⟩ := inner
    refine ⟨left, fewer, ?_⟩
    rw [Stmt.unparse]
    exact .whileStatement rfl rfl test rfl derived
  | breakStatement opening stop => exact ⟨false, id, .breakStatement opening rfl⟩
  | blockStatement _ _ _ inner =>
    refine ⟨false, id, ?_⟩
    rw [Stmt.unparse]
    exact .blockStatement rfl inner rfl
  | sentence _ _ inner =>
    rw [Phrase.Unparses, Stmt.unparse]
    exact .sentence inner rfl
  | noClause => exact nofun
  | variableClause _ _ inner =>
    rintro s ⟨⟩
    obtain ⟨w, same, derived⟩ := inner
    rw [same]
    exact .variableDeclaration rfl derived
  | sentenceClause _ inner =>
    rintro s ⟨⟩
    exact .statement (.sentenceStatement inner)
  | absent => exact nofun
  | present _ inner =>
    rintro e ⟨⟩
    exact inner
  | assignVariable named _ _ value =>
    rw [Phrase.Unparses, Expr.unparse]
    exact .assignVariable named rfl value
  | assignProperty _ _ named _ _ target value =>
    rw [Phrase.Unparses, Expr.unparse]
    exact .assignProperty target rfl named rfl value
  | expression _ inner => exact .expression inner
  | rank _ _ first others =>
    obtain ⟨w, same, derived⟩ := others
    rw [Phrase.Unparses, same]
    exact .rank ((Phrase.unparses_operand _ _).mp first) derived
  | noFurther => exact ⟨[], (List.append_nil _).symm, .noFurther⟩
  | further spelled _ _ next others =>
    obtain ⟨w, same, derived⟩ := others
    rw [Rank.node_unparse, List.append_assoc] at same
    exact ⟨_, same, .further spelled ((Phrase.unparses_operand _ _).mp next) derived⟩
  | unary spelled _ inner =>
    rw [Phrase.Unparses, Expr.unparse]
    exact .unary spelled inner
  | plainUnary _ inner => exact .plainUnary inner
  | call _ _ first others =>
    obtain ⟨w, same, derived⟩ := others
    rw [Phrase.Unparses, same]
    exact .call first derived
  | noSuffixes => exact ⟨[], (List.append_nil _).symm, .noSuffixes⟩
  | callSuffix _ _ right _ inner others =>
    obtain ⟨w, same, derived⟩ := others
    rw [Expr.unparse, List.append_assoc, List.cons_append, List.append_assoc, List.singleton_append] at same
    exact ⟨_, same, .callSuffix rfl inner right derived⟩
  | getSuffix _ named _ others =>
    obtain ⟨w, same, derived⟩ := others
    rw [Expr.unparse, List.append_assoc] at same
    exact ⟨_, same, .getSuffix rfl named derived⟩
  | noValues => exact .noValues
  | values _ few inner => exact .values inner.1 few
  | lastExpression _ inner =>
    refine ⟨?_, nofun⟩
    rw [Expr.unparseAll, List.isEmpty_nil, if_pos rfl, List.append_nil]
    exact .lastExpression inner
  | expressions _ _ _ first others =>
    obtain ⟨derived, some⟩ := others
    refine ⟨?_, nofun⟩
    rw [Expr.unparseAll, if_neg (by simpa using some)]
    exact .expressions first rfl derived
  | number _ => exact .number rfl
  | string _ => exact .string rfl
  | true _ => exact .true rfl
  | false _ => exact .false rfl
  | nil _ => exact .nil rfl
  | this spelled => exact .this spelled
  | name named => exact .name named
  | grouping _ _ _ inner =>
    rw [Phrase.Unparses, Expr.unparse]
    exact .grouping rfl inner rfl
  | lambda opening _ inner =>
    rw [Phrase.Unparses, Expr.unparse]
    exact .lambda opening inner

-- No phrase has the end inside.
theorem tokens_of_derives (h : Derives p w) : ∀ t ∈ w, t.isStop = false := by
  induction h with
  | @further k _ _ _ operator _ _ spelled _ _ ihNext ihOthers =>
    have other : operator.isStop = false := by
      cases k <;> simp only [Rank.operators, List.mem_cons, List.not_mem_nil, or_false] at spelled <;>
        grind [Token.isStop]
    simp_all [or_imp]
  | unary spelled _ ih =>
    simp only [List.mem_cons, List.not_mem_nil, or_false] at spelled
    rcases spelled with spelled | spelled <;> simp_all [Token.isStop]
  | _ => simp_all [Token.isStop, or_imp]

-- What a reader made of any tokens, written back with groupings as its only parentheses, reads as
-- the same tree again. Even the kept tokens are the same; only the ids of references are new.
theorem unparsed_reads_back (body : List Token) (stop : Token) (next anew : RefId)
    (inner : ∀ t ∈ body, t.isStop = false) (outer : stop.isStop = true) (program : List Stmt) (later : RefId)
    (read : readProgram (body ++ [stop]) next = (.ok program, later)) :
    (∀ t ∈ Stmt.unparseAll program, t.isStop = false) ∧
      ∃ again after, readProgram (Stmt.unparseAll program ++ [stop]) anew = (.ok again, after) ∧
        Stmt.anonymousAll again = Stmt.anonymousAll program := by
  have derived : Derives (.declarations program) (Stmt.unparseAll program) :=
    Phrase.unparses_of_derives (readProgram_derived inner outer read)
  have solid := tokens_of_derives derived
  exact ⟨solid, readProgram_of_derived solid outer anew derived⟩

-- for (;; a) if (a) a; else a;
section

def steppedLoop : List Token :=
  [.keyword .forWord, .mark .leftParen, .mark .semicolon, .mark .semicolon, .identifier, .mark .rightParen,
    .keyword .ifWord, .mark .leftParen, .identifier, .mark .rightParen, .identifier, .mark .semicolon,
    .keyword .elseWord, .identifier, .mark .semicolon].map bareToken

def steppedTree : List Stmt :=
  let a (i : RefId) := Expr.variable i (bareToken .identifier)
  [.loop (.literal .true)
    (.block [.branch (a 1) (.expression (a 2)) (some (.expression (a 3))), .expression (a 0)])]

theorem steppedLoop_read :
    readProgram (steppedLoop ++ [bareToken .stop]) 0 = (.ok steppedTree, 4) := by
  cbv

-- It is written back as while (true) { if (a) a; else a; a; } and read as such.
theorem unparsed_reads_back_steppedLoop :
    (Stmt.unparseAll steppedTree).map Token.kind =
      [.keyword .whileWord, .mark .leftParen, .keyword .trueWord, .mark .rightParen, .mark .leftBrace,
        .keyword .ifWord, .mark .leftParen, .identifier, .mark .rightParen, .identifier, .mark .semicolon,
        .keyword .elseWord, .identifier, .mark .semicolon, .identifier, .mark .semicolon, .mark .rightBrace] ∧
      ∃ again after,
        readProgram (Stmt.unparseAll steppedTree ++ [bareToken .stop]) 4 = (.ok again, after) ∧
        Stmt.anonymousAll again = Stmt.anonymousAll steppedTree :=
  ⟨rfl, (unparsed_reads_back steppedLoop (bareToken .stop) 0 4 (by decide) rfl steppedTree 4 steppedLoop_read).2⟩

end

end ScopeScript
