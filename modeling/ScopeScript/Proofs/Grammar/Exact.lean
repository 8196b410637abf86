import ScopeScript.Proofs.Grammar.Sound
import ScopeScript.Proofs.Grammar.Complete

namespace ScopeScript

open Reading

-- The readers of a program and of an expression against the grammar. The tokens are those in front
-- of the end, none of them an end, and the end token.

section

variable {body : List Token} {stop : Token}

theorem readProgram_derived (inner : ∀ t ∈ body, t.isStop = false) (outer : stop.isStop = true)
    (done : readProgram (body ++ [stop]) next = (.ok stmts, later)) :
    Derives (.declarations stmts) body := by
  unfold readProgram at done
  rw [ofTokens_ahead inner outer] at done
  obtain ⟨taken, rest, ahead, rfl, derived⟩ := finish_sound (declarations_sound _) rfl done
  rw [List.append_nil] at ahead
  rwa [show body = taken from ahead]

theorem readProgram_of_derived (inner : ∀ t ∈ body, t.isStop = false) (outer : stop.isStop = true)
    (next : RefId) (derived : Derives (.declarations tree) body) :
    ∃ stmts later, readProgram (body ++ [stop]) next = (.ok stmts, later) ∧
      Stmt.anonymousAll stmts = Stmt.anonymousAll tree := by
  have enough : 16 * body.length + 16 ≤ readingFuel (body ++ [stop]) := by
    simp only [readingFuel, List.length_append, List.length_cons, List.length_nil]
    omega
  unfold readProgram
  rw [ofTokens_ahead inner outer]
  exact finish_complete (declarations_complete derived enough) stop next

theorem readExpression_derived (inner : ∀ t ∈ body, t.isStop = false) (outer : stop.isStop = true)
    (done : readExpression (body ++ [stop]) next = (.ok e, later)) :
    Derives (.expression e) body := by
  unfold readExpression at done
  rw [ofTokens_ahead inner outer] at done
  obtain ⟨taken, rest, ahead, rfl, derived⟩ := finish_sound (wholeExpression_sound _) rfl done
  rw [List.append_nil] at ahead
  rwa [show body = taken from ahead]

theorem readExpression_of_derived (inner : ∀ t ∈ body, t.isStop = false) (outer : stop.isStop = true)
    (next : RefId) (derived : Derives (.expression tree) body) :
    ∃ e later, readExpression (body ++ [stop]) next = (.ok e, later) ∧ e.anonymous = tree.anonymous := by
  have enough : 16 * body.length ≤ readingFuel (body ++ [stop]) := by
    simp only [readingFuel, List.length_append, List.length_cons, List.length_nil]
    omega
  unfold readExpression
  rw [ofTokens_ahead inner outer]
  exact finish_complete (wholeExpression_complete derived enough) stop next

-- The tokens leave no choice of a tree but for the ids.

theorem declarations_unique (inner : ∀ t ∈ body, t.isStop = false) (derived : Derives (.declarations tree) body)
    (derived' : Derives (.declarations other) body) : Stmt.anonymousAll tree = Stmt.anonymousAll other := by
  have outer : (Token.mk .stop "" .start).isStop = true := rfl
  obtain ⟨stmts, later, read, same⟩ := readProgram_of_derived inner outer 0 derived
  obtain ⟨stmts', later', read', same'⟩ := readProgram_of_derived inner outer 0 derived'
  cases read.symm.trans read'
  exact same.symm.trans same'

theorem expression_unique {tree other : Expr} (inner : ∀ t ∈ body, t.isStop = false)
    (derived : Derives (.expression tree) body) (derived' : Derives (.expression other) body) :
    tree.anonymous = other.anonymous := by
  have outer : (Token.mk .stop "" .start).isStop = true := rfl
  obtain ⟨e, later, read, same⟩ := readExpression_of_derived inner outer 0 derived
  obtain ⟨e', later', read', same'⟩ := readExpression_of_derived inner outer 0 derived'
  cases read.symm.trans read'
  exact same.symm.trans same'

end

-- Both readers accept what the grammar derives and nothing else. What they build has a derivation,
-- and every derivation of the same tokens has the same tree up to ids.
theorem readers_exact (body : List Token) (stop : Token) (next : RefId)
    (inner : ∀ t ∈ body, t.isStop = false) (outer : stop.isStop = true) :
    ((∃ stmts later, readProgram (body ++ [stop]) next = (.ok stmts, later)) ↔
        ∃ tree, Derives (.declarations tree) body) ∧
      (∀ stmts later, readProgram (body ++ [stop]) next = (.ok stmts, later) →
        Derives (.declarations stmts) body ∧ ∀ tree, Derives (.declarations tree) body →
          Stmt.anonymousAll tree = Stmt.anonymousAll stmts) ∧
      ((∃ e later, readExpression (body ++ [stop]) next = (.ok e, later)) ↔
        ∃ tree, Derives (.expression tree) body) ∧
      (∀ e later, readExpression (body ++ [stop]) next = (.ok e, later) →
        Derives (.expression e) body ∧ ∀ tree, Derives (.expression tree) body →
          tree.anonymous = e.anonymous) := by
  refine ⟨⟨?_, ?_⟩, ?_, ⟨?_, ?_⟩, ?_⟩
  · rintro ⟨stmts, later, done⟩
    exact ⟨stmts, readProgram_derived inner outer done⟩
  · rintro ⟨tree, derived⟩
    obtain ⟨stmts, later, done, _⟩ := readProgram_of_derived inner outer next derived
    exact ⟨stmts, later, done⟩
  · intro stmts later done
    refine ⟨readProgram_derived inner outer done, fun tree derived => ?_⟩
    obtain ⟨others, after, again, same⟩ := readProgram_of_derived inner outer next derived
    rw [done] at again
    cases again
    exact same.symm
  · rintro ⟨e, later, done⟩
    exact ⟨e, readExpression_derived inner outer done⟩
  · rintro ⟨tree, derived⟩
    obtain ⟨e, later, done, _⟩ := readExpression_of_derived inner outer next derived
    exact ⟨e, later, done⟩
  · intro e later done
    refine ⟨readExpression_derived inner outer done, fun tree derived => ?_⟩
    obtain ⟨other, after, again, same⟩ := readExpression_of_derived inner outer next derived
    rw [done] at again
    cases again
    exact same.symm

-- if (a) if (a) a; else a;
section

def bareToken (kind : TokenKind) : Token := ⟨kind, "", .start⟩

def danglingElse : List Token :=
  [.keyword .ifWord, .mark .leftParen, .identifier, .mark .rightParen,
    .keyword .ifWord, .mark .leftParen, .identifier, .mark .rightParen,
    .identifier, .mark .semicolon, .keyword .elseWord, .identifier, .mark .semicolon].map bareToken

def danglingTree : List Stmt :=
  let a := Expr.variable 0 (bareToken .identifier)
  [.branch a (.branch a (.expression a) (some (.expression a))) none]

theorem danglingElse_derived : Derives (.declarations danglingTree) danglingElse := by
  let a := Expr.variable 0 (bareToken .identifier)
  let name := bareToken .identifier
  let stop := bareToken (.mark .semicolon)
  have operand : Derives (.expression a) [name] :=
    .expression (.rank_of_call (.call (v := [_]) (w := []) (.name rfl) .noSuffixes))
  have sentence : Derives (.statement false (.expression a)) [name, stop] :=
    .sentenceStatement (.sentence operand rfl)
  have conditional : Derives (.statement false (.branch a (.expression a) (some (.expression a))))
      (danglingElse.drop 4) :=
    .ifElseStatement (u := [name]) (v := [name, stop]) (w := [name, stop]) rfl rfl operand rfl
      sentence rfl sentence
  exact .declarations (w := []) (.statement (.ifStatement (v := [name]) rfl rfl operand rfl conditional))
    .noDeclarations

-- Its only tree gives the else to the inner conditional.
theorem readers_exact_danglingElse :
    (∀ t ∈ danglingElse, t.isStop = false) ∧ (bareToken .stop).isStop = true ∧
      ∀ tree, Derives (.declarations tree) danglingElse →
        Stmt.anonymousAll tree = Stmt.anonymousAll danglingTree := by
  have inner : ∀ t ∈ danglingElse, t.isStop = false := by decide
  have readers := readers_exact danglingElse (bareToken .stop) 0 inner rfl
  obtain ⟨stmts, later, done⟩ := readers.1.mpr ⟨_, danglingElse_derived⟩
  refine ⟨inner, rfl, fun tree derived => ?_⟩
  calc Stmt.anonymousAll tree
    _ = Stmt.anonymousAll stmts := (readers.2.1 stmts later done).2 tree derived
    _ = _ := ((readers.2.1 stmts later done).2 _ danglingElse_derived).symm

end

end ScopeScript
