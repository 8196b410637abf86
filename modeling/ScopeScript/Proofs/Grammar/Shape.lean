import ScopeScript.Proofs.Grammar.Phrase

namespace ScopeScript

-- What an assignment can be made to.
def Expr.Assignable : Expr → Prop
  | .variable .. => True
  | .get .. => True
  | _ => False

namespace Derives

-- No operator builds an assignable tree, so one that a rank derives is a call.

theorem further_assignable {k : Rank} {left e : Expr} {w : List Token} (target : e.Assignable) :
    Derives (.further k left e) w → w = [] ∧ left = e
  | .noFurther => ⟨rfl, rfl⟩
  | .further _ _ others => by
    obtain ⟨_, built⟩ := further_assignable target others
    subst built
    cases k <;> exact target.elim
termination_by w.length
decreasing_by simp only [List.length_cons, List.length_append]; omega

theorem rank_assignable {k : Rank} {e : Expr} (target : e.Assignable) :
    Derives (.rank k e) w → Derives (.operand k e) w
  | .rank first others => by
    obtain ⟨rfl, rfl⟩ := further_assignable target others
    rwa [List.append_nil]

theorem unary_assignable {e : Expr} (target : e.Assignable) : Derives (.unary e) w → Derives (.call e) w
  | .unary _ _ => target.elim
  | .plainUnary inner => inner

theorem call_of_rank {e : Expr} (target : e.Assignable) (h : Derives (.rank .disjunction e) w) :
    Derives (.call e) w := by
  have conjunction : Derives (.rank .conjunction e) w := rank_assignable target h
  have equality : Derives (.rank .equality e) w := rank_assignable target conjunction
  have comparison : Derives (.rank .comparison e) w := rank_assignable target equality
  have sum : Derives (.rank .sum e) w := rank_assignable target comparison
  have product : Derives (.rank .product e) w := rank_assignable target sum
  exact unary_assignable target (rank_assignable target product)

theorem suffixes_variable {before e : Expr} {name : Token} {w : List Token}
    (built : e = .variable i name) : Derives (.suffixes before e) w → w = [] ∧ before = e
  | .noSuffixes => ⟨rfl, rfl⟩
  | .callSuffix _ _ _ others => by
    have impossible := (suffixes_variable built others).2
    subst built
    cases impossible
  | .getSuffix _ _ others => by
    have impossible := (suffixes_variable built others).2
    subst built
    cases impossible
termination_by w.length
decreasing_by all_goals simp only [List.length_cons, List.length_append]; omega

theorem call_variable {t : Token} : Derives (.call (.variable i t)) w → t.kind = .identifier ∧ w = [t]
  | .call first others => by
    obtain ⟨rfl, rfl⟩ := suffixes_variable rfl others
    cases first with
    | name named => exact ⟨named, rfl⟩

theorem suffixes_get {before object e : Expr} {name : Token} {w : List Token}
    (built : e = .get object name) : Derives (.suffixes before e) w →
    (w = [] ∧ before = e) ∨ ∃ v dot, w = v ++ [dot, name] ∧
      dot.kind = .mark .dot ∧ name.kind = .identifier ∧ Derives (.suffixes before object) v
  | .noSuffixes => .inl ⟨rfl, rfl⟩
  | .callSuffix left inner right others => by
    rcases suffixes_get built others with ⟨_, impossible⟩ | ⟨v, dot, rfl, point, named, earlier⟩
    · subst built
      cases impossible
    · exact .inr ⟨_, dot, by simp, point, named, .callSuffix left inner right earlier⟩
  | .getSuffix point named others => by
    rcases suffixes_get built others with ⟨rfl, same⟩ | ⟨v, dot, rfl, point', named', earlier⟩
    · subst built
      cases same
      exact .inr ⟨[], _, rfl, point, named, .noSuffixes⟩
    · exact .inr ⟨_, dot, by simp, point', named', .getSuffix point named earlier⟩
termination_by w.length
decreasing_by all_goals simp only [List.length_cons, List.length_append]; omega

theorem call_get {object : Expr} {t : Token} : Derives (.call (.get object t)) w →
    ∃ v dot, w = v ++ [dot, t] ∧ dot.kind = .mark .dot ∧ t.kind = .identifier ∧
      Derives (.call object) v
  | .call first others => by
    rcases suffixes_get rfl others with ⟨_, rfl⟩ | ⟨v, dot, rfl, point, named, earlier⟩
    · cases first
    · exact ⟨_, dot, (List.append_assoc ..).symm, point, named, .call first earlier⟩

end Derives

-- The kinds of token an expression can start with.
def opensExpression : TokenKind → Bool
  | .number _ => true
  | .string _ => true
  | .identifier => true
  | .keyword k => k ∈ [.trueWord, .falseWord, .nilWord, .thisWord, .funWord]
  | .mark m => m ∈ [.leftParen, .bang, .minus]
  | .stop => false

def opensStatement (kind : TokenKind) : Bool :=
  opensExpression kind ||
    kind ∈ [.keyword .forWord, .keyword .ifWord, .keyword .whileWord, .keyword .returnWord,
      .keyword .breakWord, .keyword .printWord, .mark .leftBrace]

def opensDeclaration (kind : TokenKind) : Bool :=
  opensStatement kind || kind ∈ [.keyword .classWord, .keyword .funWord, .keyword .varWord]

-- The tokens start with one of the kinds, and a function keyword stands before a parenthesis.
def Opens (kinds : TokenKind → Bool) (w : List Token) : Prop :=
  ∃ t more, w = t :: more ∧ kinds t.kind = true ∧
    (t.kind = .keyword .funWord → ∃ open_ rest, more = open_ :: rest ∧ open_.kind = .mark .leftParen)

theorem Opens.append (h : Opens kinds v) (w : List Token) : Opens kinds (v ++ w) := by
  obtain ⟨t, more, rfl, opening, follows⟩ := h
  refine ⟨t, more ++ w, rfl, opening, fun isFun => ?_⟩
  obtain ⟨open_, rest, rfl, left⟩ := follows isFun
  exact ⟨open_, rest ++ w, rfl, left⟩

theorem Opens.of_kind {t : Token} (kind : t.kind = k) (opening : kinds k = true)
    (other : k ≠ .keyword .funWord) : Opens kinds (t :: w) :=
  ⟨t, w, rfl, kind ▸ opening, fun isFun => absurd (kind.symm.trans isFun) other⟩

theorem Opens.mono (h : Opens kinds w) (wider : ∀ k, kinds k = true → more k = true) :
    Opens more w := by
  obtain ⟨t, rest, same, opening, follows⟩ := h
  exact ⟨t, rest, same, wider _ opening, follows⟩

theorem opensStatement_of_expression (kind : TokenKind) (h : opensExpression kind = true) :
    opensStatement kind = true := by
  simp [opensStatement, h]

-- How the tokens of a phrase start, for the phrases that are never empty.
def Phrase.Opening : Phrase → List Token → Prop
  | .declaration _, w => ∃ t more, w = t :: more ∧ opensDeclaration t.kind = true
  | .statement _ _, w => Opens opensStatement w
  | .sentence _, w => Opens opensExpression w
  | .function _, w => ∃ t more, w = t :: more ∧ t.kind = .identifier
  | .routine _, w => ∃ t more, w = t :: more ∧ t.kind = .mark .leftParen
  | .expression _, w => Opens opensExpression w
  | .rank _ _, w => Opens opensExpression w
  | .unary _, w => Opens opensExpression w
  | .call _, w => Opens opensExpression w
  | .expressions _, w => Opens opensExpression w
  | .primary _, w => Opens opensExpression w
  | .names _, w => ∃ t more, w = t :: more ∧ t.kind = .identifier
  | _, _ => True

theorem Phrase.opening_operand (k : Rank) (e : Expr) (w : List Token) :
    (Phrase.operand k e).Opening w ↔ Opens opensExpression w := by
  cases k <;> rfl

theorem Derives.opening (h : Derives p w) : p.Opening w := by
  induction h with
  | classes opening | functionDeclaration opening | variableDeclaration opening =>
    exact ⟨_, _, rfl, by rw [opening]; rfl⟩
  | statement _ ih =>
    obtain ⟨t, more, same, opening, _⟩ := ih
    exact ⟨t, more, same, by simp [opensDeclaration, opening]⟩
  | function named => exact ⟨_, _, rfl, named⟩
  | routine left => exact ⟨_, _, rfl, left⟩
  | lastName named => exact ⟨_, _, rfl, named⟩
  | names named => exact ⟨_, _, rfl, named⟩
  | sentenceStatement _ ih => exact ih.mono opensStatement_of_expression
  | forStatement opening | ifStatement opening | ifElseStatement opening | printStatement opening
  | returnStatement opening | whileStatement opening | breakStatement opening
  | blockStatement opening => exact .of_kind opening rfl nofun
  | sentence _ _ ih => exact ih.append _
  | assignVariable named => exact .of_kind named rfl nofun
  | assignProperty _ _ _ _ _ ih _ => exact ih.append _
  | expression _ ih => exact ih
  | rank _ _ ih _ => exact ((Phrase.opening_operand _ _ _).mp ih).append _
  | unary spelled =>
    simp only [List.mem_cons, List.not_mem_nil, or_false] at spelled
    rcases spelled with bang | minus
    · exact .of_kind bang rfl nofun
    · exact .of_kind minus rfl nofun
  | plainUnary _ ih => exact ih
  | call _ _ ih _ => exact ih.append _
  | lastExpression _ ih => exact ih
  | expressions _ _ _ ih _ => exact ih.append _
  | number spelled | string spelled | true spelled | false spelled | nil spelled | this spelled
  | name spelled | grouping spelled => exact .of_kind spelled rfl nofun
  | lambda opening _ ih =>
    obtain ⟨open_, more, rfl, left⟩ := ih
    exact ⟨_, _, rfl, by rw [opening]; rfl, fun _ => ⟨open_, more, rfl, left⟩⟩
  | _ => trivial

end ScopeScript
