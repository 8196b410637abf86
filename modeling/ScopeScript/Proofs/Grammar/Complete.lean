import ScopeScript.Grammar.Read
import ScopeScript.Proofs.Grammar.Shape
import ScopeScript.Proofs.Grammar.Sound
import ScopeScript.Proofs.Grammar.Giving

namespace ScopeScript

open Reading

namespace Rank

def stronger : Rank → List Rank
  | disjunction => [conjunction, equality, comparison, sum, product]
  | conjunction => [equality, comparison, sum, product]
  | equality => [comparison, sum, product]
  | comparison => [sum, product]
  | sum => [product]
  | product => []

-- The kinds of token that would carry an operand of a rank on, and a whole tree of it.
def operandTail (k : Rank) : List TokenKind :=
  k.stronger.flatMap operators ++ [.mark .leftParen, .mark .dot]

def tail (k : Rank) : List TokenKind := k.operators ++ k.operandTail

-- How many readers stand between a whole expression and one of the rank.
def height : Rank → Nat
  | disjunction => 1
  | conjunction => 2
  | equality => 3
  | comparison => 4
  | sum => 5
  | product => 6

theorem node_anonymous (k : Rank) (left : Expr) (operator : Token) (right : Expr) :
    (k.node left operator right).anonymous = k.node left.anonymous operator right.anonymous := by
  cases k <;> rfl

-- The operators of a rank carry none of its operands on.
theorem operators_apart (k : Rank) : ∀ kind ∈ k.operators, kind ∉ k.operandTail := by
  cases k <;> decide

end Rank

-- What carries a whole expression on.
def expressionTail : List TokenKind := .mark .equal :: Rank.disjunction.tail

-- Enough fuel makes every reader give the tree of a derivation, up to ids.
structure ReadersComplete (fuel : Nat) : Prop where
  expression : ∀ {e w rest}, Derives (.expression e) w → 16 * w.length ≤ fuel →
    Bars expressionTail rest → Gives (expression fuel) w rest (·.anonymous = e.anonymous)
  rank : ∀ {k : Rank} {e w rest}, Derives (.rank k e) w → 16 * w.length ≤ fuel + k.height →
    Bars k.tail rest → Gives (operand fuel (k.level :: k.tighter)) w rest (·.anonymous = e.anonymous)
  last : ∀ {e w rest}, Derives (.unary e) w → 16 * w.length ≤ fuel + 7 →
    Bars Rank.product.operandTail rest → Gives (operand fuel []) w rest (·.anonymous = e.anonymous)
  further : ∀ {k : Rank} {left before e w rest}, Derives (.further k before e) w →
    left.anonymous = before.anonymous → 16 * w.length + 1 ≤ fuel → Bars k.tail rest →
    Gives (operators fuel k.level k.tighter left) w rest (·.anonymous = e.anonymous)
  unary : ∀ {e w rest}, Derives (.unary e) w → 16 * w.length ≤ fuel + 8 →
    Bars Rank.product.operandTail rest → Gives (unary fuel) w rest (·.anonymous = e.anonymous)
  suffixes : ∀ {left before e w rest}, Derives (.suffixes before e) w →
    left.anonymous = before.anonymous → 16 * w.length + 1 ≤ fuel →
    Bars Rank.product.operandTail rest → Gives (suffixes fuel left) w rest (·.anonymous = e.anonymous)
  arguments : ∀ {es w rest already}, Derives (.expressions es) w → 16 * w.length + 1 ≤ fuel →
    already + es.length ≤ 255 → Bars (.mark .comma :: expressionTail) rest →
    Gives (arguments fuel already) w rest (Expr.anonymousAll · = Expr.anonymousAll es)
  primary : ∀ {e w rest}, Derives (.primary e) w → 16 * w.length ≤ fuel + 9 →
    Gives (primary fuel) w rest (·.anonymous = e.anonymous)
  parameterNames : ∀ {ps w rest already}, Derives (.names ps) w → w.length + 1 ≤ fuel →
    already + ps.length ≤ 255 → Bars [.mark .comma] rest →
    Gives (parameterNames fuel already) w rest (· = ps)
  routine : ∀ {r w rest first second}, Derives (.routine r) w → 16 * w.length ≤ fuel →
    Gives (routine fuel r.head first second) w rest (·.anonymous = r.anonymous)
  block : ∀ {ss w close rest}, Derives (.declarations ss) w → 16 * w.length + 16 ≤ fuel →
    close.kind = .mark .rightBrace →
    Gives (block fuel) (w ++ [close]) rest (Stmt.anonymousAll · = Stmt.anonymousAll ss)
  declaration : ∀ {s w rest}, Derives (.declaration s) w → 16 * w.length + 3 ≤ fuel →
    Bars [.keyword .elseWord] rest → Gives (declaration fuel) w rest (·.anonymous = s.anonymous)
  methods : ∀ {rs w close more}, Derives (.functions rs) w → 16 * w.length + 1 ≤ fuel →
    close.kind = .mark .rightBrace → Gives (methods fuel) w (close :: more)
      (Routine.anonymousAll · = Routine.anonymousAll rs)
  variableRest : ∀ {s w rest}, Derives (.variable s) w → 16 * w.length ≤ fuel →
    Gives (variableRest fuel) w rest (·.anonymous = s.anonymous)
  statement : ∀ {hungry s w rest}, Derives (.statement hungry s) w → 16 * w.length + 2 ≤ fuel →
    (hungry = true → Bars [.keyword .elseWord] rest) →
    Gives (statement fuel) w rest (·.anonymous = s.anonymous)
  forStatement : ∀ {hungry s keyword w rest}, Derives (.statement hungry s) (keyword :: w) →
    keyword.kind = .keyword .forWord → 16 * w.length + 1 ≤ fuel →
    (hungry = true → Bars [.keyword .elseWord] rest) →
    Gives (forStatement fuel) w rest (·.anonymous = s.anonymous)
  firstClause : ∀ {o w rest}, Derives (.firstClause o) w → 16 * w.length + 2 ≤ fuel →
    Gives (firstClause fuel) w rest (·.map Stmt.anonymous = o.map Stmt.anonymous)
  expressionBefore : ∀ {o w m stop more}, Derives (.optional o) w → 16 * w.length + 1 ≤ fuel →
    stop.kind = .mark m → m = .semicolon ∨ m = .rightParen →
    Gives (expressionBefore fuel m) w (stop :: more) (·.map Expr.anonymous = o.map Expr.anonymous)
  expressionStatement : ∀ {s w rest}, Derives (.sentence s) w → 16 * w.length ≤ fuel →
    Gives (expressionStatement fuel) w rest (·.anonymous = s.anonymous)

variable {fuel : Nat}

theorem Opens.length_pos (h : Opens kinds w) : 1 ≤ w.length := by
  obtain ⟨t, more, rfl, _⟩ := h
  exact Nat.succ_le_succ (Nat.zero_le _)

-- A token that no expression opens with, looked for in front of one.
theorem Opens.bars (h : Opens kinds w) (others : List TokenKind)
    (apart : ∀ k ∈ others, kinds k = false) (rest : List Token) : Bars others (w ++ rest) := by
  obtain ⟨t, more, rfl, opening, _⟩ := h
  refine .cons fun member => ?_
  rw [apart _ member] at opening
  cases opening

theorem variable_of_anonymous {a : Expr} (same : a.anonymous = (Expr.variable i name).anonymous) :
    ∃ j, a = .variable j name := by
  cases a <;> cases same
  exact ⟨_, rfl⟩

theorem get_of_anonymous {a : Expr} (same : a.anonymous = (Expr.get object name).anonymous) :
    ∃ other, a = .get other name ∧ other.anonymous = object.anonymous := by
  cases a <;> simp only [Expr.anonymous, Expr.get.injEq, reduceCtorEq] at same
  obtain ⟨inner, rfl⟩ := same
  exact ⟨_, rfl, inner⟩

namespace Derives

-- A call is an expression of every rank.
theorem rank_of_operand {k : Rank} {e : Expr} (h : Derives (.operand k e) w) :
    Derives (.rank k e) w := by
  simpa using Derives.rank h .noFurther

theorem rank_of_call {e : Expr} (h : Derives (.call e) w) : Derives (.rank .disjunction e) w := by
  have product : Derives (.rank .product e) w := rank_of_operand (.plainUnary h)
  have sum : Derives (.rank .sum e) w := rank_of_operand product
  have comparison : Derives (.rank .comparison e) w := rank_of_operand sum
  have equality : Derives (.rank .equality e) w := rank_of_operand comparison
  have conjunction : Derives (.rank .conjunction e) w := rank_of_operand equality
  exact rank_of_operand conjunction

theorem suffixes_append_get {before object : Expr} {w : List Token} {dot name : Token}
    (point : dot.kind = .mark .dot) (named : name.kind = .identifier) :
    Derives (.suffixes before object) w → Derives (.suffixes before (.get object name)) (w ++ [dot, name])
  | .noSuffixes => .getSuffix point named .noSuffixes
  | .callSuffix left inner right others => by
    simpa using Derives.callSuffix left inner right (suffixes_append_get point named others)
  | .getSuffix point' named' others => .getSuffix point' named' (suffixes_append_get point named others)
termination_by w.length
decreasing_by all_goals simp only [List.length_cons, List.length_append]; omega

theorem call_append_get {object : Expr} {w : List Token} {dot name : Token}
    (point : dot.kind = .mark .dot) (named : name.kind = .identifier) :
    Derives (.call object) w → Derives (.call (.get object name)) (w ++ [dot, name])
  | .call first others => by
    simpa using Derives.call first (suffixes_append_get point named others)

end Derives

theorem barred_equal {equals : Token} (equal : equals.kind = .mark .equal) (w : List Token) :
    Bars Rank.disjunction.tail (equals :: w) :=
  .cons (by rw [equal]; decide)

-- An assignment to a call, given what is built from the target and the value.
theorem assignment_complete (ih : ReadersComplete fuel) {target value goal : Expr} {equals : Token}
    {v w : List Token} (before : Derives (.call target) v) (equal : equals.kind = .mark .equal)
    (inner : Derives (.expression value) w) (enough : 16 * (v ++ equals :: w).length ≤ fuel + 1)
    (barred : Bars expressionTail rest)
    (build : ∀ t a, t.anonymous = target.anonymous → a.anonymous = value.anonymous →
      Gives (assignTo equals a t) [] rest (·.anonymous = goal.anonymous)) :
    Gives (expression (fuel + 1)) (v ++ equals :: w) rest (·.anonymous = goal.anonymous) := by
  have passed : equals.isMark .equal = true := by simp [Token.isMark, equal]
  rw [List.length_append, List.length_cons] at enough
  unfold expression
  rw [levels_ranked]
  refine .bind (ih.rank (Derives.rank_of_call before) ?_ (barred_equal equal _)) fun t targetSame => ?_
  · show 16 * v.length ≤ fuel + 1
    omega
  refine .bind (v := [equals]) (.accept_taken passed) ?_
  rintro o rfl
  exact .bindLast (ih.expression inner (by omega) barred) fun a valueSame => build t a targetSame valueSame

theorem expression_complete (ih : ReadersComplete fuel) {e : Expr}
    (h : Derives (.expression e) w) (enough : 16 * w.length ≤ fuel + 1) (barred : Bars expressionTail rest) :
    Gives (expression (fuel + 1)) w rest (·.anonymous = e.anonymous) := by
  cases h with
  | assignVariable named equal inner =>
    have before := fun i => Derives.call (.name (i := i) named) .noSuffixes
    refine assignment_complete (v := [_]) ih (before 0) equal inner enough barred ?_
    intro t a targetSame valueSame
    obtain ⟨j, rfl⟩ := variable_of_anonymous targetSame
    exact .fresh fun k => .pure (by simp [Expr.anonymous, valueSame])
  | assignProperty target point named equal inner =>
    have before := Derives.call_append_get point named target
    rw [List.append_cons, List.append_cons, List.append_assoc _ [_] [_]] at enough ⊢
    refine assignment_complete ih before equal inner enough barred ?_
    intro t a targetSame valueSame
    obtain ⟨object, rfl, objectSame⟩ := get_of_anonymous targetSame
    exact .pure (by simp [Expr.anonymous, objectSame, valueSame])
  | expression inner =>
    unfold expression
    rw [levels_ranked]
    refine .bindLast (ih.rank inner enough (barred.mono fun _ => List.mem_cons_of_mem _)) fun a same => ?_
    refine .skip (a := none) (fun c ahead => ?_) (.pure same)
    have refused := barred.refuses (·.isMark .equal) fun t passed => by
      simp_all [Token.isMark, expressionTail]
    exact Gives.accept_refused (ahead ▸ refused)

theorem operand_complete (ih : ReadersComplete fuel) {k : Rank} {e : Expr}
    (h : Derives (.operand k e) w) (enough : 16 * w.length ≤ fuel + k.height + 1)
    (barred : Bars k.operandTail rest) :
    Gives (operand fuel k.tighter) w rest (·.anonymous = e.anonymous) := by
  cases k with
  | disjunction => exact ih.rank (k := .conjunction) h enough barred
  | conjunction => exact ih.rank (k := .equality) h enough barred
  | equality => exact ih.rank (k := .comparison) h enough barred
  | comparison => exact ih.rank (k := .sum) h enough barred
  | sum => exact ih.rank (k := .product) h enough barred
  | product => exact ih.last h enough barred

theorem further_barred {k : Rank} {e before : Expr} (h : Derives (.further k before e) w)
    (barred : Bars k.tail rest) : Bars k.operandTail (w ++ rest) := by
  cases h with
  | noFurther => exact barred.mono fun _ => List.mem_append_right _
  | further spelled => exact .cons (k.operators_apart _ spelled)

theorem rank_complete (ih : ReadersComplete fuel) {k : Rank} {e : Expr}
    (h : Derives (.rank k e) w) (enough : 16 * w.length ≤ fuel + 1 + k.height) (barred : Bars k.tail rest) :
    Gives (operand (fuel + 1) (k.level :: k.tighter)) w rest (·.anonymous = e.anonymous) := by
  cases h with
  | @rank _ left v _ w first others =>
    have opened : Opens opensExpression v := (Phrase.opening_operand _ _ _).mp first.opening
    have nonempty := opened.length_pos
    have low : k.height ≤ 6 := by cases k <;> decide
    rw [List.length_append] at enough
    unfold operand
    refine .bind (operand_complete ih first (by omega) (further_barred others barred)) fun a same => ?_
    exact ih.further others same (by omega) barred

theorem last_complete (ih : ReadersComplete fuel) {e : Expr} (h : Derives (.unary e) w)
    (enough : 16 * w.length ≤ fuel + 8) (barred : Bars Rank.product.operandTail rest) :
    Gives (operand (fuel + 1) []) w rest (·.anonymous = e.anonymous) := by
  unfold operand
  exact ih.unary h enough barred

theorem further_complete (ih : ReadersComplete fuel) {k : Rank} {left before e : Expr}
    (h : Derives (.further k before e) w) (same : left.anonymous = before.anonymous)
    (enough : 16 * w.length ≤ fuel) (barred : Bars k.tail rest) :
    Gives (operators (fuel + 1) k.level k.tighter left) w rest (·.anonymous = e.anonymous) := by
  unfold operators
  cases h with
  | noFurther =>
    have refused := barred.refuses k.level.holds fun t held =>
      List.mem_append_left _ ((k.level_holds t).mp held)
    exact .skip (a := none) (fun c ahead => Gives.accept_refused (ahead ▸ refused)) (.pure same)
  | further spelled next others =>
    rw [List.length_cons, List.length_append] at enough
    refine .bind (v := [_]) (.accept_taken ((k.level_holds _).mpr spelled)) ?_
    rintro o rfl
    refine .bind (operand_complete ih next (by omega) (further_barred others barred)) fun a operandSame => ?_
    refine ih.further others ?_ (by omega) barred
    rw [k.level_join, k.node_anonymous, k.node_anonymous, same, operandSame]

theorem unary_complete (ih : ReadersComplete fuel) {e : Expr} (h : Derives (.unary e) w)
    (enough : 16 * w.length ≤ fuel + 9) (barred : Bars Rank.product.operandTail rest) :
    Gives (unary (fuel + 1)) w rest (·.anonymous = e.anonymous) := by
  unfold unary
  cases h with
  | unary spelled inner =>
    rw [List.length_cons] at enough
    refine .onToken (by simpa [isUnaryOperator, Token.isMark] using spelled) (.bindLast (ih.unary inner (by omega) barred) fun a same => ?_)
    exact .pure (by simp [Expr.anonymous, same])
  | plainUnary inner =>
    cases inner with
    | @call _ v _ w first others =>
      have opened : Opens opensExpression v := first.opening
      have nonempty := opened.length_pos
      rw [List.length_append] at enough
      have refused : (v ++ w ++ rest).head?.any isUnaryOperator = false := by
        cases first <;> simp [isUnaryOperator, Token.isMark, *]
      refine .pastToken refused (.bind (ih.primary first (by omega)) fun a same => ?_)
      exact ih.suffixes others same (by omega) barred

theorem arguments_barred {close : Token} (right : close.kind = .mark .rightParen) :
    Bars (.mark .comma :: expressionTail) (close :: w) :=
  .cons (by rw [right]; decide)

theorem suffixes_complete (ih : ReadersComplete fuel) {left before e : Expr}
    (h : Derives (.suffixes before e) w) (same : left.anonymous = before.anonymous)
    (enough : 16 * w.length ≤ fuel) (barred : Bars Rank.product.operandTail rest) :
    Gives (suffixes (fuel + 1) left) w rest (·.anonymous = e.anonymous) := by
  unfold suffixes
  cases h with
  | noSuffixes =>
    refine .pastMark (w := []) (barred.mono ?_) (.pastMark (w := []) (barred.mono ?_) (.pure same))
    · decide
    · decide
  | @callSuffix es v _ close _ w _ paren inner right others =>
    simp only [List.length_cons, List.length_append] at enough
    have closing : ∀ values, Expr.anonymousAll values = Expr.anonymousAll es → Gives
        (expectMark .rightParen .argumentsEnd >>= fun close => suffixes fuel (.call left close values))
        (close :: w) rest (·.anonymous = e.anonymous) := fun values valuesSame =>
      .mark right (ih.suffixes others (by simp [Expr.anonymous, same, valuesSame]) (by omega) barred)
    refine .onMark paren ?_
    cases inner with
    | noValues =>
      refine .seen (b := true) (by simp [Token.isMark, right]) ?_
      exact closing [] rfl
    | values inner few =>
      have opened : Opens opensExpression v := inner.opening
      have refused := (opened.bars [.mark .rightParen] (by decide)
        (close :: w ++ rest)).refuses (·.isMark .rightParen) fun t passed => by
          simpa [Token.isMark] using passed
      refine .seen (b := false) (by simpa using refused) ?_
      exact .bind (ih.arguments inner (by omega) (by omega) (arguments_barred right)) closing
  | getSuffix point named others =>
    simp only [List.length_cons] at enough
    refine .pastMark (.cons (by simp [point])) (.onMark point (.name named ?_))
    exact ih.suffixes others (by simp [Expr.anonymous, same]) (by omega) barred

theorem arguments_complete (ih : ReadersComplete fuel) {es : List Expr} {already : Nat}
    (h : Derives (.expressions es) w) (enough : 16 * w.length ≤ fuel) (few : already + es.length ≤ 255)
    (barred : Bars (.mark .comma :: expressionTail) rest) :
    Gives (arguments (fuel + 1) already) w rest (Expr.anonymousAll · = Expr.anonymousAll es) := by
  have within : ¬listLimit ≤ already := by
    have present : 1 ≤ es.length := by cases h <;> simp
    unfold listLimit
    omega
  unfold arguments
  rw [if_neg within]
  cases h with
  | lastExpression inner =>
    have behind : Bars expressionTail rest := barred.mono fun _ => List.mem_cons_of_mem _
    have comma : Bars [.mark .comma] rest := barred.mono (by simp)
    refine .bindLast (ih.expression inner enough behind) fun a same => .pastMark (w := []) comma ?_
    exact .pure (by simp [Expr.anonymousAll, same])
  | expressions inner comma others =>
    simp only [List.length_cons, List.length_append] at enough few
    have behind : ∀ more, Bars expressionTail (_ :: more) := fun more => .cons (by rw [comma]; decide)
    refine .bind (ih.expression inner (by omega) (behind _)) fun a same => .onMark comma ?_
    refine .bindLast (ih.arguments others (by omega) (by omega) barred) fun as sames => ?_
    exact .pure (by simp [Expr.anonymousAll, same, sames])

theorem parameterNames_complete (ih : ReadersComplete fuel) {ps : List Token} {already : Nat}
    (h : Derives (.names ps) w) (enough : w.length ≤ fuel) (few : already + ps.length ≤ 255)
    (barred : Bars [.mark .comma] rest) :
    Gives (parameterNames (fuel + 1) already) w rest (· = ps) := by
  have within : ¬listLimit ≤ already := by
    have present : 1 ≤ ps.length := by cases h <;> simp
    unfold listLimit
    omega
  unfold parameterNames
  rw [if_neg within]
  cases h with
  | lastName named => exact .name named (.pastMark (w := []) barred (.pure rfl))
  | names named comma others =>
    simp only [List.length_cons] at enough few
    refine .name named (.onMark comma ?_)
    refine .bindLast (ih.parameterNames others (by omega) (by omega) barred) ?_
    rintro as rfl
    exact .pure rfl

theorem parameterList_complete (ih : ReadersComplete fuel) {ps : List Token} {close : Token}
    (h : Derives (.parameters ps) w) (enough : w.length + 1 ≤ fuel)
    (right : close.kind = .mark .rightParen) :
    Gives (parameterList fuel) (w ++ [close]) rest (· = ps) := by
  unfold parameterList
  cases h with
  | noParameters =>
    exact .seen (b := true) (by simp [Token.isMark, right]) (.mark right (.pure rfl))
  | parameters inner few =>
    obtain ⟨t, more, same, named⟩ := inner.opening
    have refused : (w ++ [close] ++ rest).head?.any (·.isMark .rightParen) = false := by
      simp [same, Token.isMark, named]
    refine .seen (b := false) refused ?_
    refine .bind (ih.parameterNames inner enough (by omega) (.cons (by simp [right]))) ?_
    rintro as rfl
    exact .mark right (.pure rfl)

theorem routine_complete (ih : ReadersComplete fuel) {r : Routine} {first second : Slot}
    (h : Derives (.routine r) w) (enough : 16 * w.length ≤ fuel + 1) :
    Gives (routine (fuel + 1) r.head first second) w rest (·.anonymous = r.anonymous) := by
  unfold routine
  cases h with
  | @routine _ ps v close brace body w unbrace head left names right start inner stop =>
    simp only [List.length_cons, List.length_append, List.length_nil] at enough
    rw [List.append_cons]
    refine .mark left (.bind (parameterList_complete ih names (by omega) right) ?_)
    rintro as rfl
    refine .mark start (.bindLast (ih.block inner (by omega) stop) fun ss same => .pure ?_)
    simp [Routine.anonymous, Routine.head, same]

theorem primary_complete (ih : ReadersComplete fuel) {e : Expr} (h : Derives (.primary e) w)
    (enough : 16 * w.length ≤ fuel + 10) :
    Gives (primary (fuel + 1)) w rest (·.anonymous = e.anonymous) := by
  unfold primary
  have constant : ∀ {t : Token} {value} (k : Option Token → Reading Expr),
      k (some t) = pure (.literal (t.literal?.getD .nil)) → t.literal? = some value →
      Gives (accept? (·.literal?.isSome) >>= k) [t] rest
        (·.anonymous = (Expr.literal value).anonymous) := by
    intro t value k same known
    refine .bind (v := [t]) (w := []) (Gives.accept_taken (by simp [known])) ?_
    rintro o rfl
    rw [same]
    exact .pure (by simp [known])
  cases h with
  | number spelled => exact constant _ rfl (by simp [Token.literal?, spelled])
  | string spelled => exact constant _ rfl (by simp [Token.literal?, spelled])
  | true spelled => exact constant _ rfl (by simp [Token.literal?, spelled])
  | false spelled => exact constant _ rfl (by simp [Token.literal?, spelled])
  | nil spelled => exact constant _ rfl (by simp [Token.literal?, spelled])
  | this spelled =>
    refine .pastToken (by simp [Token.literal?, spelled]) ?_
    refine .onToken (by simp [Token.isKeyword, spelled]) (.fresh fun i => ?_)
    exact .pure rfl
  | name named =>
    refine .pastToken (by simp [Token.literal?, named]) ?_
    refine .pastToken (by simp [Token.isKeyword, named]) ?_
    refine .onToken (by simp [Token.isIdentifier, named]) (.fresh fun i => ?_)
    exact .pure rfl
  | lambda opening inner =>
    rw [List.length_cons] at enough
    refine .pastToken (by simp [Token.literal?, opening]) ?_
    refine .pastToken (by simp [Token.isKeyword, opening]) ?_
    refine .pastToken (by simp [Token.isIdentifier, opening]) ?_
    refine .onToken (by simp [Token.isKeyword, opening]) ?_
    refine .bindLast (ih.routine inner (by omega)) fun r same => .pure ?_
    simp [Expr.anonymous, same]
  | grouping left inner right =>
    simp only [List.length_cons, List.length_append, List.length_nil] at enough
    have behind : ∀ more, Bars expressionTail (_ :: more) := fun more => .cons (by rw [right]; decide)
    refine .pastToken (by simp [Token.literal?, left]) ?_
    refine .pastToken (by simp [Token.isKeyword, left]) ?_
    refine .pastToken (by simp [Token.isIdentifier, left]) ?_
    refine .pastToken (by simp [Token.isKeyword, left]) (.onMark left ?_)
    refine .bind (ih.expression inner (by omega) (behind _)) fun a same => .mark right (.pure ?_)
    simp [Expr.anonymous, same]

-- What stands between two braces is not an else.
theorem declarations_barred {ss : List Stmt} {close : Token} (h : Derives (.declarations ss) w)
    (right : close.kind = .mark .rightBrace) (rest : List Token) :
    Bars [.keyword .elseWord] (w ++ close :: rest) := by
  cases h with
  | noDeclarations => exact .cons (by simp [right])
  | declarations first others =>
    obtain ⟨t, more, rfl, opening⟩ := first.opening
    refine .cons fun member => ?_
    rw [List.mem_singleton.mp member] at opening
    cases opening

theorem block_complete (ih : ReadersComplete fuel) {ss : List Stmt} {close : Token}
    (h : Derives (.declarations ss) w) (enough : 16 * w.length + 15 ≤ fuel)
    (right : close.kind = .mark .rightBrace) :
    Gives (block (fuel + 1)) (w ++ [close]) rest (Stmt.anonymousAll · = Stmt.anonymousAll ss) := by
  unfold block
  cases h with
  | noDeclarations =>
    refine .skip (a := true) (fun c ahead => ?_) (.skip (a := false) (fun c ahead => ?_) ?_)
    · simp [sees, Cursor.sees, ahead, Token.isMark, right]
    · simp [atEnd, Cursor.atEnd, ahead]
    · exact .mark right (.pure rfl)
  | @declarations s v more w first others =>
    obtain ⟨t, tail, same, opening⟩ := first.opening
    have closed : t.kind ≠ .mark .rightBrace := by
      rintro impossible
      rw [impossible] at opening
      cases opening
    rw [List.length_append, same, List.length_cons] at enough
    refine .skip (a := false) (fun c ahead => ?_) (.skip (a := false) (fun c ahead => ?_) ?_)
    · simp [sees, Cursor.sees, ahead, same, Token.isMark, closed]
    · simp [atEnd, Cursor.atEnd, ahead, same]
    · have behind : Bars [.keyword .elseWord] (w ++ [close] ++ rest) := by
        simpa using declarations_barred others right rest
      have short : 16 * v.length + 3 ≤ fuel := by
        rw [same, List.length_cons]
        omega
      rw [List.append_assoc]
      refine .bind (.recovering (ih.declaration first short behind)) ?_
      rintro _ ⟨a, rfl, firstSame⟩
      refine .bindLast (ih.block others (by omega) right) fun as othersSame => .pure ?_
      simp [Stmt.anonymousAll, firstSame, othersSame]

theorem methods_complete (ih : ReadersComplete fuel) {rs : List Routine} {close : Token}
    (h : Derives (.functions rs) w) (enough : 16 * w.length ≤ fuel)
    (right : close.kind = .mark .rightBrace) :
    Gives (methods (fuel + 1)) w (close :: rest) (Routine.anonymousAll · = Routine.anonymousAll rs) := by
  unfold methods
  cases h with
  | noFunctions =>
    refine .skip (a := true) (fun c ahead => ?_) (.skip (a := false) (fun c ahead => ?_) ?_)
    · simp [sees, Cursor.sees, ahead, Token.isMark, right]
    · simp [atEnd, Cursor.atEnd, ahead]
    · exact .pure rfl
  | functions first others =>
    cases first with
    | function named inner =>
      simp only [List.cons_append, List.length_cons, List.length_append] at enough ⊢
      refine .skip (a := false) (fun c ahead => ?_) (.skip (a := false) (fun c ahead => ?_) ?_)
      · simp [sees, Cursor.sees, ahead, Token.isMark, named]
      · simp [atEnd, Cursor.atEnd, ahead]
      · refine .name named (.bind (ih.routine inner (by omega)) fun r same => ?_)
        refine .bindLast (ih.methods others (by omega) right) fun as othersSame => .pure ?_
        simp [Routine.anonymousAll, same, othersSame]

theorem declaration_complete (ih : ReadersComplete fuel) {s : Stmt} (h : Derives (.declaration s) w)
    (enough : 16 * w.length + 2 ≤ fuel) (barred : Bars [.keyword .elseWord] rest) :
    Gives (declaration (fuel + 1)) w rest (·.anonymous = s.anonymous) := by
  unfold declaration
  cases h with
  | classes opening named left inner right =>
    simp only [List.length_cons, List.length_append, List.length_nil] at enough
    refine .onKeyword opening (.name named (.mark left ?_))
    refine .bind (ih.methods inner (by omega) right) fun rs same => .mark right (.pure ?_)
    simp [Stmt.anonymous, same]
  | functionDeclaration opening inner =>
    cases inner with
    | function named inner =>
      simp only [List.length_cons] at enough
      refine .pastKeyword (.cons (by simp [opening])) (.skip (a := true) (fun c ahead => ?_) ?_)
      · simp [declaresFunction, ahead, Token.isKeyword, Token.isIdentifier, opening, named]
      · refine .bind (v := [_]) (.acceptKeyword_taken opening) fun _ _ => .name named ?_
        refine .bindLast (ih.routine inner (by omega)) fun r same => .pure ?_
        simp [Stmt.anonymous, same]
  | @variableDeclaration keyword _ w opening inner =>
    simp only [List.length_cons] at enough
    refine .pastKeyword (.cons (by simp [opening])) (.skip (a := false) (fun c ahead => ?_) ?_)
    · cases inner <;> simp [declaresFunction, ahead, Token.isKeyword, opening]
    · exact .onKeyword opening (ih.variableRest inner (by omega))
  | statement inner =>
    obtain ⟨t, more, rfl, opening, follows⟩ := (inner.opening : Opens opensStatement w)
    have barredWord : ∀ k, opensStatement (.keyword k) = false →
        Bars [.keyword k] (t :: more ++ rest) := fun k closed => .cons fun member => by
      rw [List.mem_singleton.mp member, closed] at opening
      cases opening
    refine .pastKeyword (barredWord _ rfl) (.skip (a := false) (fun c ahead => ?_) ?_)
    · unfold declaresFunction
      rw [ahead]
      -- A function keyword in front of a parenthesis has no name behind it.
      by_cases isFun : t.kind = .keyword .funWord
      · obtain ⟨open_, others, rfl, left⟩ := follows isFun
        simp [Token.isIdentifier, left]
      · have other : t.isKeyword .funWord = false := by simpa [Token.isKeyword] using isFun
        rw [List.cons_append]
        cases more ++ rest with
        | nil => rfl
        | cons name tail => simp [other]
    · exact .pastKeyword (barredWord _ rfl) (ih.statement inner (by omega) fun _ => barred)

theorem expression_barred {stop : Token} {m : Mark} (kind : stop.kind = .mark m)
    (closing : m = .semicolon ∨ m = .rightParen) : Bars expressionTail (stop :: rest) := by
  refine .cons ?_
  rw [kind]
  rcases closing with rfl | rfl
  · decide
  · decide

theorem variableRest_complete (ih : ReadersComplete fuel) {s : Stmt} (h : Derives (.variable s) w)
    (enough : 16 * w.length ≤ fuel + 1) :
    Gives (variableRest (fuel + 1)) w rest (·.anonymous = s.anonymous) := by
  unfold variableRest
  cases h with
  | plainVariable named stop =>
    refine .name named (.pastMark (.cons (by simp [stop])) (.mark stop (.pure rfl)))
  | @filledVariable e w name equals semicolon named equal inner stop =>
    simp only [List.length_cons, List.length_append, List.length_nil] at enough
    have initial : Gives (some <$> expression fuel) w ([semicolon] ++ rest)
        fun o => ∃ a, o = some a ∧ a.anonymous = e.anonymous :=
      .map (ih.expression inner (by omega) (expression_barred stop (.inl rfl))) fun a same => ⟨a, rfl, same⟩
    refine .name named (.onMark equal (.bind initial ?_))
    rintro _ ⟨a, rfl, same⟩
    exact .mark stop (.pure (by simp [Stmt.anonymous, same]))

theorem expressionStatement_complete (ih : ReadersComplete fuel) {s : Stmt}
    (h : Derives (.sentence s) w) (enough : 16 * w.length ≤ fuel + 1) :
    Gives (expressionStatement (fuel + 1)) w rest (·.anonymous = s.anonymous) := by
  unfold expressionStatement
  cases h with
  | sentence inner stop =>
    simp only [List.length_append, List.length_cons, List.length_nil] at enough
    refine .bind (ih.expression inner (by omega) (expression_barred stop (.inl rfl))) fun a same => ?_
    exact .mark stop (.pure (by simp [Stmt.anonymous, same]))

theorem expressionBefore_complete (ih : ReadersComplete fuel) {o : Option Expr} {m : Mark}
    {stop : Token} (h : Derives (.optional o) w) (enough : 16 * w.length ≤ fuel)
    (kind : stop.kind = .mark m) (closing : m = .semicolon ∨ m = .rightParen) :
    Gives (expressionBefore (fuel + 1) m) w (stop :: rest)
      (·.map Expr.anonymous = o.map Expr.anonymous) := by
  unfold expressionBefore
  cases h with
  | absent => exact .seen (b := true) (by simp [Token.isMark, kind]) (.pure rfl)
  | present inner =>
    have opened : Opens opensExpression w := inner.opening
    have apart : ∀ k ∈ [TokenKind.mark m], opensExpression k = false := by
      rcases closing with rfl | rfl
      · decide
      · decide
    have refused := (opened.bars [.mark m] apart (stop :: rest)).refuses (·.isMark m) fun t passed => by
      simpa [Token.isMark] using passed
    refine .seen (b := false) refused ?_
    refine .map (ih.expression inner enough (expression_barred kind closing)) fun a same => ?_
    simp [same]

theorem firstClause_complete (ih : ReadersComplete fuel) {o : Option Stmt}
    (h : Derives (.firstClause o) w) (enough : 16 * w.length + 1 ≤ fuel) :
    Gives (firstClause (fuel + 1)) w rest (·.map Stmt.anonymous = o.map Stmt.anonymous) := by
  unfold firstClause
  cases h with
  | noClause stop => exact .onMark stop (.pure rfl)
  | variableClause opening inner =>
    rw [List.length_cons] at enough
    refine .pastMark (.cons (by simp [opening])) (.onKeyword opening ?_)
    exact .bindLast (ih.variableRest inner (by omega)) fun s same => .pure (by simp [same])
  | sentenceClause inner =>
    have opened : Opens opensExpression w := inner.opening
    refine .pastMark (opened.bars _ (by decide) rest) (.pastKeyword (opened.bars _ (by decide) rest) ?_)
    exact .bindLast (ih.expressionStatement inner (by omega)) fun s same => .pure (by simp [same])

theorem spelledLoop_anonymous (initial : Option Stmt) (condition step : Option Expr) (body : Stmt) :
    (spelledLoop initial condition step body).anonymous =
      spelledLoop (initial.map Stmt.anonymous) (condition.map Expr.anonymous)
        (step.map Expr.anonymous) body.anonymous := by
  cases initial <;> cases condition <;> cases step <;>
    simp [spelledLoop, Stmt.anonymous, Stmt.anonymousAll, Expr.anonymous]

theorem forStatement_complete (ih : ReadersComplete fuel) {hungry : Bool} {s : Stmt} {keyword : Token}
    (h : Derives (.statement hungry s) (keyword :: w)) (isFor : keyword.kind = .keyword .forWord)
    (enough : 16 * w.length ≤ fuel) (barred : hungry = true → Bars [.keyword .elseWord] rest) :
    Gives (forStatement (fuel + 1)) w rest (·.anonymous = s.anonymous) := by
  unfold forStatement
  cases h with
  | forStatement opening left first test stop last right inner =>
    simp only [List.length_cons, List.length_append] at enough
    refine .mark left (.bind (ih.firstClause first (by omega)) fun i firstSame => ?_)
    refine .bind (ih.expressionBefore test (by omega) stop (.inl rfl)) fun c testSame => .mark stop ?_
    refine .bind (ih.expressionBefore last (by omega) right (.inr rfl)) fun s lastSame => .mark right ?_
    refine .bindLast (ih.statement inner (by omega) barred) fun b bodySame => .pure ?_
    rw [forLoop_spelled, spelledLoop_anonymous, spelledLoop_anonymous, firstSame, testSame, lastSame,
      bodySame]
  | sentenceStatement inner =>
    obtain ⟨t, more, same, opening, _⟩ := (inner.opening : Opens opensExpression _)
    cases same
    rw [isFor] at opening
    cases opening
  | ifStatement opening | ifElseStatement opening | printStatement opening | returnStatement opening
  | whileStatement opening | breakStatement opening | blockStatement opening =>
    cases isFor.symm.trans opening

theorem giveBack_anonymous (keyword : Token) (o : Option Expr) :
    (Stmt.giveBack keyword o).anonymous = .giveBack keyword (o.map Expr.anonymous) := by
  cases o <;> rfl

theorem statement_complete (ih : ReadersComplete fuel) {hungry : Bool} {s : Stmt}
    (h : Derives (.statement hungry s) w) (enough : 16 * w.length + 1 ≤ fuel)
    (barred : hungry = true → Bars [.keyword .elseWord] rest) :
    Gives (statement (fuel + 1)) w rest (·.anonymous = s.anonymous) := by
  unfold statement
  cases h with
  | forStatement opening left first test stop last right inner =>
    have whole := Derives.forStatement opening left first test stop last right inner
    rw [List.length_cons] at enough
    exact .onKeyword opening (ih.forStatement whole opening (by omega) barred)
  | ifStatement opening left test right inner =>
    simp only [List.length_cons, List.length_append] at enough
    refine .pastKeyword (.cons (by simp [opening])) (.onKeyword opening (.mark left ?_))
    refine .bind (ih.expression test (by omega) (expression_barred right (.inr rfl))) fun c testSame => ?_
    refine .mark right (.bindLast (ih.statement inner (by omega) fun _ => barred rfl) fun y yesSame => ?_)
    refine .pastKeyword (w := []) (barred rfl) (.pure ?_)
    simp [Stmt.anonymous, testSame, yesSame]
  | @ifElseStatement condition u yes v _ no w _ _ _ _ opening left test right inner middle other =>
    simp only [List.length_cons, List.length_append] at enough
    have otherwise : Gives (some <$> statement fuel) w rest
        fun o => ∃ a, o = some a ∧ a.anonymous = no.anonymous :=
      .map (ih.statement other (by omega) barred) fun a same => ⟨a, rfl, same⟩
    refine .pastKeyword (.cons (by simp [opening])) (.onKeyword opening (.mark left ?_))
    refine .bind (ih.expression test (by omega) (expression_barred right (.inr rfl))) fun c testSame => ?_
    have sated {more : List Token} : false = true → Bars [.keyword .elseWord] more :=
      fun fed => absurd fed Bool.false_ne_true
    refine .mark right (.bind (ih.statement inner (by omega) sated) fun y yesSame => ?_)
    refine .onKeyword middle (.bindLast otherwise ?_)
    rintro _ ⟨n, rfl, noSame⟩
    exact .pure (by simp [Stmt.anonymous, testSame, yesSame, noSame])
  | whileStatement opening left test right inner =>
    simp only [List.length_cons, List.length_append] at enough
    refine .pastKeyword (.cons (by simp [opening])) (.pastKeyword (.cons (by simp [opening])) ?_)
    refine .onKeyword opening (.mark left ?_)
    refine .bind (ih.expression test (by omega) (expression_barred right (.inr rfl))) fun c testSame => ?_
    refine .mark right (.bindLast (ih.statement inner (by omega) barred) fun b bodySame => .pure ?_)
    simp [Stmt.anonymous, testSame, bodySame]
  | returnStatement opening inner stop =>
    simp only [List.length_cons, List.length_append, List.length_nil] at enough
    refine .pastKeyword (.cons (by simp [opening])) (.pastKeyword (.cons (by simp [opening])) ?_)
    refine .pastKeyword (.cons (by simp [opening])) (.onToken (by simp [Token.isKeyword, opening]) ?_)
    refine .bind (ih.expressionBefore inner (by omega) stop (.inl rfl)) fun o same => .mark stop (.pure ?_)
    rw [giveBack_anonymous, giveBack_anonymous, same]
  | breakStatement opening stop =>
    refine .pastKeyword (.cons (by simp [opening])) (.pastKeyword (.cons (by simp [opening])) ?_)
    refine .pastKeyword (.cons (by simp [opening])) (.pastToken (by simp [Token.isKeyword, opening]) ?_)
    exact .onToken (by simp [Token.isKeyword, opening]) (.mark stop (.pure rfl))
  | blockStatement start inner stop =>
    simp only [List.length_cons, List.length_append, List.length_nil] at enough
    refine .pastKeyword (.cons (by simp [start])) (.pastKeyword (.cons (by simp [start])) ?_)
    refine .pastKeyword (.cons (by simp [start])) (.pastToken (by simp [Token.isKeyword, start]) ?_)
    refine .pastToken (by simp [Token.isKeyword, start]) (.onMark start ?_)
    refine .bindLast (ih.block inner (by omega) stop) fun ss same => .pure ?_
    simp [Stmt.anonymous, same]
  | printStatement opening inner stop =>
    simp only [List.length_cons, List.length_append, List.length_nil] at enough
    refine .pastKeyword (.cons (by simp [opening])) (.pastKeyword (.cons (by simp [opening])) ?_)
    refine .pastKeyword (.cons (by simp [opening])) (.pastToken (by simp [Token.isKeyword, opening]) ?_)
    refine .pastToken (by simp [Token.isKeyword, opening]) (.pastMark (.cons (by simp [opening])) ?_)
    refine .onToken (by simp [Token.isKeyword, opening]) ?_
    refine .bind (ih.expression inner (by omega) (expression_barred stop (.inl rfl))) fun a same => ?_
    exact .mark stop (.pure (by simp [Stmt.anonymous, same]))
  | sentenceStatement inner =>
    have opened : Opens opensExpression w := inner.opening
    have barredWord : ∀ k, opensExpression (.keyword k) = false → Bars [.keyword k] (w ++ rest) :=
      fun k closed => opened.bars _ (by simpa using closed) rest
    have refused : ∀ k, opensExpression (.keyword k) = false →
        (w ++ rest).head?.any (·.isKeyword k) = false := fun k closed =>
      (barredWord k closed).refuses (·.isKeyword k) fun t passed => by
        simpa [Token.isKeyword] using passed
    refine .pastKeyword (barredWord _ rfl) (.pastKeyword (barredWord _ rfl) ?_)
    refine .pastKeyword (barredWord _ rfl) (.pastToken (refused _ rfl) ?_)
    refine .pastToken (refused _ rfl) (.pastMark (opened.bars _ (by decide) rest) ?_)
    exact .pastToken (refused _ rfl) (ih.expressionStatement inner (by omega))

-- Without fuel there is nothing to give: phrases that need none are never empty.
theorem readers_complete_none : ReadersComplete 0 where
  expression h enough _ := absurd (Opens.length_pos h.opening) (by omega)
  rank {k _ _ _} h enough _ := by
    have low : k.height ≤ 6 := by cases k <;> decide
    exact absurd (Opens.length_pos h.opening) (by omega)
  last h enough _ := absurd (Opens.length_pos h.opening) (by omega)
  further _ _ enough _ := absurd enough (by omega)
  unary h enough _ := absurd (Opens.length_pos h.opening) (by omega)
  suffixes _ _ enough _ := absurd enough (by omega)
  arguments _ enough _ _ := absurd enough (by omega)
  primary h enough := absurd (Opens.length_pos h.opening) (by omega)
  parameterNames _ enough _ _ := absurd enough (by omega)
  routine h enough := by
    obtain ⟨t, more, rfl, _⟩ := h.opening
    simp at enough
  block _ enough _ := absurd enough (by omega)
  declaration _ enough _ := absurd enough (by omega)
  methods _ enough _ := absurd enough (by omega)
  variableRest h enough := by cases h <;> simp at enough
  statement _ enough _ := absurd enough (by omega)
  forStatement _ _ enough _ := absurd enough (by omega)
  firstClause _ enough := absurd enough (by omega)
  expressionBefore _ enough _ _ := absurd enough (by omega)
  expressionStatement h enough := by
    have opened : Opens opensExpression _ := h.opening
    exact absurd opened.length_pos (by omega)

theorem readers_complete (fuel : Nat) : ReadersComplete fuel := by
  induction fuel with
  | zero => exact readers_complete_none
  | succ fuel ih =>
    exact {
      expression := expression_complete ih
      rank := rank_complete ih
      last := last_complete ih
      further := fun h same enough => further_complete ih h same (by omega)
      unary := unary_complete ih
      suffixes := fun h same enough => suffixes_complete ih h same (by omega)
      arguments := fun h enough => arguments_complete ih h (by omega)
      primary := primary_complete ih
      parameterNames := fun h enough => parameterNames_complete ih h (by omega)
      routine := routine_complete ih
      block := fun h enough => block_complete ih h (by omega)
      declaration := fun h enough => declaration_complete ih h (by omega)
      methods := fun h enough => methods_complete ih h (by omega)
      variableRest := variableRest_complete ih
      statement := fun h enough => statement_complete ih h (by omega)
      forStatement := fun h isFor enough => forStatement_complete ih h isFor (by omega)
      firstClause := fun h enough => firstClause_complete ih h (by omega)
      expressionBefore := fun h enough => expressionBefore_complete ih h (by omega)
      expressionStatement := expressionStatement_complete ih }

theorem declarations_complete {ss : List Stmt} (h : Derives (.declarations ss) w)
    (enough : 16 * w.length + 16 ≤ fuel) :
    Gives (declarations fuel) w [] (Stmt.anonymousAll · = Stmt.anonymousAll ss) := by
  induction fuel generalizing ss w with
  | zero => omega
  | succ fuel ih =>
    unfold declarations
    cases h with
    | noDeclarations =>
      refine .skip (a := true) (fun c ahead => ?_) (.pure rfl)
      simp [atEnd, Cursor.atEnd, ahead]
    | @declarations s v more w first others =>
      obtain ⟨t, tail, same, _⟩ := first.opening
      have nonempty : 1 ≤ v.length := by simp [same]
      have behind : Bars [.keyword .elseWord] (w ++ []) := by
        cases others with
        | noDeclarations => exact .nil
        | declarations next _ =>
          obtain ⟨u, _, rfl, opening⟩ := next.opening
          refine .cons fun member => ?_
          rw [List.mem_singleton.mp member] at opening
          cases opening
      rw [List.length_append] at enough
      refine .skip (a := false) (fun c ahead => ?_) ?_
      · simp [atEnd, Cursor.atEnd, ahead, same]
      · refine .bind (.recovering ((readers_complete fuel).declaration first (by omega) behind)) ?_
        rintro _ ⟨a, rfl, firstSame⟩
        refine .bindLast (ih others (by omega)) fun as othersSame => .pure ?_
        simp [Stmt.anonymousAll, firstSame, othersSame]

theorem wholeExpression_complete {e : Expr} (h : Derives (.expression e) w)
    (enough : 16 * w.length ≤ fuel) :
    Gives (wholeExpression fuel) w [] (·.anonymous = e.anonymous) := by
  unfold wholeExpression
  refine .bindLast ((readers_complete fuel).expression h enough .nil) fun a same => ?_
  refine .skip (a := true) (fun c ahead => ?_) (.pure same)
  simp [atEnd, Cursor.atEnd, ahead]

theorem finish_complete {x : Reading α} (hx : Gives x w [] good) (stop : Token) (next : RefId) :
    ∃ a later, finish (x ⟨w, stop, next, []⟩) = (.ok a, later) ∧ good a := by
  obtain ⟨a, later, same, goodA⟩ := hx stop next []
  rw [List.append_nil] at same
  exact ⟨a, later, by rw [same]; rfl, goodA⟩

end ScopeScript
