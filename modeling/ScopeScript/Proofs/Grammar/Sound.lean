import ScopeScript.Grammar.Read
import ScopeScript.Proofs.Grammar.Shape
import ScopeScript.Proofs.Grammar.Taking

namespace ScopeScript

open Reading

-- The levels of operators as the reader holds them, from a rank on.
def Rank.level : Rank → Level
  | disjunction => ⟨[.keyword .orWord], .logical⟩
  | conjunction => ⟨[.keyword .andWord], .logical⟩
  | equality => ⟨[.mark .bangEqual, .mark .equalEqual], .binary⟩
  | comparison => ⟨[.mark .greater, .mark .greaterEqual, .mark .less, .mark .lessEqual], .binary⟩
  | sum => ⟨[.mark .minus, .mark .plus], .binary⟩
  | product => ⟨[.mark .star, .mark .slash], .binary⟩

def Rank.tighter : Rank → List Level
  | disjunction => [conjunction.level, equality.level, comparison.level, sum.level, product.level]
  | conjunction => [equality.level, comparison.level, sum.level, product.level]
  | equality => [comparison.level, sum.level, product.level]
  | comparison => [sum.level, product.level]
  | sum => [product.level]
  | product => []

theorem levels_ranked : levels = Rank.disjunction.level :: Rank.disjunction.tighter := rfl

theorem Rank.level_holds (k : Rank) (t : Token) : k.level.holds t = true ↔ t.kind ∈ k.operators := by
  cases k <;> simp [level, Level.holds, operators, or_comm]

theorem Rank.level_join (k : Rank) : k.level.join = k.node := by
  cases k <;> rfl

-- A reader never stops a hungry statement before an else.
def Sated (hungry : Bool) (rest : List Token) : Prop :=
  hungry = true → ∀ t more, rest = t :: more → t.kind ≠ .keyword .elseWord

-- What every reader takes with a given amount of fuel.
structure ReadersSound (fuel : Nat) : Prop where
  expression : Sound (expression fuel) fun e w _ => Derives (.expression e) w
  rank : ∀ k : Rank, Sound (operand fuel (k.level :: k.tighter)) fun e w _ => Derives (.rank k e) w
  last : Sound (operand fuel []) fun e w _ => Derives (.unary e) w
  further : ∀ (k : Rank) left,
    Sound (operators fuel k.level k.tighter left) fun e w _ => Derives (.further k left e) w
  unary : Sound (unary fuel) fun e w _ => Derives (.unary e) w
  suffixes : ∀ before, Sound (suffixes fuel before) fun e w _ => Derives (.suffixes before e) w
  arguments : ∀ already, Sound (arguments fuel already) fun es w _ =>
    Derives (.expressions es) w ∧ already + es.length ≤ 255
  primary : Sound (primary fuel) fun e w _ => Derives (.primary e) w
  parameterNames : ∀ already, Sound (parameterNames fuel already) fun ps w _ =>
    Derives (.names ps) w ∧ already + ps.length ≤ 255
  routine : ∀ head first second, Sound (routine fuel head first second) fun r w _ =>
    ∃ ps body, r = .mk head ps body ∧ Derives (.routine r) w
  block : Sound (block fuel) fun ss w _ => ∃ v close,
    w = v ++ [close] ∧ close.kind = .mark .rightBrace ∧ Derives (.declarations ss) v
  declaration : Sound (declaration fuel) fun s w _ => Derives (.declaration s) w
  methods : Sound (methods fuel) fun rs w _ => Derives (.functions rs) w
  variableRest : Sound (variableRest fuel) fun s w _ => Derives (.variable s) w
  statement : Sound (statement fuel) fun s w rest => ∃ hungry,
    Derives (.statement hungry s) w ∧ Sated hungry rest
  forStatement : Sound (forStatement fuel) fun s w rest => ∃ hungry,
    (∀ keyword : Token, keyword.kind = .keyword .forWord →
      Derives (.statement hungry s) (keyword :: w)) ∧ Sated hungry rest
  firstClause : Sound (firstClause fuel) fun o w _ => Derives (.firstClause o) w
  expressionBefore : ∀ m, Sound (expressionBefore fuel m) fun o w _ => Derives (.optional o) w
  expressionStatement : Sound (expressionStatement fuel) fun s w _ => Derives (.sentence s) w

variable {fuel : Nat}

theorem assignTo_sound (equals : Token) (value target : Expr) :
    Sound (assignTo equals value target) fun e w _ => w = [] ∧
      ((∃ i j name, target = .variable i name ∧ e = .assign j name value) ∨
        ∃ object name, target = .get object name ∧ e = .set object name value) := by
  unfold assignTo
  split
  · rename_i i name
    refine .bind .fresh fun j => .pure fun rest v taken => ?_
    exact ⟨by simpa using taken, .inl ⟨i, j, name, rfl, rfl⟩⟩
  · rename_i object name
    exact .pure fun rest => ⟨rfl, .inr ⟨object, name, rfl, rfl⟩⟩
  · exact .bind (.complain _ _) fun _ => .pure fun rest v impossible => impossible.elim

theorem expression_sound (ih : ReadersSound fuel) :
    Sound (expression (fuel + 1)) fun e w _ => Derives (.expression e) w := by
  unfold expression
  rw [levels_ranked]
  refine .bind (ih.rank .disjunction) fun target => .bind (.accept? _) ?_
  rintro (_ | equals)
  · refine .pure fun rest v ⟨nothing, _⟩ u known => ?_
    simpa [nothing] using Derives.expression known
  refine .bind ih.expression fun value => .mono (assignTo_sound _ _ _) ?_
  rintro e w rest ⟨rfl, built⟩ x right v ⟨rfl, isEqual⟩ u left
  have equal : equals.kind = .mark .equal := by simpa [Token.isMark] using isEqual
  rcases built with ⟨i, j, name, rfl, rfl⟩ | ⟨object, name, rfl, rfl⟩
  · obtain ⟨named, rfl⟩ := Derives.call_variable (Derives.call_of_rank trivial left)
    simpa using Derives.assignVariable named equal right
  · obtain ⟨v, dot, rfl, point, named, object⟩ :=
      Derives.call_get (Derives.call_of_rank trivial left)
    simpa using Derives.assignProperty object point named equal right

theorem operand_sound (ih : ReadersSound fuel) (k : Rank) :
    Sound (operand fuel k.tighter) fun e w _ => Derives (.operand k e) w := by
  cases k with
  | disjunction => exact ih.rank .conjunction
  | conjunction => exact ih.rank .equality
  | equality => exact ih.rank .comparison
  | comparison => exact ih.rank .sum
  | sum => exact ih.rank .product
  | product => exact ih.last

theorem rank_sound (ih : ReadersSound fuel) (k : Rank) :
    Sound (operand (fuel + 1) (k.level :: k.tighter)) fun e w _ => Derives (.rank k e) w := by
  unfold operand
  refine .bind (operand_sound ih k) fun left => .mono (ih.further k left) ?_
  intro e w rest others v first
  exact .rank first others

theorem last_sound (ih : ReadersSound fuel) :
    Sound (operand (fuel + 1) []) fun e w _ => Derives (.unary e) w := by
  unfold operand
  exact ih.unary

theorem further_sound (ih : ReadersSound fuel) (k : Rank) (left : Expr) :
    Sound (operators (fuel + 1) k.level k.tighter left) fun e w _ => Derives (.further k left e) w := by
  unfold operators
  refine .bind (.accept? _) ?_
  rintro (_ | operator)
  · refine .pure fun rest v ⟨nothing, _⟩ => ?_
    simpa [nothing] using Derives.noFurther
  refine .bind (operand_sound ih k) fun right => .mono (ih.further k _) ?_
  rintro e w rest others v next u ⟨rfl, held⟩
  rw [k.level_join] at others
  simpa using Derives.further ((k.level_holds operator).mp held) next others

theorem unary_sound (ih : ReadersSound fuel) :
    Sound (unary (fuel + 1)) fun e w _ => Derives (.unary e) w := by
  unfold unary
  refine .onToken _ (fun operator => ?_) ?_
  · refine .bind ih.unary fun e => .pure fun rest v inner passed => ?_
    have spelled : operator.kind ∈ [.mark .bang, .mark .minus] := by
      simpa [isUnaryOperator, Token.isMark] using passed
    simpa using Derives.unary spelled inner
  · refine .bind ih.primary fun first => .mono (ih.suffixes first) ?_
    intro e w rest others v known _
    exact .plainUnary (.call known others)

theorem suffixes_sound (ih : ReadersSound fuel) (before : Expr) :
    Sound (suffixes (fuel + 1) before) fun e w _ => Derives (.suffixes before e) w := by
  unfold suffixes
  refine .onMark _ ?_ (.onMark _ ?_ (.pure fun _ => .noSuffixes))
  · have closing : ∀ es, Sound
        (expectMark .rightParen .argumentsEnd >>= fun close => suffixes fuel (.call before close es))
        fun e w _ => ∀ v, Derives (.values es) v → ∀ t : Token, t.kind = .mark .leftParen →
          Derives (.suffixes before e) (t :: (v ++ w)) := by
      refine fun es => .mark _ _ fun close => .mono (ih.suffixes _) ?_
      intro e w rest others right v inner t left
      exact .callSuffix left inner right others
    refine .seen _ (.mono (closing []) fun e w rest known => known [] .noValues) ?_
    refine .bind (ih.arguments 0) fun es => .mono (closing es) fun e w rest known v inner => ?_
    exact known v (.values inner.1 (by omega))
  · refine .name _ fun name => .mono (ih.suffixes _) ?_
    intro e w rest others named dot point
    exact .getSuffix point named others

theorem arguments_sound (ih : ReadersSound fuel) (already : Nat) :
    Sound (arguments (fuel + 1) already) fun es w _ =>
      Derives (.expressions es) w ∧ already + es.length ≤ 255 := by
  unfold arguments
  have entries : Sound (do
      let value ← expression fuel
      if ← acceptMark .comma then return value :: (← arguments fuel (already + 1)) else return [value])
      fun es w _ => already < 255 → Derives (.expressions es) w ∧ already + es.length ≤ 255 := by
    refine .bind ih.expression fun e => .onMark _ ?_ (.pure fun rest v inner few => ?_)
    · refine .bind (ih.arguments _) fun es => .pure fun rest w others sep comma v inner few => ?_
      refine ⟨by simpa using Derives.expressions inner comma others.1, ?_⟩
      have fewer := others.2
      rw [List.length_cons]
      omega
    · rw [List.append_nil]
      exact ⟨.lastExpression inner, Nat.succ_le_of_lt few⟩
  refine .ite (fun _ => ?_) fun few => ?_
  · exact .bind .look fun t => .bind (.complain _ _) fun _ =>
      .mono entries fun _ _ _ _ _ impossible => impossible.elim
  · refine .mono entries fun es w rest known => known ?_
    simpa [listLimit] using few

theorem parameterNames_sound (ih : ReadersSound fuel) (already : Nat) :
    Sound (parameterNames (fuel + 1) already) fun ps w _ =>
      Derives (.names ps) w ∧ already + ps.length ≤ 255 := by
  unfold parameterNames
  have entries : Sound (do
      let name ← expectName .parameter
      if ← acceptMark .comma then return name :: (← parameterNames fuel (already + 1)) else return [name])
      fun ps w _ => already < 255 → Derives (.names ps) w ∧ already + ps.length ≤ 255 := by
    refine .name _ fun name => .onMark _ ?_ (.pure fun rest named few => ?_)
    · refine .bind (ih.parameterNames _) fun ps => .pure fun rest w others sep comma named few => ?_
      refine ⟨by simpa using Derives.names named comma others.1, ?_⟩
      have fewer := others.2
      rw [List.length_cons]
      omega
    · exact ⟨.lastName named, Nat.succ_le_of_lt few⟩
  refine .ite (fun _ => ?_) fun few => ?_
  · exact .bind .look fun t => .bind (.complain _ _) fun _ =>
      .mono entries fun _ _ _ _ _ impossible => impossible.elim
  · refine .mono entries fun es w rest known => known ?_
    simpa [listLimit] using few

theorem parameterList_sound (ih : ReadersSound fuel) :
    Sound (parameterList fuel) fun ps w _ => ∃ v close, w = v ++ [close] ∧
      close.kind = .mark .rightParen ∧ Derives (.parameters ps) v := by
  unfold parameterList
  have closing : ∀ ps, Sound (do let _ ← expectMark .rightParen .parametersEnd; return ps)
      fun qs w _ => ∀ v, Derives (.parameters ps) v → ∃ u close, v ++ w = u ++ [close] ∧
        close.kind = .mark .rightParen ∧ Derives (.parameters qs) u := by
    refine fun ps => .mark _ _ fun close => .pure fun rest right v names => ?_
    exact ⟨v, close, rfl, right, names⟩
  refine .seen _ (.mono (closing []) fun qs w rest known => known [] .noParameters) ?_
  refine .bind (ih.parameterNames 0) fun ps => .mono (closing ps) fun qs w rest known v names => ?_
  exact known v (.parameters names.1 (by omega))

theorem routine_sound (ih : ReadersSound fuel) (head : Token) (first second : Slot) :
    Sound (routine (fuel + 1) head first second) fun r w _ =>
      ∃ ps body, r = .mk head ps body ∧ Derives (.routine r) w := by
  unfold routine
  refine .mark _ _ fun open_ => .bind (parameterList_sound ih) fun ps => .mark _ _ fun brace => ?_
  refine .bind ih.block fun body => .pure fun rest w inner start v names left => ?_
  obtain ⟨statements, unbrace, rfl, stop, inner⟩ := inner
  obtain ⟨parameters, close, rfl, right, names⟩ := names
  exact ⟨ps, body, rfl, by simpa using Derives.routine left names right start inner stop⟩

theorem primary_sound (ih : ReadersSound fuel) :
    Sound (primary (fuel + 1)) fun e w _ => Derives (.primary e) w := by
  unfold primary
  refine .onToken _ (fun t => .pure fun rest known => ?_) <| .onToken _ (fun t => ?_) <|
    .onToken _ (fun t => ?_) <| .onToken _ (fun t => ?_) <| .onMark _ ?_ (.fail _)
  · unfold Token.literal? at known ⊢
    split at known
    · exact .false ‹_›
    · exact .true ‹_›
    · exact .nil ‹_›
    · exact .number ‹_›
    · exact .string ‹_›
    · cases known
  · refine .bind .fresh fun i => .pure fun rest v nothing passed _ => ?_
    rw [nothing]
    exact .this (by simpa [Token.isKeyword] using passed)
  · refine .bind .fresh fun i => .pure fun rest v nothing passed _ _ => ?_
    rw [nothing]
    exact .name (by simpa [Token.isIdentifier] using passed)
  · refine .bind (ih.routine _ _ _) fun r => .pure fun rest v known passed _ _ _ => ?_
    obtain ⟨ps, body, rfl, inner⟩ := known
    simpa using Derives.lambda (by simpa [Token.isKeyword] using passed) inner
  · refine .bind ih.expression fun e => .mark _ _ fun close => .pure fun rest right v inner t left => ?_
    intro _ _ _ _
    exact .grouping left inner right

-- Behind a brace without a fault the statements stand up to the closing one.
theorem block_sound (ih : ReadersSound fuel) :
    Sound (block (fuel + 1)) fun ss w _ => ∃ v close,
      w = v ++ [close] ∧ close.kind = .mark .rightBrace ∧ Derives (.declarations ss) v := by
  unfold block
  refine .bind (.sees _) fun brace => .bind .atEnd fun stop => .ite (fun _ => ?_) fun _ => ?_
  · refine .mark _ _ fun close => .pure fun rest right u nothing v empty => ?_
    exact ⟨[], close, by simp [nothing.1, show v = [] from empty], right, .noDeclarations⟩
  · refine .bind (.recovering ih.declaration) fun first => .bind ih.block fun others => ?_
    refine .pure fun rest w later v known u nothing x empty => ?_
    obtain ⟨s, rfl, first⟩ := known
    obtain ⟨y, close, rfl, right, later⟩ := later
    refine ⟨v ++ y, close, by simp [nothing.1, show x = [] from empty], right, ?_⟩
    exact .declarations first later

theorem methods_sound (ih : ReadersSound fuel) :
    Sound (methods (fuel + 1)) fun rs w _ => Derives (.functions rs) w := by
  unfold methods
  refine .bind (.sees _) fun brace => .bind .atEnd fun stop => .ite (fun _ => ?_) fun _ => ?_
  · refine .pure fun rest u nothing v empty => ?_
    simpa [nothing.1, show v = [] from empty] using Derives.noFunctions
  · refine .name _ fun name => .bind (ih.routine _ _ _) fun first => .bind ih.methods fun others => ?_
    refine .pure fun rest w later v known named u nothing x empty => ?_
    obtain ⟨ps, body, rfl, first⟩ := known
    simpa [nothing.1, show x = [] from empty] using Derives.functions (.function named first) later

theorem declaration_sound (ih : ReadersSound fuel) :
    Sound (declaration (fuel + 1)) fun s w _ => Derives (.declaration s) w := by
  unfold declaration
  refine .onKeyword _ ?_ (.bind .declaresFunction fun declares => .ite (fun seen => ?_) fun _ =>
    .onKeyword _ ?_ ?_)
  · refine .name _ fun name => .mark _ _ fun open_ => .bind ih.methods fun rs => .mark _ _ fun close => ?_
    refine .pure fun rest right v inner left named keyword opening => ?_
    exact .classes opening named left inner right
  · refine .bind (.acceptKeyword _) fun taken => .name _ fun name => .bind (ih.routine _ _ _) fun r => ?_
    refine .pure fun rest v known named u keyword x declared _ => ?_
    obtain ⟨ps, body, rfl, inner⟩ := known
    obtain ⟨rfl, present⟩ := declared
    obtain ⟨t, more, ahead, kind⟩ := present seen
    cases taken with
    | false =>
      obtain ⟨rfl, absent⟩ := keyword
      exact absurd kind (absent t more ahead)
    | true =>
      obtain ⟨opener, opening, rfl⟩ := keyword
      simpa using Derives.functionDeclaration opening (.function named inner)
  · refine .mono ih.variableRest fun s w rest inner t opening v known _ => ?_
    rw [known.1]
    exact .variableDeclaration opening inner
  · refine .mono ih.statement fun s w rest inner _ v known _ => ?_
    obtain ⟨hungry, inner, _⟩ := inner
    rw [known.1]
    exact .statement inner

theorem variableRest_sound (ih : ReadersSound fuel) :
    Sound (variableRest (fuel + 1)) fun s w _ => Derives (.variable s) w := by
  unfold variableRest
  refine .name _ fun name => .onMark _ ?_ ?_
  · refine .bind (.map ih.expression (p := fun o w _ => ∃ e, o = some e ∧
      Derives (.expression e) w) fun e w _ inner => ⟨e, rfl, inner⟩) fun o => .mark _ _ fun stop => ?_
    refine .pure fun rest semicolon v inner equals equal named => ?_
    obtain ⟨e, rfl, inner⟩ := inner
    exact .filledVariable named equal inner semicolon
  · exact .mark _ _ fun stop => .pure fun rest semicolon named => .plainVariable named semicolon

theorem expressionStatement_sound (ih : ReadersSound fuel) :
    Sound (expressionStatement (fuel + 1)) fun s w _ => Derives (.sentence s) w := by
  unfold expressionStatement
  refine .bind ih.expression fun e => .mark _ _ fun stop => .pure fun rest semicolon v inner => ?_
  exact .sentence inner semicolon

theorem expressionBefore_sound (ih : ReadersSound fuel) (m : Mark) :
    Sound (expressionBefore (fuel + 1) m) fun o w _ => Derives (.optional o) w := by
  unfold expressionBefore
  exact .seen _ (.pure fun _ => .absent) (.map ih.expression fun e w _ inner => .present inner)

theorem firstClause_sound (ih : ReadersSound fuel) :
    Sound (firstClause (fuel + 1)) fun o w _ => Derives (.firstClause o) w := by
  unfold firstClause
  refine .onMark _ (.pure fun rest t stop => .noClause stop) (.onKeyword _ ?_ ?_)
  · refine .bind ih.variableRest fun s => .pure fun rest v inner t opening => ?_
    simpa using Derives.variableClause opening inner
  · refine .bind ih.expressionStatement fun s => .pure fun rest v inner _ => ?_
    simpa using Derives.sentenceClause inner

theorem forLoop_spelled (initial : Option Stmt) (condition step : Option Expr) (body : Stmt) :
    forLoop initial condition step body = spelledLoop initial condition step body := by
  cases initial <;> cases step <;> rfl

theorem forStatement_sound (ih : ReadersSound fuel) :
    Sound (forStatement (fuel + 1)) fun s w rest => ∃ hungry,
      (∀ keyword : Token, keyword.kind = .keyword .forWord →
        Derives (.statement hungry s) (keyword :: w)) ∧ Sated hungry rest := by
  unfold forStatement
  refine .mark _ _ fun open_ => .bind ih.firstClause fun initial => ?_
  refine .bind (ih.expressionBefore _) fun condition => .mark _ _ fun stop => ?_
  refine .bind (ih.expressionBefore _) fun step => .mark _ _ fun close => ?_
  refine .bind ih.statement fun body => .pure fun rest x inner right w last semicolon v test u first left => ?_
  obtain ⟨hungry, inner, sated⟩ := inner
  refine ⟨hungry, fun keyword opening => ?_, sated⟩
  rw [forLoop_spelled, List.append_nil]
  exact .forStatement opening left first test semicolon last right inner

theorem statement_sound (ih : ReadersSound fuel) :
    Sound (statement (fuel + 1)) fun s w rest => ∃ hungry,
      Derives (.statement hungry s) w ∧ Sated hungry rest := by
  unfold statement
  refine .onKeyword _ ?_ <| .onKeyword _ ?_ <| .onKeyword _ ?_ <| .onToken _ (fun t => ?_) <|
    .onToken _ (fun t => ?_) <| .onMark _ ?_ <| .onToken _ (fun t => ?_) ?_
  · refine .mono ih.forStatement fun s w rest known t opening => ?_
    obtain ⟨hungry, inner, sated⟩ := known
    exact ⟨hungry, inner t opening, sated⟩
  · refine .mark _ _ fun open_ => .bind ih.expression fun condition => .mark _ _ fun close => ?_
    refine .bind ih.statement fun yes => .onKeyword _ ?_ (.pure fun rest without w inner right v test left t opening _ => ?_)
    · refine .bind (.map ih.statement (p := fun o w rest => ∃ no hungry, o = some no ∧
        Derives (.statement hungry no) w ∧ Sated hungry rest) fun no w rest known => ?_) fun o => ?_
      · obtain ⟨hungry, inner, sated⟩ := known
        exact ⟨no, hungry, rfl, inner, sated⟩
      refine .pure fun rest x other middle isElse v first right u test left t opening _ => ?_
      obtain ⟨no, hungry, rfl, other, sated⟩ := other
      obtain ⟨fed, first, stopped⟩ := first
      -- The first branch was read up to an else, so none of its conditionals waits for one.
      cases fed with
      | true => exact absurd isElse (stopped rfl middle _ rfl)
      | false =>
        refine ⟨hungry, ?_, sated⟩
        simpa using Derives.ifElseStatement opening left test right first isElse other
    · obtain ⟨fed, inner, _⟩ := inner
      refine ⟨true, by simpa using Derives.ifStatement opening left test right inner, fun _ => ?_⟩
      simpa using without
  · refine .mark _ _ fun open_ => .bind ih.expression fun condition => .mark _ _ fun close => ?_
    refine .bind ih.statement fun body => .pure fun rest w inner right v test left t opening _ _ => ?_
    obtain ⟨hungry, inner, sated⟩ := inner
    refine ⟨hungry, ?_, sated⟩
    simpa using Derives.whileStatement opening left test right inner
  · refine .bind (ih.expressionBefore _) fun value => .mark _ _ fun stop => ?_
    refine .pure fun rest semicolon v inner passed _ _ _ => ?_
    have opening : t.kind = .keyword .returnWord := by simpa [Token.isKeyword] using passed
    exact ⟨false, .returnStatement opening inner semicolon, fun fed => absurd fed Bool.false_ne_true⟩
  · refine .mark _ _ fun stop => .pure fun rest semicolon passed _ _ _ _ => ?_
    have opening : t.kind = .keyword .breakWord := by simpa [Token.isKeyword] using passed
    exact ⟨false, .breakStatement opening semicolon, fun fed => absurd fed Bool.false_ne_true⟩
  · refine .bind ih.block fun body => .pure fun rest v inner t start _ _ _ _ _ => ?_
    obtain ⟨statements, close, rfl, stop, inner⟩ := inner
    refine ⟨false, ?_, fun fed => absurd fed Bool.false_ne_true⟩
    simpa using Derives.blockStatement start inner stop
  · refine .bind ih.expression fun e => .mark _ _ fun stop => ?_
    refine .pure fun rest semicolon v inner passed _ _ _ _ _ => ?_
    have opening : t.kind = .keyword .printWord := by simpa [Token.isKeyword] using passed
    exact ⟨false, .printStatement opening inner semicolon, fun fed => absurd fed Bool.false_ne_true⟩
  · refine .mono ih.expressionStatement fun s w rest inner _ _ _ _ _ _ => ?_
    exact ⟨false, .sentenceStatement inner, fun fed => absurd fed Bool.false_ne_true⟩

-- Without fuel every reader fails.
theorem readers_sound (fuel : Nat) : ReadersSound fuel := by
  induction fuel with
  | zero =>
    constructor
    all_goals intros; exact .fail _
  | succ fuel ih =>
    exact {
      expression := expression_sound ih
      rank := rank_sound ih
      last := last_sound ih
      further := further_sound ih
      unary := unary_sound ih
      suffixes := suffixes_sound ih
      arguments := arguments_sound ih
      primary := primary_sound ih
      parameterNames := parameterNames_sound ih
      routine := routine_sound ih
      block := block_sound ih
      declaration := declaration_sound ih
      methods := methods_sound ih
      variableRest := variableRest_sound ih
      statement := statement_sound ih
      forStatement := forStatement_sound ih
      firstClause := firstClause_sound ih
      expressionBefore := expressionBefore_sound ih
      expressionStatement := expressionStatement_sound ih }

theorem declarations_sound (fuel : Nat) :
    Sound (declarations fuel) fun ss w rest => rest = [] ∧ Derives (.declarations ss) w := by
  induction fuel with
  | zero => exact .fail _
  | succ fuel ih =>
    unfold declarations
    refine .bind .atEnd fun stop => .ite (fun ended => ?_) fun _ => ?_
    · refine .pure fun rest v known => ?_
      exact ⟨known.2 ended, by simpa [known.1] using Derives.noDeclarations⟩
    · refine .bind (.recovering (readers_sound fuel).declaration) fun first => .bind ih fun others => ?_
      refine .pure fun rest w later v known u nothing => ?_
      obtain ⟨s, rfl, first⟩ := known
      refine ⟨later.1, ?_⟩
      simpa [nothing.1] using Derives.declarations first later.2

theorem wholeExpression_sound (fuel : Nat) :
    Sound (wholeExpression fuel) fun e w rest => rest = [] ∧ Derives (.expression e) w := by
  unfold wholeExpression
  refine .bind (readers_sound fuel).expression fun e => .bind .atEnd fun stop => ?_
  refine .ite (fun ended => .pure fun rest v known u inner => ?_) fun _ => .fail _
  exact ⟨known.2 ended, by simpa [known.1] using inner⟩

-- Tokens whose only end token is the last one are all ahead of a reader but that one.
theorem ofTokens_ahead {body : List Token} {stop : Token} (inner : ∀ t ∈ body, t.isStop = false)
    (outer : stop.isStop = true) (next : RefId) :
    Cursor.ofTokens (body ++ [stop]) next = ⟨body, stop, next, []⟩ := by
  have ahead : (body ++ [stop]).takeWhile (!·.isStop) = body := by
    rw [List.takeWhile_append_of_pos (by simpa using inner)]
    simp [outer]
  have last : (body ++ [stop]).find? (·.isStop) = some stop := by
    rw [List.find?_append, List.find?_eq_none.mpr (by simpa using inner)]
    simp [outer]
  simp [Cursor.ofTokens, ahead, last]

-- What is read without a fault is derived from all tokens in front of the end.
theorem finish_sound {x : Reading α} {good : α → List Token → List Token → Prop} (hx : Sound x good)
    {c : Cursor} (fresh : c.faults = []) (done : finish (x c) = (.ok a, next)) :
    ∃ taken rest, c.ahead = taken ++ rest ∧ good a taken rest := by
  have known := hx c
  cases hc : x c with
  | error fault after => simp [hc, finish] at done
  | ok b after =>
    simp only [hc] at known
    unfold finish at done
    rw [hc] at done
    dsimp only at done
    split at done
    · rename_i clean
      cases done
      obtain ⟨taken, ahead, goodTaken⟩ := known.2 (clean.trans fresh.symm)
      exact ⟨taken, _, ahead, goodTaken⟩
    · cases done

end ScopeScript
