import ScopeScript.Proofs.Grammar.Noted
import ScopeScript.Proofs.Grammar.Locating

namespace ScopeScript

open Reading

-- Where every reader ends with a given amount of fuel, by the grammar for drafts.
structure ReadersLocate (fuel : Nat) : Prop where
  expression : Locates 10 fuel expression fun _ w s => Drafts .expression w s
  rank : ∀ k : Rank, Locates (10 - k.height) fuel (fun m => operand m (k.level :: k.tighter)) fun e w s =>
    Drafts (.rank k e.isTarget) w s
  last : Locates 3 fuel (fun m => operand m []) fun e w s => Drafts (.unary e.isTarget) w s
  further : ∀ (k : Rank) left, Locates 1 fuel (fun m => operators m k.level k.tighter left) fun e w s =>
    Drafts (.further k left.isTarget e.isTarget) w s
  unary : Locates 2 fuel unary fun e w s => Drafts (.unary e.isTarget) w s
  suffixes : ∀ before, Locates 1 fuel (fun m => suffixes m before) fun e w s =>
    Drafts (.suffixes before.isTarget e.isTarget) w s
  arguments : ∀ already, Locates 11 fuel (fun m => arguments m already) fun _ w s => Drafts (.expressions already) w s
  primary : Locates 1 fuel primary fun e w s => Drafts (.primary e.isTarget) w s
  parameterNames : ∀ already, Locates 1 fuel (fun m => parameterNames m already) fun _ w s =>
    Drafts (.names already) w s
  routine : ∀ head first second, Locates 1 fuel (fun m => routine m head first second) fun _ w s => Drafts .routine w s
  block : Locates 14 fuel block fun _ w s =>
    ∃ v close, w = v ++ [close] ∧ close.kind = .mark .rightBrace ∧ Drafts .declarations v s
  declaration : Locates 13 fuel declaration fun _ w s => Drafts .declaration w s
  methods : Locates 1 fuel methods fun _ w s => Drafts .functions w s
  variableRest : Locates 1 fuel variableRest fun _ w s => Drafts .variable w s
  statement : Locates 12 fuel statement fun _ w s => ∃ hungry, Drafts (.statement hungry) w s
  forStatement : Locates 1 fuel forStatement fun _ w s => ∀ keyword : Token, keyword.kind = .keyword .forWord →
    ∃ hungry, Drafts (.statement hungry) (keyword :: w) s
  firstClause : Locates 12 fuel firstClause fun _ w s => Drafts .firstClause w s
  expressionBefore : ∀ mark, Locates 11 fuel (fun m => expressionBefore m mark) fun _ w s => Drafts .optional w s
  expressionStatement : Locates 11 fuel expressionStatement fun _ w s => Drafts .sentence w s

variable {fuel : Nat}

theorem assignTo_locates (equals : Token) (value target : Expr) :
    Locates need fuel (fun _ => assignTo equals value target) fun _ w s =>
      w = [] ∧ s = stray target.isTarget equals := by
  refine .still fun c => ?_
  have soft : Soft (stray target.isTarget equals) := .stray _ _
  cases target with
  | «variable» i name =>
    exact ⟨.assign c.next name value, c.next + 1, [], .nil, ⟨rfl, rfl⟩, fun _ _ => by rw [List.append_nil]; rfl⟩
  | get object name => exact ⟨_, c.next, [], .nil, ⟨rfl, rfl⟩, fun _ _ => by rw [List.append_nil]; rfl⟩
  | _ => exact ⟨_, c.next, _, soft, ⟨rfl, rfl⟩, fun _ _ => rfl⟩

theorem expression_locates (ih : ReadersLocate fuel) :
    Locates 10 (fuel + 1) expression fun _ w s => Drafts .expression w s := by
  refine .spend ?_
  unfold expression
  rw [levels_ranked]
  refine .bind (ih.rank .disjunction) fun target => .accepting ?_ fun equals => ?_
  · refine .pure fun w s inner => ?_
    simpa using Drafts.expression inner
  · refine .bind (ih.expression.within (by omega)) fun value => .mono (assignTo_locates _ _ _) ?_
    rintro e w s ⟨rfl, rfl⟩ v t right passed u r left
    have equal : equals.kind = .mark .equal := by simpa [Token.isMark] using passed
    simpa using Drafts.assignment left equal right

theorem operand_locates (ih : ReadersLocate fuel) (k : Rank) :
    Locates (9 - k.height) fuel (fun m => operand m k.tighter) fun e w s => Drafts (.operand k e.isTarget) w s := by
  cases k with
  | disjunction => exact ih.rank .conjunction
  | conjunction => exact ih.rank .equality
  | equality => exact ih.rank .comparison
  | comparison => exact ih.rank .sum
  | sum => exact ih.rank .product
  | product => exact ih.last

theorem rank_locates (ih : ReadersLocate fuel) (k : Rank) :
    Locates (10 - k.height) (fuel + 1) (fun m => operand m (k.level :: k.tighter)) fun e w s =>
      Drafts (.rank k e.isTarget) w s := by
  have low : 10 - k.height = 9 - k.height + 1 ∧ 1 ≤ 9 - k.height := by cases k <;> decide
  rw [low.1]
  refine .spend ?_
  unfold operand
  refine .bind (operand_locates ih k) fun left => .mono ((ih.further k left).within low.2) ?_
  intro e w s others v t first
  exact .rank first others

theorem last_locates (ih : ReadersLocate fuel) :
    Locates 3 (fuel + 1) (fun m => operand m []) fun e w s => Drafts (.unary e.isTarget) w s := by
  refine .spend ?_
  unfold operand
  exact ih.unary

theorem further_locates (ih : ReadersLocate fuel) (k : Rank) (left : Expr) :
    Locates 1 (fuel + 1) (fun m => operators m k.level k.tighter left) fun e w s =>
      Drafts (.further k left.isTarget e.isTarget) w s := by
  refine .spend ?_
  unfold operators
  refine .accepting (.pure .noFurther) fun operator => ?_
  refine .bind ((operand_locates ih k).within (by omega)) fun right => .mono ((ih.further k _).within (by omega)) ?_
  intro e w s others v t next held
  rw [k.level_join, k.node_target] at others
  exact .further ((k.level_holds operator).mp held) next others

theorem unary_locates (ih : ReadersLocate fuel) :
    Locates 2 (fuel + 1) unary fun e w s => Drafts (.unary e.isTarget) w s := by
  refine .spend ?_
  unfold unary
  refine .accepting ?_ fun operator => ?_
  · refine .bind ih.primary fun first => .mono (ih.suffixes first) ?_
    intro e w s others v t known
    exact .plainUnary (.call known others)
  · refine .bind (ih.unary.within (by omega)) fun e => .pure fun w s inner passed => ?_
    have spelled : operator.kind ∈ [.mark .bang, .mark .minus] := by
      simpa [isUnaryOperator, Token.isMark] using passed
    simpa [Expr.isTarget] using Drafts.unary spelled inner

theorem suffixes_locates (ih : ReadersLocate fuel) (before : Expr) :
    Locates 1 (fuel + 1) (fun m => suffixes m before) fun e w s =>
      Drafts (.suffixes before.isTarget e.isTarget) w s := by
  refine .spend ?_
  unfold suffixes
  have closing : ∀ values, Locates 16 fuel
      (fun m => expectMark .rightParen .argumentsEnd >>= fun close => suffixes m (.call before close values))
      fun e w s => ∀ v t, Drafts .values v t → ∀ open_ : Token, open_.kind = .mark .leftParen →
        Drafts (.suffixes before.isTarget e.isTarget) (open_ :: (v ++ w)) (t ++ s) := by
    refine fun values => .mark fun close => .mono ((ih.suffixes _).within (by omega)) ?_
    intro e w s others right v t inner open_ left
    exact .callSuffix left inner right others
  refine .onMark ?_ (.onMark ?_ (.pure .noSuffixes))
  · refine .seen _ (.mono (closing []) fun e w s known => known [] [] .noValues) ?_
    refine .bind ((ih.arguments 0).within (by omega)) fun values => .mono (closing values) ?_
    intro e w s known v t inner
    exact known v t (.values inner)
  · refine .name fun name => .mono ((ih.suffixes _).within (by omega)) ?_
    intro e w s others named dot point
    exact .getSuffix point named others

theorem arguments_locates (ih : ReadersLocate fuel) (already : Nat) :
    Locates 11 (fuel + 1) (fun m => arguments m already) fun _ w s => Drafts (.expressions already) w s := by
  refine .spend ?_
  unfold arguments
  refine .entry (.bind ih.expression fun e => .onMark ?_ (.pure fun w s inner => ?_))
  · refine .bind ((ih.arguments _).within (by omega)) fun es => .pure fun w s others comma spelled v t inner => ?_
    obtain ⟨first, more, rfl, _⟩ := (inner.opening : Opens opensExpression v)
    refine ⟨by simp, ?_⟩
    simpa [surplus] using Drafts.expressions inner spelled others
  · obtain ⟨first, more, rfl, _⟩ := (inner.opening : Opens opensExpression w)
    refine ⟨by simp, ?_⟩
    simpa using Drafts.lastExpression inner

theorem parameterNames_locates (ih : ReadersLocate fuel) (already : Nat) :
    Locates 1 (fuel + 1) (fun m => parameterNames m already) fun _ w s => Drafts (.names already) w s := by
  refine .spend ?_
  unfold parameterNames
  refine .entry (.name fun name => .onMark ?_ (.pure fun named => ?_))
  · refine .bind ((ih.parameterNames _).within (by omega)) fun ps => .pure fun w s others comma spelled named => ?_
    exact ⟨by simp, by simpa [surplus] using Drafts.names named spelled others⟩
  · exact ⟨by simp, by simpa using Drafts.lastName named⟩

theorem parameterList_locates (ih : ReadersLocate fuel) :
    Locates 1 fuel parameterList fun _ w s =>
      ∃ v close, w = v ++ [close] ∧ close.kind = .mark .rightParen ∧ Drafts .parameters v s := by
  unfold parameterList
  have closing : ∀ ps, Locates 1 fuel (fun _ => do let _ ← expectMark .rightParen .parametersEnd; return ps)
      fun (_ : List Token) w s => ∀ v t, Drafts .parameters v t → ∃ u close, v ++ w = u ++ [close] ∧
        close.kind = .mark .rightParen ∧ Drafts .parameters u (t ++ s) := by
    refine fun ps => .mark fun close => .pure fun right v t names => ?_
    exact ⟨v, close, rfl, right, by rwa [List.append_nil]⟩
  refine .seen _ (.mono (closing []) fun ps w s known => known [] [] .noParameters) ?_
  refine .bind (ih.parameterNames 0) fun ps => .mono (closing ps) fun qs w s known v t names => ?_
  exact known v t (.parameters names)

theorem routine_locates (ih : ReadersLocate fuel) (head : Token) (first second : Slot) :
    Locates 1 (fuel + 1) (fun m => routine m head first second) fun _ w s => Drafts .routine w s := by
  refine .spend ?_
  unfold routine
  refine .mark fun open_ => .bind ((parameterList_locates ih).within (by omega)) fun ps => .mark fun brace => ?_
  refine .bind (ih.block.within (by omega)) fun body => .pure fun w t inner start v s names left => ?_
  obtain ⟨statements, unbrace, rfl, stop, inner⟩ := inner
  obtain ⟨parameters, close, rfl, right, names⟩ := names
  simpa using Drafts.routine left names right start inner stop

theorem primary_locates (ih : ReadersLocate fuel) :
    Locates 1 (fuel + 1) primary fun e w s => Drafts (.primary e.isTarget) w s := by
  refine .spend ?_
  unfold primary
  refine .accepting (.accepting (.accepting (.accepting (.onMark ?_ (.fail rfl ?_)) fun t => ?_) fun t => ?_) fun t => ?_)
    fun t => .pure fun known => ?_
  · refine .bind (ih.expression.within (by omega)) fun e => .mark fun close => .pure fun right v s inner open_ left => ?_
    simpa [Expr.isTarget] using Drafts.grouping left inner right
  · exact ⟨.variable 0 ⟨.identifier, "", .start⟩, [⟨.identifier, "", .start⟩], [], .name rfl⟩
  · refine .bind ((ih.routine _ _ _).within (by omega)) fun r => .pure fun w s inner passed => ?_
    simpa [Expr.isTarget] using Drafts.lambda (by simpa [Token.isKeyword] using passed) inner
  · refine .bind .fresh fun i => .pure fun w s nothing passed => ?_
    obtain ⟨rfl, rfl⟩ := nothing
    exact .name (by simpa [Token.isIdentifier] using passed)
  · refine .bind .fresh fun i => .pure fun w s nothing passed => ?_
    obtain ⟨rfl, rfl⟩ := nothing
    exact .thisWord (by simpa [Token.isKeyword] using passed)
  · unfold Token.literal? at known
    split at known
    · exact .falseWord ‹_›
    · exact .trueWord ‹_›
    · exact .nilWord ‹_›
    · exact .number ‹_›
    · exact .string ‹_›
    · cases known

-- Both a closing brace and the end stop a block; only the brace belongs there.
theorem block_locates (ih : ReadersLocate fuel) :
    Locates 14 (fuel + 1) block fun _ w s =>
      ∃ v close, w = v ++ [close] ∧ close.kind = .mark .rightBrace ∧ Drafts .declarations v s := by
  refine .spend ?_
  unfold block
  refine .closed _ (.mark fun close => .pure fun right => ⟨[], close, rfl, right, .noDeclarations⟩) ?_
  refine .bindLong (fun _ => 1) (.recovering ih.declaration) ?_ fun first => ?_
  · rintro o w s ⟨a, _, inner⟩
    obtain ⟨t, more, rfl, _⟩ := inner.opening
    exact Nat.succ_le_succ (Nat.zero_le _)
  refine .bind (ih.block.within (by omega)) fun others => .pure fun w t later v s known => ?_
  obtain ⟨_, _, first⟩ := known
  obtain ⟨u, close, rfl, right, later⟩ := later
  exact ⟨v ++ u, close, by simp, right, by simpa using Drafts.declarations first later⟩

theorem methods_locates (ih : ReadersLocate fuel) :
    Locates 1 (fuel + 1) methods fun _ w s => Drafts .functions w s := by
  refine .spend ?_
  unfold methods
  refine .closed _ (.pure .noFunctions) (.name fun name => .bind ((ih.routine _ _ _).within (by omega)) fun first => ?_)
  refine .bind (ih.methods.within (by omega)) fun others => .pure fun w t later v s inner named => ?_
  simpa using Drafts.functions (.function named inner) later

theorem variableRest_locates (ih : ReadersLocate fuel) :
    Locates 1 (fuel + 1) variableRest fun _ w s => Drafts .variable w s := by
  refine .spend ?_
  unfold variableRest
  have filled : Locates 10 fuel (fun m => some <$> expression m) fun _ w s => Drafts .expression w s :=
    .map ih.expression fun _ _ _ inner => inner
  refine .name fun name => .onMark ?_ (.mark fun stop => .pure fun semicolon named => .plainVariable named semicolon)
  refine .bind (filled.within (by omega)) fun initial => ?_
  refine .mark fun stop => .pure fun semicolon w s inner equals equal named => ?_
  simpa using Drafts.filledVariable named equal inner semicolon

theorem expressionStatement_locates (ih : ReadersLocate fuel) :
    Locates 11 (fuel + 1) expressionStatement fun _ w s => Drafts .sentence w s := by
  refine .spend ?_
  unfold expressionStatement
  refine .bind ih.expression fun e => .mark fun stop => .pure fun semicolon w s inner => ?_
  simpa using Drafts.sentence inner semicolon

theorem expressionBefore_locates (ih : ReadersLocate fuel) (m : Mark) :
    Locates 11 (fuel + 1) (fun k => expressionBefore k m) fun _ w s => Drafts .optional w s := by
  refine .spend ?_
  unfold expressionBefore
  exact .seen _ (.pure .absent) (.map ih.expression fun _ _ _ inner => .present inner)

theorem firstClause_locates (ih : ReadersLocate fuel) :
    Locates 12 (fuel + 1) firstClause fun _ w s => Drafts .firstClause w s := by
  refine .spend ?_
  unfold firstClause
  refine .onMark (.pure fun t stop => .noClause stop) (.onKeyword ?_ ?_)
  · refine .bind (ih.variableRest.within (by omega)) fun _ => .pure fun w s inner t opening => ?_
    simpa using Drafts.variableClause opening inner
  · refine .bind ih.expressionStatement fun _ => .pure fun w s inner => ?_
    simpa using Drafts.sentenceClause inner

theorem forStatement_locates (ih : ReadersLocate fuel) :
    Locates 1 (fuel + 1) forStatement fun _ w s => ∀ keyword : Token, keyword.kind = .keyword .forWord →
      ∃ hungry, Drafts (.statement hungry) (keyword :: w) s := by
  refine .spend ?_
  unfold forStatement
  refine .mark fun open_ => .bind (ih.firstClause.within (by omega)) fun initial => ?_
  refine .bind ((ih.expressionBefore _).within (by omega)) fun condition => .mark fun stop => ?_
  refine .bind ((ih.expressionBefore _).within (by omega)) fun step => .mark fun close => ?_
  refine .bind (ih.statement.within (by omega)) fun body => .pure ?_
  intro x q inner right w r last semicolon v t test u s first left keyword opening
  obtain ⟨hungry, inner⟩ := inner
  exact ⟨hungry, by simpa using Drafts.forStatement opening left first test semicolon last right inner⟩

theorem statement_locates (ih : ReadersLocate fuel) :
    Locates 12 (fuel + 1) statement fun _ w s => ∃ hungry, Drafts (.statement hungry) w s := by
  refine .spend ?_
  unfold statement
  refine .onKeyword ?_ (.onKeyword ?_ (.onKeyword ?_ (.accepting (.accepting (.onMark ?_ (.accepting ?_ fun t => ?_))
    fun t => ?_) fun t => ?_)))
  · refine .mono (ih.forStatement.within (by omega)) fun _ w s known t opening => ?_
    exact known t opening
  · refine .mark fun open_ => .bind (ih.expression.within (by omega)) fun condition => .mark fun close => ?_
    refine .bind (ih.statement.within (by omega)) fun yes => .onKeyword ?_ (.pure ?_)
    · have otherwise : Locates 12 fuel (fun m => some <$> statement m) fun _ w s =>
          ∃ hungry, Drafts (.statement hungry) w s := .map ih.statement fun _ _ _ inner => inner
      refine .bind (otherwise.within (by omega)) fun o => .pure ?_
      intro x r other middle isElse v t first right u s test left keyword opening
      obtain ⟨still, other⟩ := other
      obtain ⟨fed, first⟩ := first
      cases fed with
      | false =>
        refine ⟨still, ?_⟩
        simpa using Drafts.ifElseStatement opening left test right first isElse other
      | true =>
        obtain ⟨more, inner⟩ := first.fed rfl isElse other
        exact ⟨true, by simpa using Drafts.ifStatement opening left test right inner⟩
    · intro w t inner right v s test left keyword opening
      obtain ⟨fed, inner⟩ := inner
      exact ⟨true, by simpa using Drafts.ifStatement opening left test right inner⟩
  · refine .mark fun open_ => .bind (ih.expression.within (by omega)) fun condition => .mark fun close => ?_
    refine .bind (ih.statement.within (by omega)) fun body => .pure fun w t inner right v s test left keyword opening => ?_
    obtain ⟨hungry, inner⟩ := inner
    exact ⟨hungry, by simpa using Drafts.whileStatement opening left test right inner⟩
  · refine .bind (ih.block.within (by omega)) fun body => .pure fun w s inner t start => ?_
    obtain ⟨statements, close, rfl, stop, inner⟩ := inner
    exact ⟨false, by simpa using Drafts.blockStatement start inner stop⟩
  · exact .mono ih.expressionStatement fun _ w s inner => ⟨false, .sentenceStatement inner⟩
  · refine .bind (ih.expression.within (by omega)) fun e => .mark fun stop => .pure fun semicolon w s inner passed => ?_
    have opening : t.kind = .keyword .printWord := by simpa [Token.isKeyword] using passed
    exact ⟨false, by simpa using Drafts.printStatement opening inner semicolon⟩
  · refine .mark fun stop => .pure fun semicolon passed => ?_
    have opening : t.kind = .keyword .breakWord := by simpa [Token.isKeyword] using passed
    exact ⟨false, .breakStatement opening semicolon⟩
  · refine .bind ((ih.expressionBefore _).within (by omega)) fun value => .mark fun stop => ?_
    refine .pure fun semicolon w s inner passed => ?_
    have opening : t.kind = .keyword .returnWord := by simpa [Token.isKeyword] using passed
    exact ⟨false, by simpa using Drafts.returnStatement opening inner semicolon⟩

-- What makes a statement of a function keyword: () { };
def emptyLambda : List Token :=
  [.mark .leftParen, .mark .rightParen, .mark .leftBrace, .mark .rightBrace, .mark .semicolon].map TokenKind.token

theorem Drafts.emptyLambda {keyword : Token} (opening : keyword.kind = .keyword .funWord) :
    Drafts (.statement false) (keyword :: ScopeScript.emptyLambda) [] := by
  have routine : Drafts .routine (ScopeScript.emptyLambda.take 4) [] :=
    .routine (v := []) (w := []) (s := []) rfl .noParameters rfl rfl .noDeclarations rfl
  exact .sentenceStatement (.sentence (.expression_of_primary (.lambda opening routine)) rfl)

theorem declaration_locates (ih : ReadersLocate fuel) :
    Locates 13 (fuel + 1) declaration fun _ w s => Drafts .declaration w s := by
  refine .spend ?_
  unfold declaration
  refine .onKeyword ?_ (.declaring (fun name => ?_) (.onKeyword ?_ ?_) ?_ ?_)
  · refine .name fun name => .mark fun open_ => .bind (ih.methods.within (by omega)) fun rs => .mark fun close => ?_
    refine .pure fun right w s inner left named keyword opening => ?_
    simpa using Drafts.classes opening named left inner right
  · refine .bind ((ih.routine _ _ _).within (by omega)) fun r => .pure fun w s inner keyword opening named => ?_
    simpa using Drafts.functionDeclaration opening (.function named inner)
  · exact .mono (ih.variableRest.within (by omega)) fun _ w s inner t opening => .variableDeclaration opening inner
  · refine .mono ih.statement fun _ w s known => ?_
    obtain ⟨hungry, inner⟩ := known
    exact .statement inner
  · rintro _ w s inner rfl
    obtain ⟨t, more, impossible, _⟩ := inner.opening
    cases impossible
  · intro keyword isFun
    have sated : false = true → Bars [.keyword .elseWord] [] := fun fed => absurd fed Bool.false_ne_true
    have bare : Notes (statement (fuel + 98)) (keyword :: emptyLambda) [] [] fun _ => True :=
      (readers_note _).statement (.emptyLambda isFun) (show 16 * 6 + 2 ≤ fuel + 98 by omega) sated
    exact ⟨fuel + 98, emptyLambda, [], by omega, .nil, .pastKeyword (.cons (by simp [isFun])) bare⟩

-- Without fuel nothing has to be shown but that the grammar derives something for every reader.
theorem Reading.Locates.unfueled {x : Nat → Reading α} {good : α → List Token → List SyntaxFault → Prop}
    {known : Nat → α → List Token → List Token → Prop} (sound : ∀ k, Sound (x k) (known k)) (possible : ∃ a w s, good a w s) : Locates (need + 1) 0 x good where
  grows k _ c := by
    have kept := sound k c
    cases ran : x k c with
    | ok a after =>
      rw [ran] at kept
      exact kept.1
    | error fault after =>
      rw [ran] at kept
      exact List.IsPrefix.trans kept (List.prefix_append _ _)
  possible := possible
  outcome c enough := absurd enough (by omega)

theorem readers_locate_none : ReadersLocate 0 := by
  let name := TokenKind.identifier.token
  let semicolon := (TokenKind.mark .semicolon).token
  have call : Drafts (.call true) [name] [] := .call_of_primary (.name rfl)
  have expression : Drafts .expression [name] [] := .expression_of_primary (.name rfl)
  have sentence : Drafts .sentence [name, semicolon] [] := .sentence expression rfl
  have routine : Drafts .routine (emptyLambda.take 4) [] :=
    .routine (v := []) (w := []) (s := []) rfl .noParameters rfl rfl .noDeclarations rfl
  have loop : ∀ keyword : Token, keyword.kind = .keyword .forWord → Drafts (.statement false) (keyword ::
      [.mark .leftParen, .mark .semicolon, .mark .semicolon, .mark .rightParen].map TokenKind.token ++
        [name, semicolon]) [] := fun keyword opening =>
    .forStatement (u := [semicolon]) (v := []) (w := []) (s := []) (t := []) (r := []) opening rfl (.noClause rfl)
      .absent rfl .absent rfl (.sentenceStatement sentence)
  have reads := readers_sound
  exact {
    expression := .unfueled (fun k => (reads k).expression) ⟨.literal .nil, _, _, expression⟩
    rank := fun k => by
      have low : 10 - k.height = 9 - k.height + 1 := by cases k <;> decide
      rw [low]
      exact .unfueled (fun m => (reads m).rank k) ⟨.variable 0 name, _, _, call.rank_of_call k⟩
    last := .unfueled (fun k => (reads k).last) ⟨.variable 0 name, _, _, .plainUnary call⟩
    further := fun k left => .unfueled (fun m => (reads m).further k left) ⟨left, _, _, .noFurther⟩
    unary := .unfueled (fun k => (reads k).unary) ⟨.variable 0 name, _, _, .plainUnary call⟩
    suffixes := fun before => .unfueled (fun k => (reads k).suffixes before) ⟨before, _, _, .noSuffixes⟩
    arguments := fun already => .unfueled (fun k => (reads k).arguments already)
      ⟨[], _, _, .lastExpression expression⟩
    primary := .unfueled (fun k => (reads k).primary) ⟨.variable 0 name, [name], _, .name rfl⟩
    parameterNames := fun already => .unfueled (fun k => (reads k).parameterNames already) ⟨[], [name], _, .lastName rfl⟩
    routine := fun head first second => .unfueled (fun k => (reads k).routine head first second)
      ⟨.mk head [] [], _, _, routine⟩
    block := .unfueled (fun k => (reads k).block) ⟨[], _, _, [], (TokenKind.mark .rightBrace).token, rfl, rfl, .noDeclarations⟩
    declaration := .unfueled (fun k => (reads k).declaration) ⟨.leave name, _, _, .statement (.sentenceStatement sentence)⟩
    methods := .unfueled (fun k => (reads k).methods) ⟨[], _, _, .noFunctions⟩
    variableRest := .unfueled (fun k => (reads k).variableRest)
      ⟨.leave name, [name, semicolon], _, .plainVariable rfl rfl⟩
    statement := .unfueled (fun k => (reads k).statement) ⟨.leave name, _, _, _, .sentenceStatement sentence⟩
    forStatement := .unfueled (fun k => (reads k).forStatement)
      ⟨.leave name, _, _, fun keyword opening => ⟨_, loop keyword opening⟩⟩
    firstClause := .unfueled (fun k => (reads k).firstClause) ⟨none, [semicolon], _, .noClause rfl⟩
    expressionBefore := fun m => .unfueled (fun k => (reads k).expressionBefore m) ⟨none, _, _, .absent⟩
    expressionStatement := .unfueled (fun k => (reads k).expressionStatement) ⟨.leave name, _, _, sentence⟩ }

theorem readers_locate (fuel : Nat) : ReadersLocate fuel := by
  induction fuel with
  | zero => exact readers_locate_none
  | succ fuel ih =>
    exact {
      expression := expression_locates ih
      rank := rank_locates ih
      last := last_locates ih
      further := further_locates ih
      unary := unary_locates ih
      suffixes := suffixes_locates ih
      arguments := arguments_locates ih
      primary := primary_locates ih
      parameterNames := parameterNames_locates ih
      routine := routine_locates ih
      block := block_locates ih
      declaration := declaration_locates ih
      methods := methods_locates ih
      variableRest := variableRest_locates ih
      statement := statement_locates ih
      forStatement := forStatement_locates ih
      firstClause := firstClause_locates ih
      expressionBefore := expressionBefore_locates ih
      expressionStatement := expressionStatement_locates ih }

theorem declarations_locate (fuel : Nat) : Locates 14 fuel declarations fun _ w s => Drafts .declarations w s := by
  induction fuel with
  | zero => exact .unfueled declarations_sound ⟨[], _, _, .noDeclarations⟩
  | succ fuel ih =>
    refine .spend ?_
    unfold declarations
    refine .ended (.pure .noDeclarations) ?_
    refine .bindLong (fun _ => 1) (.recovering (readers_locate fuel).declaration) ?_ fun first => ?_
    · rintro o w s ⟨a, _, inner⟩
      obtain ⟨t, more, rfl, _⟩ := inner.opening
      exact Nat.succ_le_succ (Nat.zero_le _)
    refine .bind (ih.within (by omega)) fun others => .pure fun w t later v s known => ?_
    obtain ⟨_, _, first⟩ := known
    simpa using Drafts.declarations first later

end ScopeScript
