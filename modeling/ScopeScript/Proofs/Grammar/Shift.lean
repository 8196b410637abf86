import ScopeScript.Grammar.Read
import ScopeScript.Proofs.Grammar.Rename

namespace ScopeScript

-- Every id is later by the same number.
def Renaming.later (k : Nat) : Renaming := ⟨(k + ·), id⟩

def Cursor.later (k : Nat) (c : Cursor) : Cursor := { c with next := k + c.next }

def Reading.shifted (k : Nat) (f : α → β) :
    EStateM.Result SyntaxFault Cursor α → EStateM.Result SyntaxFault Cursor β
  | .ok a after => .ok (f a) (after.later k)
  | .error fault after => .error fault (after.later k)

-- From a later counter the second reader comes to what the first one comes to, with later ids.
def Reading.Shifts (k : Nat) (f : α → β) (x : Reading α) (y : Reading β) : Prop :=
  ∀ c, y (c.later k) = Reading.shifted k f (x c)

namespace Reading.Shifts

variable {k : Nat} {x : Reading α} {y : Reading β} {f : α → β} {next : α → Reading γ} {next' : β → Reading δ}
  {g : γ → δ}

theorem pure {a : α} {b : β} (same : b = f a) : Shifts k f (Pure.pure a) (Pure.pure b) :=
  fun _ => congrArg (EStateM.Result.ok · _) same

theorem fail (cause : SyntaxCause) : Shifts k f (Reading.fail cause) (Reading.fail cause) := fun _ => rfl

theorem bind (first : Shifts k f x y) (later : ∀ a, Shifts k g (next a) (next' (f a))) :
    Shifts k g (x >>= next) (y >>= next') := by
  intro c
  show EStateM.bind y next' (c.later k) = shifted k g (EStateM.bind x next c)
  unfold EStateM.bind
  rw [first c]
  cases x c with
  | ok a middle => exact later a middle
  | error fault after => rfl

-- A first part that builds no tree.
theorem plain {x : Reading α} {next : α → Reading γ} {next' : α → Reading δ} (first : Shifts k id x x)
    (later : ∀ a, Shifts k g (next a) (next' a)) : Shifts k g (x >>= next) (x >>= next') :=
  first.bind later

theorem map {into : α → γ} {into' : β → δ} (first : Shifts k f x y) (same : ∀ a, into' (f a) = g (into a)) :
    Shifts k g (into <$> x) (into' <$> y) := by
  intro c
  show EStateM.map into' y (c.later k) = shifted k g (EStateM.map into x c)
  unfold EStateM.map
  rw [first c]
  cases x c with
  | ok a after => exact congrArg (EStateM.Result.ok · _) (same a)
  | error fault after => rfl

theorem ite {p : Prop} [Decidable p] {x' : Reading α} {y' : Reading β} (yes : Shifts k f x y)
    (no : Shifts k f x' y') : Shifts k f (if p then x else x') (if p then y else y') := by
  split
  · exact yes
  · exact no

theorem fresh : Shifts k (k + ·) Reading.fresh Reading.fresh := fun _ => rfl

theorem look : Shifts k id Reading.look Reading.look := fun _ => rfl

theorem atEnd : Shifts k id Reading.atEnd Reading.atEnd := fun _ => rfl

theorem sees (test : Token → Bool) : Shifts k id (Reading.sees test) (Reading.sees test) := fun _ => rfl

theorem complain (cause : SyntaxCause) (t : Token) :
    Shifts k id (Reading.complain cause t) (Reading.complain cause t) := fun _ => rfl

theorem declaresFunction : Shifts k id Reading.declaresFunction Reading.declaresFunction := by
  intro c
  obtain ⟨ahead, stop, first, faults⟩ := c
  cases ahead with
  | nil => rfl
  | cons t rest => cases rest <;> rfl

theorem accept? (test : Token → Bool) : Shifts k id (Reading.accept? test) (Reading.accept? test) := by
  intro c
  obtain ⟨ahead, stop, first, faults⟩ := c
  cases ahead with
  | nil => rfl
  | cons t rest =>
    unfold Reading.accept? Cursor.later
    dsimp only
    split <;> rfl

theorem acceptMark (m : Mark) : Shifts k id (Reading.acceptMark m) (Reading.acceptMark m) :=
  plain (accept? _) fun _ => pure rfl

theorem acceptKeyword (w : Keyword) : Shifts k id (Reading.acceptKeyword w) (Reading.acceptKeyword w) :=
  plain (accept? _) fun _ => pure rfl

theorem expectMark (m : Mark) (slot : Slot) :
    Shifts k id (Reading.expectMark m slot) (Reading.expectMark m slot) := by
  refine plain (accept? _) ?_
  rintro (_ | t)
  · exact fail _
  · exact pure rfl

theorem expectName (what : Named) : Shifts k id (Reading.expectName what) (Reading.expectName what) := by
  refine plain (accept? _) ?_
  rintro (_ | t)
  · exact fail _
  · exact pure rfl

theorem onToken (test : Token → Bool) {y : Token → Reading α} {y' : Token → Reading β} {z : Reading α}
    {z' : Reading β} (yes : ∀ t, Shifts k f (y t) (y' t)) (no : Shifts k f z z') :
    Shifts k f (Reading.accept? test >>= fun o => match o with | some t => y t | none => z)
      (Reading.accept? test >>= fun o => match o with | some t => y' t | none => z') := by
  refine plain (accept? test) ?_
  rintro (_ | t)
  · exact no
  · exact yes t

theorem onMark (m : Mark) {z : Reading α} {z' : Reading β} (yes : Shifts k f x y) (no : Shifts k f z z') :
    Shifts k f (Reading.acceptMark m >>= fun b => if b = true then x else z)
      (Reading.acceptMark m >>= fun b => if b = true then y else z') :=
  plain (acceptMark m) fun _ => ite yes no

theorem onKeyword (w : Keyword) {z : Reading α} {z' : Reading β} (yes : Shifts k f x y) (no : Shifts k f z z') :
    Shifts k f (Reading.acceptKeyword w >>= fun b => if b = true then x else z)
      (Reading.acceptKeyword w >>= fun b => if b = true then y else z') :=
  plain (acceptKeyword w) fun _ => ite yes no

theorem seen (test : Token → Bool) {z : Reading α} {z' : Reading β} (yes : Shifts k f x y) (no : Shifts k f z z') :
    Shifts k f (Reading.sees test >>= fun b => if b = true then x else z)
      (Reading.sees test >>= fun b => if b = true then y else z') :=
  plain (sees test) fun _ => ite yes no

theorem recovering (inner : Shifts k f x y) :
    Shifts k (Option.map f) (Reading.recovering x) (Reading.recovering y) := by
  intro c
  unfold Reading.recovering
  rw [inner c]
  cases x c with
  | ok a after => rfl
  | error fault after =>
    refine congrArg (EStateM.Result.ok none) ?_
    obtain ⟨ahead, stop, first, faults⟩ := after
    cases ahead <;> rfl

end Reading.Shifts

open Reading

-- Tokens have no ids.
theorem Token.map_later (k : Nat) (ts : List Token) : ts.map (Token.rename (.later k)) = ts := List.map_id ts

def Level.Joins (level : Level) : Prop := ∀ ρ left operator right,
  (level.join left operator right).rename ρ = level.join (left.rename ρ) (operator.rename ρ) (right.rename ρ)

theorem levels_join : ∀ level ∈ levels, level.Joins := by
  intro level member
  simp only [levels, List.mem_cons, List.not_mem_nil, or_false] at member
  rcases member with rfl | rfl | rfl | rfl | rfl | rfl <;> exact fun _ _ _ _ => rfl

-- Every reader from a later counter.
structure ReadersShift (k fuel : Nat) : Prop where
  expression : Shifts k (Expr.rename (.later k)) (expression fuel) (expression fuel)
  operand : ∀ list, (∀ level ∈ list, level.Joins) →
    Shifts k (Expr.rename (.later k)) (operand fuel list) (operand fuel list)
  operators : ∀ level tighter left, level.Joins → (∀ level ∈ tighter, level.Joins) →
    Shifts k (Expr.rename (.later k)) (operators fuel level tighter left)
      (operators fuel level tighter (left.rename (.later k)))
  unary : Shifts k (Expr.rename (.later k)) (unary fuel) (unary fuel)
  suffixes : ∀ before, Shifts k (Expr.rename (.later k)) (suffixes fuel before)
    (suffixes fuel (before.rename (.later k)))
  arguments : ∀ already, Shifts k (Expr.renameAll (.later k)) (arguments fuel already) (arguments fuel already)
  primary : Shifts k (Expr.rename (.later k)) (primary fuel) (primary fuel)
  routine : ∀ head first second, Shifts k (Routine.rename (.later k)) (routine fuel head first second)
    (routine fuel head first second)
  block : Shifts k (Stmt.renameAll (.later k)) (block fuel) (block fuel)
  declaration : Shifts k (Stmt.rename (.later k)) (declaration fuel) (declaration fuel)
  methods : Shifts k (Routine.renameAll (.later k)) (methods fuel) (methods fuel)
  variableRest : Shifts k (Stmt.rename (.later k)) (variableRest fuel) (variableRest fuel)
  statement : Shifts k (Stmt.rename (.later k)) (statement fuel) (statement fuel)
  forStatement : Shifts k (Stmt.rename (.later k)) (forStatement fuel) (forStatement fuel)
  firstClause : Shifts k (Option.map (Stmt.rename (.later k))) (firstClause fuel) (firstClause fuel)
  expressionBefore : ∀ m, Shifts k (Option.map (Expr.rename (.later k))) (expressionBefore fuel m)
    (expressionBefore fuel m)
  expressionStatement : Shifts k (Stmt.rename (.later k)) (expressionStatement fuel) (expressionStatement fuel)

variable {k fuel : Nat}

theorem assignTo_shifts (equals : Token) (value target : Expr) :
    Shifts k (Expr.rename (.later k)) (assignTo equals value target)
      (assignTo equals (value.rename (.later k)) (target.rename (.later k))) := by
  have bad : ∀ other : Expr, Shifts k (Expr.rename (.later k)) (do complain .badTarget equals; return other)
      (do complain .badTarget equals; return other.rename (.later k)) :=
    fun other => .plain (.complain _ _) fun _ => .pure rfl
  cases target with
  | get object name => exact .pure rfl
  | literal | grouping | unary | binary | logical | assign | call | lambda | set | this => exact bad _
  | _ i name => exact .bind .fresh fun i => .pure rfl

theorem expression_shifts (ih : ReadersShift k fuel) :
    Shifts k (Expr.rename (.later k)) (expression (fuel + 1)) (expression (fuel + 1)) := by
  unfold expression
  refine .bind (ih.operand levels levels_join) fun target => .plain (.accept? _) ?_
  rintro (_ | equals)
  · exact .pure rfl
  · exact .bind ih.expression fun value => assignTo_shifts equals value target

theorem operand_shifts (ih : ReadersShift k fuel) (list : List Level) (join : ∀ level ∈ list, level.Joins) :
    Shifts k (Expr.rename (.later k)) (operand (fuel + 1) list) (operand (fuel + 1) list) := by
  cases list with
  | nil =>
    unfold operand
    exact ih.unary
  | cons level tighter =>
    have others : ∀ level ∈ tighter, level.Joins := fun l m => join l (List.mem_cons_of_mem _ m)
    unfold operand
    exact .bind (ih.operand tighter others) fun left =>
      ih.operators level tighter left (join level List.mem_cons_self) others

theorem operators_shifts (ih : ReadersShift k fuel) (level : Level) (tighter : List Level) (left : Expr)
    (join : level.Joins) (others : ∀ level ∈ tighter, level.Joins) :
    Shifts k (Expr.rename (.later k)) (operators (fuel + 1) level tighter left)
      (operators (fuel + 1) level tighter (left.rename (.later k))) := by
  unfold operators
  refine .plain (.accept? _) ?_
  rintro (_ | operator)
  · exact .pure rfl
  · refine .bind (ih.operand tighter others) fun right => ?_
    have joined := ih.operators level tighter (level.join left operator right) join others
    rwa [join] at joined

theorem unary_shifts (ih : ReadersShift k fuel) :
    Shifts k (Expr.rename (.later k)) (unary (fuel + 1)) (unary (fuel + 1)) := by
  unfold unary
  refine .onToken _ (fun operator => .bind ih.unary fun e => .pure rfl) ?_
  exact .bind ih.primary fun first => ih.suffixes first

theorem suffixes_shifts (ih : ReadersShift k fuel) (before : Expr) :
    Shifts k (Expr.rename (.later k)) (suffixes (fuel + 1) before)
      (suffixes (fuel + 1) (before.rename (.later k))) := by
  unfold suffixes
  have closing : ∀ es, Shifts k (Expr.rename (.later k))
      (expectMark .rightParen .argumentsEnd >>= fun close => suffixes fuel (.call before close es))
      (expectMark .rightParen .argumentsEnd >>= fun close =>
        suffixes fuel (.call (before.rename (.later k)) close (Expr.renameAll (.later k) es))) :=
    fun es => .plain (.expectMark _ _) fun close => ih.suffixes (.call before close es)
  refine .onMark _ (.seen _ (closing []) ?_) (.onMark _ ?_ (.pure rfl))
  · exact .bind (ih.arguments 0) closing
  · exact .plain (.expectName _) fun name => ih.suffixes (.get before name)

theorem arguments_shifts (ih : ReadersShift k fuel) (already : Nat) :
    Shifts k (Expr.renameAll (.later k)) (arguments (fuel + 1) already) (arguments (fuel + 1) already) := by
  unfold arguments
  have entries : Shifts k (Expr.renameAll (.later k)) (do
      let value ← expression fuel
      if ← acceptMark .comma then return value :: (← arguments fuel (already + 1)) else return [value]) (do
      let value ← expression fuel
      if ← acceptMark .comma then return value :: (← arguments fuel (already + 1)) else return [value]) :=
    .bind ih.expression fun e => .onMark _ (.bind (ih.arguments _) fun es => .pure rfl) (.pure rfl)
  exact .ite (.plain .look fun t => .plain (.complain _ _) fun _ => entries) entries

theorem parameterNames_shifts (fuel already : Nat) :
    Shifts k id (parameterNames fuel already) (parameterNames fuel already) := by
  induction fuel generalizing already with
  | zero => exact .fail _
  | succ fuel ih =>
    unfold parameterNames
    have entries : Shifts k id (do
        let name ← expectName .parameter
        if ← acceptMark .comma then return name :: (← parameterNames fuel (already + 1)) else return [name]) (do
        let name ← expectName .parameter
        if ← acceptMark .comma then return name :: (← parameterNames fuel (already + 1)) else return [name]) :=
      .plain (.expectName _) fun name => .onMark _ (.plain (ih _) fun ps => .pure rfl) (.pure rfl)
    exact .ite (.plain .look fun t => .plain (.complain _ _) fun _ => entries) entries

theorem parameterList_shifts (fuel : Nat) : Shifts k id (parameterList fuel) (parameterList fuel) := by
  unfold parameterList
  have closing : ∀ ps : List Token, Shifts k id (do let _ ← expectMark .rightParen .parametersEnd; return ps)
      (do let _ ← expectMark .rightParen .parametersEnd; return ps) :=
    fun ps => .plain (.expectMark _ _) fun close => .pure rfl
  exact .seen _ (closing []) (.plain (parameterNames_shifts fuel 0) closing)

theorem routine_shifts (ih : ReadersShift k fuel) (head : Token) (first second : Slot) :
    Shifts k (Routine.rename (.later k)) (routine (fuel + 1) head first second)
      (routine (fuel + 1) head first second) := by
  unfold routine
  refine .plain (.expectMark _ _) fun _ => .plain (parameterList_shifts fuel) fun ps =>
    .plain (.expectMark _ _) fun _ => .bind ih.block fun body => .pure ?_
  rw [Routine.rename, Token.map_later]
  rfl

theorem primary_shifts (ih : ReadersShift k fuel) :
    Shifts k (Expr.rename (.later k)) (primary (fuel + 1)) (primary (fuel + 1)) := by
  unfold primary
  refine .onToken _ (fun t => .pure rfl) <| .onToken _ (fun t => ?_) <| .onToken _ (fun t => ?_) <|
    .onToken _ (fun t => ?_) <| .onMark _ ?_ (.fail _)
  · exact .bind .fresh fun i => .pure rfl
  · exact .bind .fresh fun i => .pure rfl
  · exact .bind (ih.routine _ _ _) fun r => .pure rfl
  · exact .bind ih.expression fun e => .plain (.expectMark _ _) fun close => .pure rfl

-- A statement that was read, or none, and those behind it.
theorem listed_shifts (first : Option Stmt) {reader : Reading (List Stmt)}
    (later : Shifts k (Stmt.renameAll (.later k)) reader reader) :
    Shifts k (Stmt.renameAll (.later k)) (do return first.toList ++ (← reader))
      (do return (first.map (Stmt.rename (.later k))).toList ++ (← reader)) := by
  refine .bind later fun ss => .pure ?_
  cases first <;> rfl

theorem block_shifts (ih : ReadersShift k fuel) :
    Shifts k (Stmt.renameAll (.later k)) (block (fuel + 1)) (block (fuel + 1)) := by
  unfold block
  refine .plain (.sees _) fun _ => .plain .atEnd fun _ =>
    .ite (.plain (.expectMark _ _) fun _ => .pure rfl) ?_
  exact .bind (.recovering ih.declaration) fun first => listed_shifts first ih.block

theorem methods_shifts (ih : ReadersShift k fuel) :
    Shifts k (Routine.renameAll (.later k)) (methods (fuel + 1)) (methods (fuel + 1)) := by
  unfold methods
  refine .plain (.sees _) fun _ => .plain .atEnd fun _ => .ite (.pure rfl) (.plain (.expectName _) fun name => ?_)
  exact .bind (ih.routine _ _ _) fun r => .bind ih.methods fun rs => .pure rfl

theorem declaration_shifts (ih : ReadersShift k fuel) :
    Shifts k (Stmt.rename (.later k)) (declaration (fuel + 1)) (declaration (fuel + 1)) := by
  unfold declaration
  refine .onKeyword _ ?_ (.plain .declaresFunction fun _ => .ite ?_ (.onKeyword _ ih.variableRest ih.statement))
  · exact .plain (.expectName _) fun name => .plain (.expectMark _ _) fun _ => .bind ih.methods fun rs =>
      .plain (.expectMark _ _) fun _ => .pure rfl
  · exact .plain (.acceptKeyword _) fun _ => .plain (.expectName _) fun name =>
      .bind (ih.routine _ _ _) fun r => .pure rfl

theorem variableRest_shifts (ih : ReadersShift k fuel) :
    Shifts k (Stmt.rename (.later k)) (variableRest (fuel + 1)) (variableRest (fuel + 1)) := by
  unfold variableRest
  refine .plain (.expectName _) fun name => ?_
  have ending : ∀ o, Shifts k (Stmt.rename (.later k))
      (do let _ ← expectMark .semicolon .variableEnd; return .var name o)
      (do let _ ← expectMark .semicolon .variableEnd; return .var name (o.map (Expr.rename (.later k)))) :=
    fun o => .plain (.expectMark _ _) fun _ => .pure (by cases o <;> rfl)
  have filled : Shifts k (Option.map (Expr.rename (.later k))) (some <$> expression fuel) (some <$> expression fuel) :=
    .map ih.expression fun e => rfl
  exact .onMark _ (.bind filled ending) (ending none)

theorem expressionStatement_shifts (ih : ReadersShift k fuel) :
    Shifts k (Stmt.rename (.later k)) (expressionStatement (fuel + 1)) (expressionStatement (fuel + 1)) := by
  unfold expressionStatement
  exact .bind ih.expression fun e => .plain (.expectMark _ _) fun _ => .pure rfl

theorem expressionBefore_shifts (ih : ReadersShift k fuel) (m : Mark) :
    Shifts k (Option.map (Expr.rename (.later k))) (expressionBefore (fuel + 1) m) (expressionBefore (fuel + 1) m) := by
  unfold expressionBefore
  exact .seen _ (.pure rfl) (.map ih.expression fun e => rfl)

theorem firstClause_shifts (ih : ReadersShift k fuel) :
    Shifts k (Option.map (Stmt.rename (.later k))) (firstClause (fuel + 1)) (firstClause (fuel + 1)) := by
  unfold firstClause
  refine .onMark _ (.pure rfl) (.onKeyword _ ?_ ?_)
  · exact .bind ih.variableRest fun s => .pure rfl
  · exact .bind ih.expressionStatement fun s => .pure rfl

theorem forLoop_rename (ρ : Renaming) (initial : Option Stmt) (condition step : Option Expr) (body : Stmt) :
    (forLoop initial condition step body).rename ρ = forLoop (initial.map (Stmt.rename ρ))
      (condition.map (Expr.rename ρ)) (step.map (Expr.rename ρ)) (body.rename ρ) := by
  cases initial <;> cases condition <;> cases step <;> rfl

theorem forStatement_shifts (ih : ReadersShift k fuel) :
    Shifts k (Stmt.rename (.later k)) (forStatement (fuel + 1)) (forStatement (fuel + 1)) := by
  unfold forStatement
  refine .plain (.expectMark _ _) fun _ => .bind ih.firstClause fun initial =>
    .bind (ih.expressionBefore _) fun condition => .plain (.expectMark _ _) fun _ =>
    .bind (ih.expressionBefore _) fun step => .plain (.expectMark _ _) fun _ =>
    .bind ih.statement fun body => .pure ?_
  exact (forLoop_rename _ initial condition step body).symm

theorem statement_shifts (ih : ReadersShift k fuel) :
    Shifts k (Stmt.rename (.later k)) (statement (fuel + 1)) (statement (fuel + 1)) := by
  unfold statement
  refine .onKeyword _ ih.forStatement <| .onKeyword _ ?_ <| .onKeyword _ ?_ <| .onToken _ (fun t => ?_) <|
    .onToken _ (fun t => ?_) <| .onMark _ ?_ <| .onToken _ (fun t => ?_) ih.expressionStatement
  · refine .plain (.expectMark _ _) fun _ => .bind ih.expression fun condition => .plain (.expectMark _ _) fun _ =>
      .bind ih.statement fun yes => .onKeyword _ ?_ (.pure rfl)
    have no : Shifts k (Option.map (Stmt.rename (.later k))) (some <$> statement fuel) (some <$> statement fuel) :=
      .map ih.statement fun s => rfl
    refine .bind no fun o => .pure ?_
    cases o <;> rfl
  · exact .plain (.expectMark _ _) fun _ => .bind ih.expression fun condition => .plain (.expectMark _ _) fun _ =>
      .bind ih.statement fun body => .pure rfl
  · refine .bind (ih.expressionBefore _) fun o => .plain (.expectMark _ _) fun _ => .pure ?_
    cases o <;> rfl
  · exact .plain (.expectMark _ _) fun _ => .pure rfl
  · exact .bind ih.block fun body => .pure rfl
  · exact .bind ih.expression fun e => .plain (.expectMark _ _) fun _ => .pure rfl

theorem readers_shift (k fuel : Nat) : ReadersShift k fuel := by
  induction fuel with
  | zero =>
    constructor
    all_goals intros; exact .fail _
  | succ fuel ih =>
    exact {
      expression := expression_shifts ih
      operand := operand_shifts ih
      operators := operators_shifts ih
      unary := unary_shifts ih
      suffixes := suffixes_shifts ih
      arguments := arguments_shifts ih
      primary := primary_shifts ih
      routine := routine_shifts ih
      block := block_shifts ih
      declaration := declaration_shifts ih
      methods := methods_shifts ih
      variableRest := variableRest_shifts ih
      statement := statement_shifts ih
      forStatement := forStatement_shifts ih
      firstClause := firstClause_shifts ih
      expressionBefore := expressionBefore_shifts ih
      expressionStatement := expressionStatement_shifts ih }

theorem declarations_shifts (fuel : Nat) :
    Shifts k (Stmt.renameAll (.later k)) (declarations fuel) (declarations fuel) := by
  induction fuel with
  | zero => exact .fail _
  | succ fuel ih =>
    unfold declarations
    refine .plain .atEnd fun _ => .ite (.pure rfl) ?_
    exact .bind (.recovering (readers_shift k fuel).declaration) fun first => listed_shifts first ih

theorem wholeExpression_shifts (fuel : Nat) :
    Shifts k (Expr.rename (.later k)) (wholeExpression fuel) (wholeExpression fuel) := by
  unfold wholeExpression
  exact .bind (readers_shift k fuel).expression fun e => .plain .atEnd fun _ => .ite (.pure rfl) (.fail _)

theorem finish_shifts {f : α → β} {x : Reading α} {y : Reading β} (h : Shifts k f x y) (tokens : List Token) :
    finish (y (.ofTokens tokens k)) =
      ((finish (x (.ofTokens tokens 0))).1.map f, k + (finish (x (.ofTokens tokens 0))).2) := by
  have read := h (.ofTokens tokens 0)
  rw [show (Cursor.ofTokens tokens 0).later k = .ofTokens tokens k from rfl] at read
  rw [read]
  cases x (.ofTokens tokens 0) with
  | error fault after => rfl
  | ok a after =>
    obtain ⟨ahead, stop, next, faults⟩ := after
    cases faults <;> rfl

-- A reading hands out the same ids from wherever the counter stands. What it finds at fault does
-- not depend on them.

theorem readProgram_shifts (tokens : List Token) (next : RefId) : readProgram tokens next =
    ((readProgram tokens 0).1.map (Stmt.renameAll (.later next)), next + (readProgram tokens 0).2) :=
  finish_shifts (declarations_shifts _) tokens

theorem readExpression_shifts (tokens : List Token) (next : RefId) : readExpression tokens next =
    ((readExpression tokens 0).1.map (Expr.rename (.later next)), next + (readExpression tokens 0).2) :=
  finish_shifts (wholeExpression_shifts _) tokens

end ScopeScript
