import ScopeScript.Proofs.Grammar.Settling

namespace ScopeScript

open Reading

-- The readers that call one another, with what each is told besides its fuel.
inductive Procedure : Type → Type 1 where
  | expression : Procedure Expr
  | operand (list : List Level) : Procedure Expr
  | operators (level : Level) (tighter : List Level) (left : Expr) : Procedure Expr
  | unary : Procedure Expr
  | suffixes (before : Expr) : Procedure Expr
  | arguments (already : Nat) : Procedure (List Expr)
  | primary : Procedure Expr
  | parameterNames (already : Nat) : Procedure (List Token)
  | parameterList : Procedure (List Token)
  | routine (head : Token) (first second : Slot) : Procedure Routine
  | block : Procedure (List Stmt)
  | declaration : Procedure Stmt
  | methods : Procedure (List Routine)
  | variableRest : Procedure Stmt
  | statement : Procedure Stmt
  | forStatement : Procedure Stmt
  | firstClause : Procedure (Option Stmt)
  | expressionBefore (m : Mark) : Procedure (Option Expr)
  | expressionStatement : Procedure Stmt
  | declarations : Procedure (List Stmt)
  | wholeExpression : Procedure Expr

namespace Procedure

def read : Procedure α → Nat → Reading α
  | expression, k => ScopeScript.expression k
  | operand list, k => ScopeScript.operand k list
  | operators level tighter left, k => ScopeScript.operators k level tighter left
  | unary, k => ScopeScript.unary k
  | suffixes before, k => ScopeScript.suffixes k before
  | arguments already, k => ScopeScript.arguments k already
  | primary, k => ScopeScript.primary k
  | parameterNames already, k => ScopeScript.parameterNames k already
  | parameterList, k => ScopeScript.parameterList k
  | routine head first second, k => ScopeScript.routine k head first second
  | block, k => ScopeScript.block k
  | declaration, k => ScopeScript.declaration k
  | methods, k => ScopeScript.methods k
  | variableRest, k => ScopeScript.variableRest k
  | statement, k => ScopeScript.statement k
  | forStatement, k => ScopeScript.forStatement k
  | firstClause, k => ScopeScript.firstClause k
  | expressionBefore m, k => ScopeScript.expressionBefore k m
  | expressionStatement, k => ScopeScript.expressionStatement k
  | declarations, k => ScopeScript.declarations k
  | wholeExpression, k => ScopeScript.wholeExpression k

-- How many readers a procedure may call inside one another before a token is taken, itself included.
@[simp] def need : Procedure α → Nat
  | operand list => list.length + 3
  | operators _ tighter _ => tighter.length + 1
  | expression | wholeExpression => 10
  | arguments _ | expressionBefore _ | expressionStatement => 11
  | firstClause | statement => 12
  | declaration => 13
  | block | declarations => 14
  | unary => 2
  | _ => 1

-- How many tokens a result costs at least.
@[simp] def least : Procedure α → Nat
  | operators .. | suffixes _ | methods | expressionBefore _ | declarations => 0
  | _ => 1

end Procedure

-- Every procedure settles with so much fuel.
def ReadersSettle (fuel : Nat) : Prop := ∀ {α : Type} (p : Procedure α), Settles p.need fuel p.read p.least

variable {fuel : Nat}

theorem ReadersSettle.within (ih : ReadersSettle fuel) (p : Procedure α) (less : p.need ≤ need)
    (fewer : few ≤ p.least) : Settles need fuel p.read few :=
  Settles.within (ih p) less fewer

-- Behind a token there is fuel for every procedure but those for long lists of levels.
theorem ReadersSettle.behind (ih : ReadersSettle fuel) (p : Procedure α) (less : p.need ≤ need + 16) :
    Settles (need + 16) fuel p.read 0 :=
  ih.within p less (Nat.zero_le _)

theorem assignTo_settles (equals : Token) (value target : Expr) :
    Settles need fuel (fun _ => assignTo equals value target) 0 := by
  unfold assignTo
  split
  · exact .bind .fresh fun i => .pure _
  · exact .pure _
  · exact .bind (.complain (by decide) _) fun _ => .pure _

theorem expression_settles (ih : ReadersSettle fuel) : Settles 10 (fuel + 1) expression 1 := by
  refine .spend ?_
  unfold expression
  refine .behind (ih.within (.operand levels) (by decide) (by simp)) fun target =>
    .onToken _ (fun equals => ?_) (.pure _)
  exact .bind (ih.behind .expression (by simp)) fun value => assignTo_settles _ _ _

theorem operand_settles (ih : ReadersSettle fuel) (list : List Level) :
    Settles (list.length + 3) (fuel + 1) (fun k => operand k list) 1 := by
  refine .spend ?_
  cases list with
  | nil =>
    unfold operand
    exact ih.within .unary (by simp) (by simp)
  | cons level tighter =>
    unfold operand
    refine .behind (ih.within (.operand tighter) (by simp) (by simp)) fun left => ?_
    exact ih.behind (.operators level tighter left) (by simp)

theorem operators_settles (ih : ReadersSettle fuel) (level : Level) (tighter : List Level) (left : Expr) :
    Settles (tighter.length + 1) (fuel + 1) (fun k => operators k level tighter left) 0 := by
  refine .spend ?_
  unfold operators
  refine .onToken _ (fun operator => ?_) (.pure _)
  refine .bind (ih.behind (.operand tighter) (by simp)) fun right => ?_
  exact ih.behind (.operators level tighter (level.join left operator right)) (by simp)

theorem unary_settles (ih : ReadersSettle fuel) : Settles 2 (fuel + 1) unary 1 := by
  refine .spend ?_
  unfold unary
  refine .onToken _ (fun operator => .bind (ih.behind .unary (by simp)) fun e => .pure _) ?_
  exact .behind (ih .primary) fun first => ih.behind (.suffixes first) (by simp)

theorem suffixes_settles (ih : ReadersSettle fuel) (before : Expr) :
    Settles 1 (fuel + 1) (fun k => suffixes k before) 0 := by
  refine .spend ?_
  unfold suffixes
  have closing : ∀ values, Settles 16 fuel
      (fun k => expectMark .rightParen .argumentsEnd >>= fun close => suffixes k (.call before close values)) 0 :=
    fun values => .mark _ _ fun close => ih.behind (.suffixes (.call before close values)) (by simp)
  refine .onMark _ (.seen _ (closing []) (.bind (ih.behind (.arguments 0) (by simp)) closing)) (.onMark _ ?_ (.pure _))
  exact .name _ fun name => ih.behind (.suffixes (.get before name)) (by simp)

theorem arguments_settles (ih : ReadersSettle fuel) (already : Nat) :
    Settles 11 (fuel + 1) (fun k => arguments k already) 1 := by
  refine .spend ?_
  unfold arguments
  have entries : Settles 10 fuel (fun k => do
      let value ← expression k
      if ← acceptMark .comma then return value :: (← arguments k (already + 1)) else return [value]) 1 := by
    refine .behind (ih .expression) fun value => .onMark _ ?_ (.pure _)
    exact .bind (ih.behind (.arguments (already + 1)) (by simp)) fun others => .pure _
  exact .ite (.bind .look fun t => .bind (.complain (by decide) _) fun _ => entries) entries

theorem primary_settles (ih : ReadersSettle fuel) : Settles 1 (fuel + 1) primary 1 := by
  refine .spend ?_
  unfold primary
  refine .onToken _ (fun t => .pure _) <| .onToken _ (fun t => ?_) <| .onToken _ (fun t => ?_) <|
    .onToken _ (fun t => ?_) <| .onMark _ ?_ (.fail nofun)
  · exact .bind .fresh fun i => .pure _
  · exact .bind .fresh fun i => .pure _
  · exact .bind (ih.behind (.routine t .lambdaParameters .lambdaBody) (by simp)) fun r => .pure _
  · exact .bind (ih.behind .expression (by simp)) fun inner => .mark _ _ fun close => .pure _

theorem parameterNames_settles (ih : ReadersSettle fuel) (already : Nat) :
    Settles 1 (fuel + 1) (fun k => parameterNames k already) 1 := by
  refine .spend ?_
  unfold parameterNames
  have entries : Settles 0 fuel (fun k => do
      let name ← expectName .parameter
      if ← acceptMark .comma then return name :: (← parameterNames k (already + 1)) else return [name]) 1 := by
    refine .name _ fun name => .onMark _ ?_ (.pure _)
    exact .bind (ih.behind (.parameterNames (already + 1)) (by simp)) fun others => .pure _
  exact .ite (.bind .look fun t => .bind (.complain (by decide) _) fun _ => entries) entries

-- The list calls for no fuel of its own.
theorem parameterList_settles (names : Settles 1 fuel (fun k => parameterNames k 0) 1) :
    Settles 1 fuel parameterList 1 := by
  unfold parameterList
  refine .seen _ (.mark _ _ fun close => .pure _) ?_
  exact .behind names fun parameters => .mark _ _ fun close => .pure _

theorem routine_settles (ih : ReadersSettle fuel) (head : Token) (first second : Slot) :
    Settles 1 (fuel + 1) (fun k => routine k head first second) 1 := by
  refine .spend ?_
  unfold routine
  refine .mark _ _ fun _ => .bind (ih.behind .parameterList (by simp)) fun parameters => .mark _ _ fun _ => ?_
  exact .bind (ih.behind .block (by simp)) fun body => .pure _

theorem declaration_settles (ih : ReadersSettle fuel) : Settles 13 (fuel + 1) declaration 1 := by
  refine .spend ?_
  unfold declaration
  refine .onKeyword _ ?_ (.bind .declaresFunction fun _ => .ite ?_ (.onKeyword _ ?_ ?_))
  · refine .name _ fun name => .mark _ _ fun _ => .bind (ih.behind .methods (by simp)) fun routines => ?_
    exact .mark _ _ fun _ => .pure _
  · refine .bind (.acceptKeyword _) fun _ => .name _ fun name => ?_
    exact .bind (ih.behind (.routine name .functionParameters .functionBody) (by simp)) fun r => .pure _
  · exact ih.behind .variableRest (by simp)
  · exact ih .statement

theorem variableRest_settles (ih : ReadersSettle fuel) : Settles 1 (fuel + 1) variableRest 1 := by
  refine .spend ?_
  unfold variableRest
  refine .name _ fun name => .onMark _ ?_ (.mark _ _ fun _ => .pure _)
  exact .bind (.map (ih.behind .expression (by simp))) fun initial => .mark _ _ fun _ => .pure _

theorem expressionStatement_settles (ih : ReadersSettle fuel) : Settles 11 (fuel + 1) expressionStatement 1 := by
  refine .spend ?_
  unfold expressionStatement
  exact .behind (ih .expression) fun value => .mark _ _ fun _ => .pure _

theorem expressionBefore_settles (ih : ReadersSettle fuel) (m : Mark) :
    Settles 11 (fuel + 1) (fun k => expressionBefore k m) 0 := by
  refine .spend ?_
  unfold expressionBefore
  exact .seen _ (.pure _) (.map (ih.within .expression (by simp) (by simp)))

theorem firstClause_settles (ih : ReadersSettle fuel) : Settles 12 (fuel + 1) firstClause 1 := by
  refine .spend ?_
  unfold firstClause
  refine .onMark _ (.pure _) (.onKeyword _ ?_ ?_)
  · exact .bind (ih.behind .variableRest (by simp)) fun s => .pure _
  · exact .behind (ih .expressionStatement) fun s => .pure _

theorem forStatement_settles (ih : ReadersSettle fuel) : Settles 1 (fuel + 1) forStatement 1 := by
  refine .spend ?_
  unfold forStatement
  refine .mark _ _ fun _ => .bind (ih.behind .firstClause (by simp)) fun initial => ?_
  refine .bind (ih.behind (.expressionBefore .semicolon) (by simp)) fun condition => .mark _ _ fun _ => ?_
  refine .bind (ih.behind (.expressionBefore .rightParen) (by simp)) fun step => .mark _ _ fun _ => ?_
  exact .bind (ih.behind .statement (by simp)) fun body => .pure _

theorem statement_settles (ih : ReadersSettle fuel) : Settles 12 (fuel + 1) statement 1 := by
  refine .spend ?_
  unfold statement
  refine .onKeyword _ ?_ <| .onKeyword _ ?_ <| .onKeyword _ ?_ <| .onToken _ (fun t => ?_) <|
    .onToken _ (fun t => ?_) <| .onMark _ ?_ <| .onToken _ (fun t => ?_) ?_
  · exact ih.behind .forStatement (by simp)
  · refine .mark _ _ fun _ => .bind (ih.behind .expression (by simp)) fun condition => .mark _ _ fun _ => ?_
    refine .bind (ih.behind .statement (by simp)) fun yes => .onKeyword _ ?_ (.pure _)
    exact .bind (.map (ih.behind .statement (by simp))) fun no => .pure _
  · refine .mark _ _ fun _ => .bind (ih.behind .expression (by simp)) fun condition => .mark _ _ fun _ => ?_
    exact .bind (ih.behind .statement (by simp)) fun body => .pure _
  · exact .bind (ih.behind (.expressionBefore .semicolon) (by simp)) fun value => .mark _ _ fun _ => .pure _
  · exact .mark _ _ fun _ => .pure _
  · exact .bind (ih.behind .block (by simp)) fun body => .pure _
  · exact .bind (ih.behind .expression (by simp)) fun value => .mark _ _ fun _ => .pure _
  · exact ih .expressionStatement

theorem wholeExpression_settles (whole : Settles 10 fuel expression 1) : Settles 10 fuel wholeExpression 1 := by
  unfold wholeExpression
  exact .behind whole fun value => .bind .atEnd fun _ => .ite (.pure _) (.fail (by decide))

-- The loops that read one entry after another.
inductive Loop : Type → Type 1 where
  | program : Loop Stmt
  | block : Loop Stmt
  | classBody : Loop Routine

namespace Loop

def procedure : Loop α → Procedure (List α)
  | program => .declarations
  | block => .block
  | classBody => .methods

def goesOn : Loop α → Cursor → Bool
  | program, c => !c.atEnd
  | block, c => !(c.sees (·.isMark .rightBrace) || c.atEnd)
  | classBody, c => !(c.sees (·.isMark .rightBrace) || c.atEnd)

-- One round. A statement at fault is recovered from and adds nothing, a method at fault ends the loop.
def round : Loop α → Nat → Reading (List α)
  | program, k => do return (← recovering (declaration k)).toList
  | block, k => do return (← recovering (declaration k)).toList
  | classBody, k => do
    let name ← expectName .method
    return [← routine k name .methodParameters .methodBody]

def leave : Loop α → Reading (List α)
  | program => return []
  | block => do
    let _ ← expectMark .rightBrace .blockEnd
    return []
  | classBody => return []

theorem unroll (l : Loop α) (k : Nat) (c : Cursor) : l.procedure.read (k + 1) c =
    if l.goesOn c = true then (do return (← l.round k) ++ (← l.procedure.read k) : Reading (List α)) c
    else l.leave c := by
  cases l with
  | program =>
    show declarations (k + 1) c = _
    rw [declarations]
    show (if c.atEnd = true then _ else _ : Reading (List Stmt)) c = _
    simp only [goesOn, round, leave, procedure, Procedure.read]
    rcases Bool.eq_false_or_eq_true c.atEnd with stops | stops <;> simp [stops]
  | block =>
    show ScopeScript.block (k + 1) c = _
    rw [ScopeScript.block]
    show (if (c.sees (·.isMark .rightBrace) || c.atEnd) = true then _ else _ : Reading (List Stmt)) c = _
    simp only [goesOn, round, leave, procedure, Procedure.read]
    rcases Bool.eq_false_or_eq_true (c.sees (·.isMark .rightBrace) || c.atEnd) with stops | stops <;>
      simp only [stops] <;> simp
  | classBody =>
    show methods (k + 1) c = _
    rw [methods]
    show (if (c.sees (·.isMark .rightBrace) || c.atEnd) = true then _ else _ : Reading (List Routine)) c = _
    simp only [goesOn, round, leave, procedure, Procedure.read]
    rcases Bool.eq_false_or_eq_true (c.sees (·.isMark .rightBrace) || c.atEnd) with stops | stops <;>
      simp only [stops] <;> simp

theorem goesOn_ahead {l : Loop α} {c : Cursor} (goes : l.goesOn c = true) : c.ahead ≠ [] := by
  intro none
  have ended : c.atEnd = true := by rw [Cursor.atEnd, none]; rfl
  cases l <;> simp [goesOn, ended] at goes

theorem round_settles (ih : ReadersSettle fuel) {l : Loop α} {c : Cursor} (goes : l.goesOn c = true) :
    SettlesAt (l.procedure.need - 1) fuel 1 l.round c := by
  have sentence : SettlesAt 13 fuel 1 (fun k => do return (← recovering (declaration k)).toList) c :=
    .bind ((ih .declaration c).recovering (goesOn_ahead goes)) fun o => .pure _
  cases l with
  | program => exact sentence
  | block => exact sentence
  | classBody =>
    refine Settles.name _ (fun name => ?_) c
    exact .bind (ih.behind (.routine name .methodParameters .methodBody) (by simp)) fun r => .pure _

theorem leave_settles (l : Loop α) : Settles need fuel (fun _ => l.leave) l.procedure.least := by
  cases l with
  | program => exact .pure _
  | block => exact .mark _ _ fun close => .pure _
  | classBody => exact .pure _

theorem settles (ih : ReadersSettle fuel) (l : Loop α) :
    Settles l.procedure.need (fuel + 1) l.procedure.read l.procedure.least := by
  have small : l.procedure.need ≤ 16 ∧ 1 ≤ l.procedure.need ∧ l.procedure.least ≤ 1 := by
    cases l <;> simp [procedure]
  obtain ⟨need, same⟩ : ∃ need, l.procedure.need = need + 1 := ⟨l.procedure.need - 1, by omega⟩
  rw [same]
  refine .spend fun c => ?_
  by_cases goes : l.goesOn c = true
  · have first : SettlesAt need fuel 1 l.round c := (round_settles ih goes).within (by omega) (Nat.le_refl _)
    have both : SettlesAt need fuel 1 (fun k => do return (← l.round k) ++ (← l.procedure.read k)) c :=
      first.bind fun entries => .bind (ih.behind l.procedure (by omega)) fun others => .pure _
    refine (both.within (Nat.le_refl _) small.2.2).alike fun k => ?_
    rw [l.unroll, if_pos goes]
  · refine (l.leave_settles c).alike fun k => ?_
    rw [l.unroll, if_neg goes]

end Loop

theorem readers_settle (fuel : Nat) : ReadersSettle fuel := by
  induction fuel with
  | zero =>
    intro α p
    cases p with
    | parameterList => exact parameterList_settles (.exhausted fun _ => rfl)
    | wholeExpression => exact wholeExpression_settles (.exhausted fun _ => rfl)
    | _ => exact .exhausted fun _ => rfl
  | succ fuel ih =>
    intro α p
    cases p with
    | expression => exact expression_settles ih
    | operand list => exact operand_settles ih list
    | operators level tighter left => exact operators_settles ih level tighter left
    | unary => exact unary_settles ih
    | suffixes before => exact suffixes_settles ih before
    | arguments already => exact arguments_settles ih already
    | primary => exact primary_settles ih
    | parameterNames already => exact parameterNames_settles ih already
    | parameterList => exact parameterList_settles (parameterNames_settles ih 0)
    | routine head first second => exact routine_settles ih head first second
    | block => exact Loop.block.settles ih
    | declaration => exact declaration_settles ih
    | methods => exact Loop.classBody.settles ih
    | variableRest => exact variableRest_settles ih
    | statement => exact statement_settles ih
    | forStatement => exact forStatement_settles ih
    | firstClause => exact firstClause_settles ih
    | expressionBefore m => exact expressionBefore_settles ih m
    | expressionStatement => exact expressionStatement_settles ih
    | declarations => exact Loop.program.settles ih
    | wholeExpression => exact wholeExpression_settles (expression_settles ih)

end ScopeScript
