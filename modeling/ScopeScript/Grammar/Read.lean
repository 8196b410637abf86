import ScopeScript.Grammar.Cursor

namespace ScopeScript

open Reading

-- A level of left-associative operators, all of one strength.
structure Level where
  operators : List TokenKind
  join : Expr → Token → Expr → Expr

def Level.holds (level : Level) (t : Token) : Bool := level.operators.contains t.kind

-- From the weakest binding to the strongest.
def levels : List Level := [
  ⟨[.keyword .orWord], .logical⟩,
  ⟨[.keyword .andWord], .logical⟩,
  ⟨[.mark .bangEqual, .mark .equalEqual], .binary⟩,
  ⟨[.mark .greater, .mark .greaterEqual, .mark .less, .mark .lessEqual], .binary⟩,
  ⟨[.mark .minus, .mark .plus], .binary⟩,
  ⟨[.mark .star, .mark .slash], .binary⟩]

def isUnaryOperator (t : Token) : Bool := t.isMark .bang || t.isMark .minus

def listLimit : Nat := 255

-- The value belongs to the target on its left. A variable that turns into a target takes a new id.
def assignTo (equals : Token) (value : Expr) : Expr → Reading Expr
  | .variable _ name => do return .assign (← fresh) name value
  | .get object name => return .set object name value
  | other => do
    complain .badTarget equals
    return other

-- A constant token, or nothing.
def Token.literal? (t : Token) : Option Literal :=
  match t.kind with
  | .keyword .falseWord => some .false
  | .keyword .trueWord => some .true
  | .keyword .nilWord => some .nil
  | .number value => some (.number value)
  | .string text => some (.string text)
  | _ => none

-- Names apart by commas, after as many others.
def parameterNames : Nat → Nat → Reading (List Token)
  | 0, _ => fail .tooDeep
  | fuel + 1, already => do
    if listLimit ≤ already then complain (.tooMany .parameters) (← look)
    let name ← expectName .parameter
    if ← acceptMark .comma then
      return name :: (← parameterNames fuel (already + 1))
    else return [name]

-- The list behind the opening parenthesis, up to the closing one.
def parameterList (fuel : Nat) : Reading (List Token) := do
  let names ← if ← sees (·.isMark .rightParen) then pure [] else parameterNames fuel 0
  let _ ← expectMark .rightParen .parametersEnd
  return names

-- A for loop is a block of its first clause and a while loop; the last clause ends the body.
def forLoop (initial : Option Stmt) (condition : Option Expr) (step : Option Expr) (body : Stmt) :
    Stmt :=
  let body := match step with
    | some step => .block [body, .expression step]
    | none => body
  let loop := .loop (condition.getD (.literal .true)) body
  match initial with
  | some initial => .block [initial, loop]
  | none => loop

-- Every reader below spends one unit of fuel on each nested reader.
mutual

def expression : Nat → Reading Expr
  | 0 => fail .tooDeep
  | fuel + 1 => do
    let target ← operand fuel levels
    match ← accept? (·.isMark .equal) with
    | none => return target
    | some equals =>
      let value ← expression fuel
      assignTo equals value target

-- An operand of the level before the given ones.
def operand : Nat → List Level → Reading Expr
  | 0, _ => fail .tooDeep
  | fuel + 1, [] => unary fuel
  | fuel + 1, level :: tighter => do
    let left ← operand fuel tighter
    operators fuel level tighter left

-- Further operators of one level behind a left side.
def operators : Nat → Level → List Level → Expr → Reading Expr
  | 0, _, _, _ => fail .tooDeep
  | fuel + 1, level, tighter, left => do
    match ← accept? level.holds with
    | none => return left
    | some operator =>
      let right ← operand fuel tighter
      operators fuel level tighter (level.join left operator right)

def unary : Nat → Reading Expr
  | 0 => fail .tooDeep
  | fuel + 1 => do
    match ← accept? isUnaryOperator with
    | some operator => return .unary operator (← unary fuel)
    | none =>
      let first ← primary fuel
      suffixes fuel first

-- Calls and properties behind an expression.
def suffixes : Nat → Expr → Reading Expr
  | 0, _ => fail .tooDeep
  | fuel + 1, before => do
    if ← acceptMark .leftParen then
      let values ← if ← sees (·.isMark .rightParen) then pure [] else arguments fuel 0
      let close ← expectMark .rightParen .argumentsEnd
      suffixes fuel (.call before close values)
    else if ← acceptMark .dot then
      let name ← expectName .property
      suffixes fuel (.get before name)
    else return before

-- Expressions apart by commas, after as many others.
def arguments : Nat → Nat → Reading (List Expr)
  | 0, _ => fail .tooDeep
  | fuel + 1, already => do
    if listLimit ≤ already then complain (.tooMany .arguments) (← look)
    let value ← expression fuel
    if ← acceptMark .comma then
      return value :: (← arguments fuel (already + 1))
    else return [value]

def primary : Nat → Reading Expr
  | 0 => fail .tooDeep
  | fuel + 1 => do
    match ← accept? (·.literal?.isSome) with
    | some t => return .literal (t.literal?.getD .nil)
    | none =>
    match ← accept? (·.isKeyword .thisWord) with
    | some keyword => return .this (← fresh) keyword
    | none =>
    match ← accept? Token.isIdentifier with
    | some name => return .variable (← fresh) name
    | none =>
    match ← accept? (·.isKeyword .funWord) with
    | some keyword => return .lambda (← routine fuel keyword .lambdaParameters .lambdaBody)
    | none =>
    if ← acceptMark .leftParen then
      let inner ← expression fuel
      let _ ← expectMark .rightParen .groupEnd
      return .grouping inner
    else fail .missingExpression

-- Parameters and body behind a head.
def routine : Nat → Token → Slot → Slot → Reading Routine
  | 0, _, _, _ => fail .tooDeep
  | fuel + 1, head, parameterSlot, bodySlot => do
    let _ ← expectMark .leftParen parameterSlot
    let parameters ← parameterList fuel
    let _ ← expectMark .leftBrace bodySlot
    return .mk head parameters (← block fuel)

-- Statements up to the closing brace; those at fault are left out.
def block : Nat → Reading (List Stmt)
  | 0 => fail .tooDeep
  | fuel + 1 => do
    if (← sees (·.isMark .rightBrace)) || (← atEnd) then
      let _ ← expectMark .rightBrace .blockEnd
      return []
    else
      let first ← recovering (declaration fuel)
      return first.toList ++ (← block fuel)

-- A function keyword starts a declaration only before a name; otherwise it starts a lambda.
def declaration : Nat → Reading Stmt
  | 0 => fail .tooDeep
  | fuel + 1 => do
    if ← acceptKeyword .classWord then
      let name ← expectName .classes
      let _ ← expectMark .leftBrace .classBodyStart
      let routines ← methods fuel
      let _ ← expectMark .rightBrace .classBodyEnd
      return .classes name routines
    else if ← declaresFunction then
      let _ ← acceptKeyword .funWord
      let name ← expectName .function
      return .function (← routine fuel name .functionParameters .functionBody)
    else if ← acceptKeyword .varWord then variableRest fuel
    else statement fuel

def methods : Nat → Reading (List Routine)
  | 0 => fail .tooDeep
  | fuel + 1 => do
    if (← sees (·.isMark .rightBrace)) || (← atEnd) then return []
    else
      let name ← expectName .method
      let first ← routine fuel name .methodParameters .methodBody
      return first :: (← methods fuel)

-- The rest of a variable declaration.
def variableRest : Nat → Reading Stmt
  | 0 => fail .tooDeep
  | fuel + 1 => do
    let name ← expectName .variable
    let initial ← if ← acceptMark .equal then some <$> expression fuel else pure none
    let _ ← expectMark .semicolon .variableEnd
    return .var name initial

def statement : Nat → Reading Stmt
  | 0 => fail .tooDeep
  | fuel + 1 => do
    if ← acceptKeyword .forWord then forStatement fuel
    else if ← acceptKeyword .ifWord then
      let _ ← expectMark .leftParen .ifStart
      let condition ← expression fuel
      let _ ← expectMark .rightParen .conditionEnd
      let yes ← statement fuel
      let no ← if ← acceptKeyword .elseWord then some <$> statement fuel else pure none
      return .branch condition yes no
    else if ← acceptKeyword .whileWord then
      let _ ← expectMark .leftParen .whileStart
      let condition ← expression fuel
      let _ ← expectMark .rightParen .conditionEnd
      return .loop condition (← statement fuel)
    else
    match ← accept? (·.isKeyword .returnWord) with
    | some keyword =>
      let value ← expressionBefore fuel .semicolon
      let _ ← expectMark .semicolon .returnEnd
      return .giveBack keyword value
    | none =>
    match ← accept? (·.isKeyword .breakWord) with
    | some keyword =>
      let _ ← expectMark .semicolon .breakEnd
      return .leave keyword
    | none =>
    if ← acceptMark .leftBrace then return .block (← block fuel)
    else
    match ← accept? (·.isKeyword .printWord) with
    | some keyword =>
      let value ← expression fuel
      let _ ← expectMark .semicolon .printEnd
      return .print keyword value
    | none => expressionStatement fuel

def forStatement : Nat → Reading Stmt
  | 0 => fail .tooDeep
  | fuel + 1 => do
    let _ ← expectMark .leftParen .forStart
    let initial ← firstClause fuel
    let condition ← expressionBefore fuel .semicolon
    let _ ← expectMark .semicolon .forCondition
    let step ← expressionBefore fuel .rightParen
    let _ ← expectMark .rightParen .forEnd
    return forLoop initial condition step (← statement fuel)

-- What a loop starts with, including the semicolon behind it.
def firstClause : Nat → Reading (Option Stmt)
  | 0 => fail .tooDeep
  | fuel + 1 => do
    if ← acceptMark .semicolon then return none
    else if ← acceptKeyword .varWord then return some (← variableRest fuel)
    else return some (← expressionStatement fuel)

-- An expression unless the mark comes at once.
def expressionBefore : Nat → Mark → Reading (Option Expr)
  | 0, _ => fail .tooDeep
  | fuel + 1, m => do
    if ← sees (·.isMark m) then return none else some <$> expression fuel

def expressionStatement : Nat → Reading Stmt
  | 0 => fail .tooDeep
  | fuel + 1 => do
    let value ← expression fuel
    let _ ← expectMark .semicolon .expressionEnd
    return .expression value

end

-- All top-level declarations; those at fault are left out.
def declarations : Nat → Reading (List Stmt)
  | 0 => fail .tooDeep
  | fuel + 1 => do
    if ← atEnd then return []
    else
      let first ← recovering (declaration fuel)
      return first.toList ++ (← declarations fuel)

def wholeExpression (fuel : Nat) : Reading Expr := do
  let value ← expression fuel
  if ← atEnd then return value else fail .trailing

-- Enough for any tokens: sixteen nested readers never pass without taking one.
def readingFuel (tokens : List Token) : Nat := 16 * (tokens.length + 1)

-- A result counts only if nothing was found at fault. The id counter moves on either way.
def finish : EStateM.Result SyntaxFault Cursor α → Except (List SyntaxFault) α × RefId
  | .ok value after =>
    match after.faults with
    | [] => (.ok value, after.next)
    | faults => (.error faults, after.next)
  | .error fault after => (.error (after.faults ++ [fault]), after.next)

def readProgram (tokens : List Token) (next : RefId) : Except (List SyntaxFault) (List Stmt) × RefId :=
  finish (declarations (readingFuel tokens) (.ofTokens tokens next))

def readExpression (tokens : List Token) (next : RefId) : Except (List SyntaxFault) Expr × RefId :=
  finish (wholeExpression (readingFuel tokens) (.ofTokens tokens next))

end ScopeScript
