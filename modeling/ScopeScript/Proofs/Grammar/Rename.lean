import ScopeScript.Proofs.Grammar.Phrase
import ScopeScript.Proofs.Grammar.Mention

namespace ScopeScript

-- New ids for references and new places for tokens. A tree keeps its shape and its spelling.
structure Renaming where
  ref : RefId → RefId
  place : Position → Position

namespace Renaming

-- Wipes out every id and leaves the tokens alone.
def nameless : Renaming := ⟨fun _ => 0, id⟩

def andThen (ρ τ : Renaming) : Renaming := ⟨τ.ref ∘ ρ.ref, τ.place ∘ ρ.place⟩

end Renaming

def Token.rename (ρ : Renaming) (t : Token) : Token := { t with position := ρ.place t.position }

mutual

def Expr.rename (ρ : Renaming) : Expr → Expr
  | .literal value => .literal value
  | .grouping inner => .grouping (inner.rename ρ)
  | .unary operator operand => .unary (operator.rename ρ) (operand.rename ρ)
  | .binary left operator right => .binary (left.rename ρ) (operator.rename ρ) (right.rename ρ)
  | .logical left operator right => .logical (left.rename ρ) (operator.rename ρ) (right.rename ρ)
  | .variable id name => .variable (ρ.ref id) (name.rename ρ)
  | .assign id name value => .assign (ρ.ref id) (name.rename ρ) (value.rename ρ)
  | .call callee close arguments =>
    .call (callee.rename ρ) (close.rename ρ) (Expr.renameAll ρ arguments)
  | .lambda routine => .lambda (routine.rename ρ)
  | .get object name => .get (object.rename ρ) (name.rename ρ)
  | .set object name value => .set (object.rename ρ) (name.rename ρ) (value.rename ρ)
  | .this id keyword => .this (ρ.ref id) (keyword.rename ρ)

def Expr.renameAll (ρ : Renaming) : List Expr → List Expr
  | [] => []
  | e :: rest => e.rename ρ :: Expr.renameAll ρ rest

def Stmt.rename (ρ : Renaming) : Stmt → Stmt
  | .expression value => .expression (value.rename ρ)
  | .print keyword value => .print (keyword.rename ρ) (value.rename ρ)
  | .var name none => .var (name.rename ρ) none
  | .var name (some initial) => .var (name.rename ρ) (some (initial.rename ρ))
  | .block body => .block (Stmt.renameAll ρ body)
  | .branch condition yes none => .branch (condition.rename ρ) (yes.rename ρ) none
  | .branch condition yes (some no) =>
    .branch (condition.rename ρ) (yes.rename ρ) (some (no.rename ρ))
  | .loop condition body => .loop (condition.rename ρ) (body.rename ρ)
  | .leave keyword => .leave (keyword.rename ρ)
  | .function routine => .function (routine.rename ρ)
  | .giveBack keyword none => .giveBack (keyword.rename ρ) none
  | .giveBack keyword (some value) => .giveBack (keyword.rename ρ) (some (value.rename ρ))
  | .classes name methods => .classes (name.rename ρ) (Routine.renameAll ρ methods)

def Stmt.renameAll (ρ : Renaming) : List Stmt → List Stmt
  | [] => []
  | s :: rest => s.rename ρ :: Stmt.renameAll ρ rest

def Routine.rename (ρ : Renaming) : Routine → Routine
  | .mk head parameters body =>
    .mk (head.rename ρ) (parameters.map (Token.rename ρ)) (Stmt.renameAll ρ body)

def Routine.renameAll (ρ : Renaming) : List Routine → List Routine
  | [] => []
  | r :: rest => r.rename ρ :: Routine.renameAll ρ rest

end

section

variable (ρ : Renaming)

@[simp] theorem Token.rename_kind (t : Token) : (t.rename ρ).kind = t.kind := rfl

@[simp] theorem Token.rename_lexeme (t : Token) : (t.rename ρ).lexeme = t.lexeme := rfl

theorem Expr.renameAll_eq_map (es : List Expr) : Expr.renameAll ρ es = es.map (Expr.rename ρ) := by
  induction es with
  | nil => rfl
  | cons e rest ih => rw [Expr.renameAll, ih, List.map_cons]

theorem Stmt.renameAll_eq_map (ss : List Stmt) : Stmt.renameAll ρ ss = ss.map (Stmt.rename ρ) := by
  induction ss with
  | nil => rfl
  | cons s rest ih => rw [Stmt.renameAll, ih, List.map_cons]

theorem Routine.renameAll_eq_map (rs : List Routine) : Routine.renameAll ρ rs = rs.map (Routine.rename ρ) := by
  induction rs with
  | nil => rfl
  | cons r rest ih => rw [Routine.renameAll, ih, List.map_cons]

@[simp] theorem Routine.rename_head (r : Routine) : (r.rename ρ).head = r.head.rename ρ := by
  cases r; rfl

@[simp] theorem Routine.rename_parameters (r : Routine) :
    (r.rename ρ).parameters = r.parameters.map (Token.rename ρ) := by
  cases r; rfl

@[simp] theorem Routine.rename_body (r : Routine) : (r.rename ρ).body = Stmt.renameAll ρ r.body := by
  cases r; rfl

@[simp] theorem Routine.rename_name (r : Routine) : (r.rename ρ).name = r.name := by
  cases r; rfl

@[simp] theorem Routine.rename_isInitializer (r : Routine) : (r.rename ρ).isInitializer = r.isInitializer := by
  unfold Routine.isInitializer
  rw [Routine.rename_name]

@[simp] theorem Routine.rename_arity (r : Routine) : (r.rename ρ).arity = r.arity := by
  unfold Routine.arity
  rw [Routine.rename_parameters, List.length_map]

theorem Stmt.rename_declares (s : Stmt) : (s.rename ρ).declares = s.declares.map (Token.rename ρ) := by
  cases s with
  | var name initial => cases initial <;> rfl
  | branch condition yes no => cases no <;> rfl
  | giveBack keyword value => cases value <;> rfl
  | function routine => simp [Stmt.rename, Stmt.declares]
  | _ => rfl

end

-- Wiping out all ids is such a renaming.
mutual

theorem Expr.anonymous_eq (e : Expr) : e.anonymous = e.rename .nameless := by
  cases e with
  | literal value => rfl
  | grouping inner => simp only [Expr.anonymous, Expr.rename, inner.anonymous_eq]
  | unary operator operand => simp only [Expr.anonymous, Expr.rename, operand.anonymous_eq]; rfl
  | binary left operator right =>
    simp only [Expr.anonymous, Expr.rename, left.anonymous_eq, right.anonymous_eq]; rfl
  | logical left operator right =>
    simp only [Expr.anonymous, Expr.rename, left.anonymous_eq, right.anonymous_eq]; rfl
  | assign i name value => simp only [Expr.anonymous, Expr.rename, value.anonymous_eq]; rfl
  | call callee close arguments =>
    simp only [Expr.anonymous, Expr.rename, callee.anonymous_eq, Expr.anonymousAll_eq arguments]; rfl
  | lambda routine => simp only [Expr.anonymous, Expr.rename, routine.anonymous_eq]
  | get object name => simp only [Expr.anonymous, Expr.rename, object.anonymous_eq]; rfl
  | set object name value =>
    simp only [Expr.anonymous, Expr.rename, object.anonymous_eq, value.anonymous_eq]; rfl
  | this i keyword => rfl
  | _ i name => rfl

theorem Expr.anonymousAll_eq (es : List Expr) : Expr.anonymousAll es = Expr.renameAll .nameless es := by
  cases es with
  | nil => rfl
  | cons e rest => simp only [Expr.anonymousAll, Expr.renameAll, e.anonymous_eq, Expr.anonymousAll_eq rest]

theorem Stmt.anonymous_eq (s : Stmt) : s.anonymous = s.rename .nameless := by
  cases s with
  | expression value => simp only [Stmt.anonymous, Stmt.rename, value.anonymous_eq]
  | print keyword value => simp only [Stmt.anonymous, Stmt.rename, value.anonymous_eq]; rfl
  | var name initial =>
    cases initial with
    | none => rfl
    | some e => simp only [Stmt.anonymous, Stmt.rename, e.anonymous_eq]; rfl
  | block body => simp only [Stmt.anonymous, Stmt.rename, Stmt.anonymousAll_eq body]
  | branch condition yes no =>
    cases no with
    | none => simp only [Stmt.anonymous, Stmt.rename, condition.anonymous_eq, yes.anonymous_eq]
    | some no =>
      simp only [Stmt.anonymous, Stmt.rename, condition.anonymous_eq, yes.anonymous_eq, no.anonymous_eq]
  | loop condition body => simp only [Stmt.anonymous, Stmt.rename, condition.anonymous_eq, body.anonymous_eq]
  | leave keyword => rfl
  | function routine => simp only [Stmt.anonymous, Stmt.rename, routine.anonymous_eq]
  | giveBack keyword value =>
    cases value with
    | none => rfl
    | some e => simp only [Stmt.anonymous, Stmt.rename, e.anonymous_eq]; rfl
  | classes name methods => simp only [Stmt.anonymous, Stmt.rename, Routine.anonymousAll_eq methods]; rfl

theorem Stmt.anonymousAll_eq (ss : List Stmt) : Stmt.anonymousAll ss = Stmt.renameAll .nameless ss := by
  cases ss with
  | nil => rfl
  | cons s rest => simp only [Stmt.anonymousAll, Stmt.renameAll, s.anonymous_eq, Stmt.anonymousAll_eq rest]

theorem Routine.anonymous_eq (r : Routine) : r.anonymous = r.rename .nameless := by
  cases r with
  | mk head parameters body =>
    simp only [Routine.anonymous, Routine.rename, Stmt.anonymousAll_eq body]
    exact congrArg (Routine.mk head · _) (List.map_id parameters).symm

theorem Routine.anonymousAll_eq (rs : List Routine) :
    Routine.anonymousAll rs = Routine.renameAll .nameless rs := by
  cases rs with
  | nil => rfl
  | cons r rest => simp only [Routine.anonymousAll, Routine.renameAll, r.anonymous_eq, Routine.anonymousAll_eq rest]

end

-- Two renamings in a row.
section

variable (ρ τ : Renaming)

theorem Token.rename_andThen (ts : List Token) :
    (ts.map (Token.rename ρ)).map (Token.rename τ) = ts.map (Token.rename (ρ.andThen τ)) := by
  rw [List.map_map]
  rfl

mutual

theorem Expr.rename_rename (e : Expr) : (e.rename ρ).rename τ = e.rename (ρ.andThen τ) := by
  cases e with
  | literal value => rfl
  | grouping inner => simp only [Expr.rename, inner.rename_rename]
  | unary operator operand => simp only [Expr.rename, operand.rename_rename]; rfl
  | binary left operator right => simp only [Expr.rename, left.rename_rename, right.rename_rename]; rfl
  | logical left operator right => simp only [Expr.rename, left.rename_rename, right.rename_rename]; rfl
  | assign i name value => simp only [Expr.rename, value.rename_rename]; rfl
  | call callee close arguments =>
    simp only [Expr.rename, callee.rename_rename, Expr.renameAll_renameAll arguments]; rfl
  | lambda routine => simp only [Expr.rename, routine.rename_rename]
  | get object name => simp only [Expr.rename, object.rename_rename]; rfl
  | set object name value => simp only [Expr.rename, object.rename_rename, value.rename_rename]; rfl
  | this i keyword => rfl
  | _ i name => rfl

theorem Expr.renameAll_renameAll (es : List Expr) :
    Expr.renameAll τ (Expr.renameAll ρ es) = Expr.renameAll (ρ.andThen τ) es := by
  cases es with
  | nil => rfl
  | cons e rest => simp only [Expr.renameAll, e.rename_rename, Expr.renameAll_renameAll rest]

theorem Stmt.rename_rename (s : Stmt) : (s.rename ρ).rename τ = s.rename (ρ.andThen τ) := by
  cases s with
  | expression value => simp only [Stmt.rename, value.rename_rename]
  | print keyword value => simp only [Stmt.rename, value.rename_rename]; rfl
  | var name initial =>
    cases initial with
    | none => rfl
    | some e => simp only [Stmt.rename, e.rename_rename]; rfl
  | block body => simp only [Stmt.rename, Stmt.renameAll_renameAll body]
  | branch condition yes no =>
    cases no with
    | none => simp only [Stmt.rename, condition.rename_rename, yes.rename_rename]
    | some no => simp only [Stmt.rename, condition.rename_rename, yes.rename_rename, no.rename_rename]
  | loop condition body => simp only [Stmt.rename, condition.rename_rename, body.rename_rename]
  | leave keyword => rfl
  | function routine => simp only [Stmt.rename, routine.rename_rename]
  | giveBack keyword value =>
    cases value with
    | none => rfl
    | some e => simp only [Stmt.rename, e.rename_rename]; rfl
  | classes name methods => simp only [Stmt.rename, Routine.renameAll_renameAll methods]; rfl

theorem Stmt.renameAll_renameAll (ss : List Stmt) :
    Stmt.renameAll τ (Stmt.renameAll ρ ss) = Stmt.renameAll (ρ.andThen τ) ss := by
  cases ss with
  | nil => rfl
  | cons s rest => simp only [Stmt.renameAll, s.rename_rename, Stmt.renameAll_renameAll rest]

theorem Routine.rename_rename (r : Routine) : (r.rename ρ).rename τ = r.rename (ρ.andThen τ) := by
  cases r with
  | mk head parameters body =>
    simp only [Routine.rename, Stmt.renameAll_renameAll body, Token.rename_andThen]; rfl

theorem Routine.renameAll_renameAll (rs : List Routine) :
    Routine.renameAll τ (Routine.renameAll ρ rs) = Routine.renameAll (ρ.andThen τ) rs := by
  cases rs with
  | nil => rfl
  | cons r rest => simp only [Routine.renameAll, r.rename_rename, Routine.renameAll_renameAll rest]

end

end

-- A tree stays as it is if its own ids do.
section

variable {f : RefId → RefId}

mutual

theorem Expr.rename_fixed (e : Expr) (same : ∀ i ∈ refsOf e.mentions, f i = i) : e.rename ⟨f, id⟩ = e := by
  cases e with
  | literal value => rfl
  | grouping inner => rw [Expr.rename, inner.rename_fixed same]
  | unary operator operand => exact congrArg (Expr.unary operator) (operand.rename_fixed same)
  | binary left operator right =>
    rw [Expr.mentions, refsOf_append, List.forall_mem_append] at same
    rw [Expr.rename, left.rename_fixed same.1, right.rename_fixed same.2]
    rfl
  | logical left operator right =>
    rw [Expr.mentions, refsOf_append, List.forall_mem_append] at same
    rw [Expr.rename, left.rename_fixed same.1, right.rename_fixed same.2]
    rfl
  | assign i name value =>
    rw [Expr.mentions, refsOf_append, List.forall_mem_append] at same
    rw [Expr.rename, value.rename_fixed same.1]
    exact congrArg (Expr.assign · name value) (same.2 i List.mem_cons_self)
  | call callee close arguments =>
    rw [Expr.mentions, refsOf_append, List.forall_mem_append] at same
    rw [Expr.rename, callee.rename_fixed same.1, Expr.renameAll_fixed arguments same.2]
    rfl
  | lambda routine => rw [Expr.rename, routine.rename_fixed same]
  | get object name => exact congrArg (Expr.get · name) (object.rename_fixed same)
  | set object name value =>
    rw [Expr.mentions, refsOf_append, List.forall_mem_append] at same
    rw [Expr.rename, object.rename_fixed same.1, value.rename_fixed same.2]
    rfl
  | this i keyword => exact congrArg (Expr.this · keyword) (same i List.mem_cons_self)
  | _ i name => exact congrArg (Expr.variable · name) (same i List.mem_cons_self)

theorem Expr.renameAll_fixed (es : List Expr) (same : ∀ i ∈ refsOf (Expr.mentionsAll es), f i = i) :
    Expr.renameAll ⟨f, id⟩ es = es := by
  cases es with
  | nil => rfl
  | cons e rest =>
    rw [Expr.mentionsAll, refsOf_append, List.forall_mem_append] at same
    rw [Expr.renameAll, e.rename_fixed same.1, Expr.renameAll_fixed rest same.2]

theorem Stmt.rename_fixed (s : Stmt) (same : ∀ i ∈ refsOf s.mentions, f i = i) : s.rename ⟨f, id⟩ = s := by
  cases s with
  | expression value => rw [Stmt.rename, value.rename_fixed same]
  | print keyword value => exact congrArg (Stmt.print keyword) (value.rename_fixed same)
  | var name initial =>
    cases initial with
    | none => rfl
    | some e => exact congrArg (fun e => Stmt.var name (some e)) (e.rename_fixed same)
  | block body => rw [Stmt.rename, Stmt.renameAll_fixed body same]
  | branch condition yes no =>
    cases no with
    | none =>
      rw [Stmt.mentions, refsOf_append, List.forall_mem_append] at same
      rw [Stmt.rename, condition.rename_fixed same.1, yes.rename_fixed same.2]
    | some no =>
      rw [Stmt.mentions, refsOf_append, refsOf_append, List.forall_mem_append, List.forall_mem_append] at same
      rw [Stmt.rename, condition.rename_fixed same.1, yes.rename_fixed same.2.1, no.rename_fixed same.2.2]
  | loop condition body =>
    rw [Stmt.mentions, refsOf_append, List.forall_mem_append] at same
    rw [Stmt.rename, condition.rename_fixed same.1, body.rename_fixed same.2]
  | leave keyword => rfl
  | function routine => rw [Stmt.rename, routine.rename_fixed same]
  | giveBack keyword value =>
    cases value with
    | none => rfl
    | some e => exact congrArg (fun e => Stmt.giveBack keyword (some e)) (e.rename_fixed same)
  | classes name methods => exact congrArg (Stmt.classes name) (Routine.renameAll_fixed methods same)

theorem Stmt.renameAll_fixed (ss : List Stmt) (same : ∀ i ∈ refsOf (Stmt.mentionsAll ss), f i = i) :
    Stmt.renameAll ⟨f, id⟩ ss = ss := by
  cases ss with
  | nil => rfl
  | cons s rest =>
    rw [Stmt.mentionsAll, refsOf_append, List.forall_mem_append] at same
    rw [Stmt.renameAll, s.rename_fixed same.1, Stmt.renameAll_fixed rest same.2]

theorem Routine.rename_fixed (r : Routine) (same : ∀ i ∈ refsOf r.mentions, f i = i) :
    r.rename ⟨f, id⟩ = r := by
  cases r with
  | mk head parameters body =>
    rw [Routine.mentions, refsOf_append, List.forall_mem_append] at same
    rw [Routine.rename, Stmt.renameAll_fixed body same.2]
    exact congrArg (Routine.mk head · body) (List.map_id parameters)

theorem Routine.renameAll_fixed (rs : List Routine) (same : ∀ i ∈ refsOf (Routine.mentionsAll rs), f i = i) :
    Routine.renameAll ⟨f, id⟩ rs = rs := by
  cases rs with
  | nil => rfl
  | cons r rest =>
    rw [Routine.mentionsAll, refsOf_append, List.forall_mem_append] at same
    rw [Routine.renameAll, r.rename_fixed same.1, Routine.renameAll_fixed rest same.2]

end

end

def Phrase.rename (ρ : Renaming) : Phrase → Phrase
  | .declarations ss => .declarations (Stmt.renameAll ρ ss)
  | .declaration s => .declaration (s.rename ρ)
  | .functions rs => .functions (Routine.renameAll ρ rs)
  | .function r => .function (r.rename ρ)
  | .routine r => .routine (r.rename ρ)
  | .parameters ps => .parameters (ps.map (Token.rename ρ))
  | .names ps => .names (ps.map (Token.rename ρ))
  | .variable s => .variable (s.rename ρ)
  | .statement hungry s => .statement hungry (s.rename ρ)
  | .sentence s => .sentence (s.rename ρ)
  | .firstClause o => .firstClause (o.map (Stmt.rename ρ))
  | .optional o => .optional (o.map (Expr.rename ρ))
  | .expression e => .expression (e.rename ρ)
  | .rank k e => .rank k (e.rename ρ)
  | .further k before after => .further k (before.rename ρ) (after.rename ρ)
  | .unary e => .unary (e.rename ρ)
  | .call e => .call (e.rename ρ)
  | .suffixes before after => .suffixes (before.rename ρ) (after.rename ρ)
  | .values es => .values (Expr.renameAll ρ es)
  | .expressions es => .expressions (Expr.renameAll ρ es)
  | .primary e => .primary (e.rename ρ)

section

variable (ρ : Renaming)

theorem Phrase.rename_operand (k : Rank) (e : Expr) :
    (Phrase.operand k e).rename ρ = Phrase.operand k (e.rename ρ) := by
  cases k <;> rfl

theorem Rank.rename_node (k : Rank) (left : Expr) (operator : Token) (right : Expr) :
    (k.node left operator right).rename ρ =
      k.node (left.rename ρ) (operator.rename ρ) (right.rename ρ) := by
  cases k <;> rfl

theorem spelledLoop_rename (initial : Option Stmt) (condition step : Option Expr) (body : Stmt) :
    (spelledLoop initial condition step body).rename ρ = spelledLoop (initial.map (Stmt.rename ρ))
      (condition.map (Expr.rename ρ)) (step.map (Expr.rename ρ)) (body.rename ρ) := by
  cases initial <;> cases condition <;> cases step <;> rfl

-- The grammar sees neither ids nor places.
theorem Derives.rename (h : Derives p w) : Derives (p.rename ρ) (w.map (Token.rename ρ)) := by
  induction h
  all_goals simp only [Phrase.rename, Stmt.renameAll, Stmt.rename, Routine.renameAll, Routine.rename, Expr.renameAll,
    Expr.rename, spelledLoop_rename, List.map_append, List.map_cons, List.map_nil, Option.map_some, Option.map_none]
  case noDeclarations => exact .noDeclarations
  case declarations first others => exact .declarations first others
  case classes opening named left _ right inner => exact .classes opening named left inner right
  case functionDeclaration opening _ inner => exact .functionDeclaration opening inner
  case variableDeclaration opening _ inner => exact .variableDeclaration opening inner
  case statement inner => exact .statement inner
  case noFunctions => exact .noFunctions
  case functions first others => exact .functions first others
  case function named _ inner => exact .function named inner
  case routine left _ right start _ stop names inner => exact .routine left names right start inner stop
  case noParameters => exact .noParameters
  case parameters few inner => exact .parameters inner (by rwa [List.length_map])
  case lastName named => exact .lastName named
  case names named comma _ others => exact .names named comma others
  case plainVariable named stop => exact .plainVariable named stop
  case filledVariable named equal _ stop initial => exact .filledVariable named equal initial stop
  case sentenceStatement inner => exact .sentenceStatement inner
  case forStatement opening left _ _ stop _ right _ first test last inner =>
    exact .forStatement opening left first test stop last right inner
  case ifStatement opening left _ right _ test inner => exact .ifStatement opening left test right inner
  case ifElseStatement opening left _ right _ middle _ test inner other =>
    exact .ifElseStatement opening left test right inner middle other
  case printStatement opening _ stop inner => exact .printStatement opening inner stop
  case returnStatement e _ _ _ opening _ stop inner =>
    cases e with
    | none => exact .returnStatement opening inner stop
    | some e => exact .returnStatement opening inner stop
  case whileStatement opening left _ right _ test inner => exact .whileStatement opening left test right inner
  case breakStatement opening stop => exact .breakStatement opening stop
  case blockStatement start _ stop inner => exact .blockStatement start inner stop
  case sentence stop inner => exact .sentence inner stop
  case noClause stop => exact .noClause stop
  case variableClause opening _ inner => exact .variableClause opening inner
  case sentenceClause inner => exact .sentenceClause inner
  case absent => exact .absent
  case present inner => exact .present inner
  case assignVariable named equal _ value => exact .assignVariable named equal value
  case assignProperty _ point named equal _ target value => exact .assignProperty target point named equal value
  case expression inner => exact .expression inner
  case rank first others => exact .rank (Phrase.rename_operand ρ _ _ ▸ first) others
  case noFurther => exact .noFurther
  case further spelled _ _ next others =>
    exact .further spelled (Phrase.rename_operand ρ _ _ ▸ next) (Rank.rename_node ρ _ _ _ _ ▸ others)
  case unary spelled _ inner => exact .unary spelled inner
  case plainUnary inner => exact .plainUnary inner
  case call first others => exact .call first others
  case noSuffixes => exact .noSuffixes
  case callSuffix left _ right _ inner others => exact .callSuffix left inner right others
  case getSuffix point named _ others => exact .getSuffix point named others
  case noValues => exact .noValues
  case values few inner => exact .values inner (by rwa [Expr.renameAll_eq_map, List.length_map])
  case lastExpression inner => exact .lastExpression inner
  case expressions _ comma _ inner others => exact .expressions inner comma others
  case number spelled => exact .number spelled
  case string spelled => exact .string spelled
  case true spelled => exact .true spelled
  case false spelled => exact .false spelled
  case nil spelled => exact .nil spelled
  case this spelled => exact .this spelled
  case name named => exact .name named
  case grouping left _ right inner => exact .grouping left inner right
  case lambda opening _ inner => exact .lambda opening inner

end

-- Declarations and others behind them.
theorem Derives.followed {ss more : List Stmt} {u v : List Token} (first : Derives (.declarations ss) u)
    (others : Derives (.declarations more) v) : Derives (.declarations (ss ++ more)) (u ++ v) := by
  induction ss generalizing u with
  | nil =>
    cases first
    exact others
  | cons s rest ih =>
    cases first with
    | declarations one rest =>
      rw [List.append_assoc]
      exact .declarations one (ih rest)

end ScopeScript
