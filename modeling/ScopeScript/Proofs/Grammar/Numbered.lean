import ScopeScript.Grammar.Read
import ScopeScript.Proofs.Grammar.Mention

namespace ScopeScript

-- The ids lie between two marks, and none comes twice.
def Numbered (low high : RefId) (ids : List RefId) : Prop :=
  ids.Nodup ∧ ∀ i ∈ ids, low ≤ i ∧ i < high

theorem Numbered.sublist (h : Numbered low high ids) (fewer : others.Sublist ids) :
    Numbered low high others :=
  ⟨h.1.sublist fewer, fun i member => h.2 i (fewer.subset member)⟩

theorem Numbered.perm (h : Numbered low high ids) (same : others.Perm ids) :
    Numbered low high others :=
  ⟨same.nodup_iff.mpr h.1, fun i member => h.2 i (same.mem_iff.mp member)⟩

theorem Numbered.widen (h : Numbered low high ids) (higher : high ≤ later) :
    Numbered low later ids :=
  ⟨h.1, fun i member => ⟨(h.2 i member).1, Nat.lt_of_lt_of_le (h.2 i member).2 higher⟩⟩

theorem Numbered.add_next (h : Numbered low high ids) (above : low ≤ high) :
    Numbered low (high + 1) (ids ++ [high]) := by
  refine ⟨List.nodup_append.mpr ⟨h.1, by simp, ?_⟩, ?_⟩
  · intro i used j next same
    have bound := (h.2 i used).2
    rw [same, List.mem_singleton.mp next] at bound
    exact Nat.lt_irrefl _ bound
  · intro i member
    rcases List.mem_append.mp member with used | next
    · exact ⟨(h.2 i used).1, Nat.lt_succ_of_lt (h.2 i used).2⟩
    · rw [List.mem_singleton.mp next]
      exact ⟨above, Nat.lt_succ_self _⟩

-- From some ids in use below the counter, a reader comes to others below it. The counter never
-- goes back.
def Reading.Numbers (used : List RefId) (x : Reading α) (ids : α → List RefId) : Prop :=
  ∀ low c, low ≤ c.next → Numbered low c.next used → match x c with
    | .ok a after => c.next ≤ after.next ∧ Numbered low after.next (ids a)
    | .error _ after => c.next ≤ after.next

namespace Reading.Numbers

variable {x : Reading α} {f : α → Reading β} {used : List RefId} {ids : α → List RefId}
  {goal : β → List RefId}

theorem pure {a : α} (h : (ids a).Sublist used) : Numbers used (Pure.pure a) ids :=
  fun _ _ _ known => ⟨Nat.le_refl _, known.sublist h⟩

theorem rearranged {a : α} (h : (ids a).Perm used) : Numbers used (Pure.pure a) ids :=
  fun _ _ _ known => ⟨Nat.le_refl _, known.perm h⟩

theorem fail (cause : SyntaxCause) : Numbers used (Reading.fail cause) ids :=
  fun _ _ _ _ => Nat.le_refl _

theorem bind (hx : Numbers used x ids) (hf : ∀ a, Numbers (ids a) (f a) goal) :
    Numbers used (x >>= f) goal := by
  intro low c above known
  have first := hx low c above known
  show match EStateM.bind x f c with
    | .ok b after => c.next ≤ after.next ∧ Numbered low after.next (goal b)
    | .error _ after => c.next ≤ after.next
  unfold EStateM.bind
  cases hc : x c with
  | error fault after => simpa only [hc] using first
  | ok a middle =>
    simp only [hc] at first
    have second := hf a low middle (Nat.le_trans above first.1) first.2
    cases hm : f a middle with
    | error fault after =>
      simp only [hm] at second ⊢
      exact Nat.le_trans first.1 second
    | ok b after =>
      simp only [hm] at second ⊢
      exact ⟨Nat.le_trans first.1 second.1, second.2⟩

theorem map {g : α → β} (hx : Numbers used x ids) (h : ∀ a, (goal (g a)).Sublist (ids a)) :
    Numbers used (g <$> x) goal := by
  intro low c above known
  have result := hx low c above known
  show match EStateM.map g x c with
    | .ok b after => c.next ≤ after.next ∧ Numbered low after.next (goal b)
    | .error _ after => c.next ≤ after.next
  unfold EStateM.map
  cases hc : x c with
  | error fault after => simpa only [hc] using result
  | ok a after =>
    simp only [hc] at result ⊢
    exact ⟨result.1, result.2.sublist (h a)⟩

theorem ite {p : Prop} [Decidable p] {y : Reading α} (yes : Numbers used x ids)
    (no : Numbers used y ids) : Numbers used (if p then x else y) ids := by
  split
  · exact yes
  · exact no

theorem fresh : Numbers used Reading.fresh fun i => used ++ [i] :=
  fun _ _ above known => ⟨Nat.le_succ _, known.add_next above⟩

-- Readers that hand out no id.
theorem still (same : ∀ c, match x c with
      | .ok _ after => after.next = c.next
      | .error _ after => after.next = c.next) : Numbers used x fun _ => used := by
  intro low c above known
  have kept := same c
  cases hc : x c with
  | error fault after =>
    simp only [hc] at kept ⊢
    exact Nat.le_of_eq kept.symm
  | ok a after =>
    simp only [hc] at kept ⊢
    exact ⟨Nat.le_of_eq kept.symm, kept ▸ known⟩

theorem look : Numbers used Reading.look fun _ => used := still fun _ => rfl

theorem atEnd : Numbers used Reading.atEnd fun _ => used := still fun _ => rfl

theorem sees (test : Token → Bool) : Numbers used (Reading.sees test) fun _ => used :=
  still fun _ => rfl

theorem complain (cause : SyntaxCause) (t : Token) :
    Numbers used (Reading.complain cause t) fun _ => used :=
  still fun _ => rfl

theorem declaresFunction : Numbers used Reading.declaresFunction fun _ => used := by
  refine still fun c => ?_
  unfold Reading.declaresFunction
  split
  · rename_i h
    split at h <;> cases h <;> rfl
  · rename_i h
    split at h <;> cases h

theorem accept? (test : Token → Bool) : Numbers used (Reading.accept? test) fun _ => used := by
  refine still fun c => ?_
  unfold Reading.accept?
  cases ahead : c.ahead with
  | nil => simp
  | cons t rest => cases passed : test t <;> simp [passed]

theorem acceptMark (m : Mark) : Numbers used (Reading.acceptMark m) fun _ => used :=
  bind (accept? _) fun _ => pure (.refl _)

theorem acceptKeyword (k : Keyword) : Numbers used (Reading.acceptKeyword k) fun _ => used :=
  bind (accept? _) fun _ => pure (.refl _)

theorem expectMark (m : Mark) (slot : Slot) : Numbers used (Reading.expectMark m slot) fun _ => used := by
  refine bind (accept? _) ?_
  rintro (_ | t)
  · exact fail _
  · exact pure (.refl _)

theorem expectName (what : Named) : Numbers used (Reading.expectName what) fun _ => used := by
  refine bind (accept? _) ?_
  rintro (_ | t)
  · exact fail _
  · exact pure (.refl _)

theorem onToken (test : Token → Bool) {y : Token → Reading β} {z : Reading β}
    (yes : ∀ t, Numbers used (y t) goal) (no : Numbers used z goal) :
    Numbers used (Reading.accept? test >>= fun o => match o with | some t => y t | none => z) goal := by
  refine bind (accept? test) ?_
  rintro (_ | t)
  · exact no
  · exact yes t

theorem onMark (m : Mark) {y z : Reading β} (yes : Numbers used y goal) (no : Numbers used z goal) :
    Numbers used (Reading.acceptMark m >>= fun b => if b = true then y else z) goal :=
  bind (acceptMark m) fun _ => ite yes no

theorem onKeyword (k : Keyword) {y z : Reading β} (yes : Numbers used y goal)
    (no : Numbers used z goal) :
    Numbers used (Reading.acceptKeyword k >>= fun b => if b = true then y else z) goal :=
  bind (acceptKeyword k) fun _ => ite yes no

theorem mark (m : Mark) (slot : Slot) {y : Token → Reading β} (hy : ∀ t, Numbers used (y t) goal) :
    Numbers used (Reading.expectMark m slot >>= y) goal :=
  bind (expectMark m slot) hy

theorem name (what : Named) {y : Token → Reading β} (hy : ∀ t, Numbers used (y t) goal) :
    Numbers used (Reading.expectName what >>= y) goal :=
  bind (expectName what) hy

theorem seen (test : Token → Bool) {y z : Reading β} (yes : Numbers used y goal)
    (no : Numbers used z goal) :
    Numbers used (Reading.sees test >>= fun b => if b = true then y else z) goal :=
  bind (sees test) fun _ => ite yes no

-- The ids of what was given up are not used again.
theorem recovering (hx : Numbers used x ids) :
    Numbers used (Reading.recovering x) fun o => o.elim used ids := by
  intro low c above known
  have result := hx low c above known
  unfold Reading.recovering
  cases hc : x c with
  | ok a after =>
    simp only [hc] at result ⊢
    exact result
  | error fault after =>
    simp only [hc] at result ⊢
    have same : (after.report fault).recover.next = after.next := by
      unfold Cursor.recover
      split <;> rfl
    rw [same]
    exact ⟨result, known.widen result⟩

end Reading.Numbers

open Reading

def Level.Plain (level : Level) : Prop :=
  ∀ left operator right, (level.join left operator right).mentions = left.mentions ++ right.mentions

theorem levels_plain : ∀ level ∈ levels, level.Plain := by
  intro level member
  simp only [levels, List.mem_cons, List.not_mem_nil, or_false] at member
  rcases member with rfl | rfl | rfl | rfl | rfl | rfl <;> exact fun _ _ _ => rfl

-- What every reader does to the ids in use.
structure ReadersNumber (fuel : Nat) : Prop where
  expression : ∀ used, Numbers used (expression fuel) fun e => used ++ refsOf e.mentions
  operand : ∀ used list, (∀ level ∈ list, level.Plain) →
    Numbers used (operand fuel list) fun e => used ++ refsOf e.mentions
  operators : ∀ used level tighter left, level.Plain → (∀ level ∈ tighter, level.Plain) →
    Numbers (used ++ refsOf left.mentions) (operators fuel level tighter left)
      fun e => used ++ refsOf e.mentions
  unary : ∀ used, Numbers used (unary fuel) fun e => used ++ refsOf e.mentions
  suffixes : ∀ used before, Numbers (used ++ refsOf before.mentions) (suffixes fuel before)
    fun e => used ++ refsOf e.mentions
  arguments : ∀ used already, Numbers used (arguments fuel already)
    fun es => used ++ refsOf (Expr.mentionsAll es)
  primary : ∀ used, Numbers used (primary fuel) fun e => used ++ refsOf e.mentions
  routine : ∀ used head first second, Numbers used (routine fuel head first second)
    fun r => used ++ refsOf r.mentions
  block : ∀ used, Numbers used (block fuel) fun ss => used ++ refsOf (Stmt.mentionsAll ss)
  declaration : ∀ used, Numbers used (declaration fuel) fun s => used ++ refsOf s.mentions
  methods : ∀ used, Numbers used (methods fuel) fun rs => used ++ refsOf (Routine.mentionsAll rs)
  variableRest : ∀ used, Numbers used (variableRest fuel) fun s => used ++ refsOf s.mentions
  statement : ∀ used, Numbers used (statement fuel) fun s => used ++ refsOf s.mentions
  forStatement : ∀ used, Numbers used (forStatement fuel) fun s => used ++ refsOf s.mentions
  firstClause : ∀ used, Numbers used (firstClause fuel)
    fun o => used ++ refsOf (Stmt.mentionsAll o.toList)
  expressionBefore : ∀ used m, Numbers used (expressionBefore fuel m)
    fun o => used ++ refsOf (Expr.mentionsAll o.toList)
  expressionStatement : ∀ used, Numbers used (expressionStatement fuel)
    fun s => used ++ refsOf s.mentions

variable {fuel : Nat}

theorem assignTo_numbers (used : List RefId) (equals : Token) (value target : Expr) :
    Numbers (used ++ refsOf target.mentions ++ refsOf value.mentions) (assignTo equals value target)
      fun e => used ++ refsOf e.mentions := by
  unfold assignTo
  split
  · refine .bind .fresh fun i => .pure ?_
    simp [Expr.mentions]
  · exact .pure (by simp [Expr.mentions])
  · exact .bind (.complain _ _) fun _ => .pure (List.sublist_append_left _ _)

theorem expression_numbers (ih : ReadersNumber fuel) (used : List RefId) :
    Numbers used (expression (fuel + 1)) fun e => used ++ refsOf e.mentions := by
  unfold expression
  refine .bind (ih.operand used levels levels_plain) fun target => .bind (.accept? _) ?_
  rintro (_ | equals)
  · exact .pure (.refl _)
  · exact .bind (ih.expression _) fun value => assignTo_numbers used equals value target

theorem operand_numbers (ih : ReadersNumber fuel) (used : List RefId) (list : List Level)
    (plain : ∀ level ∈ list, level.Plain) :
    Numbers used (operand (fuel + 1) list) fun e => used ++ refsOf e.mentions := by
  cases list with
  | nil =>
    unfold operand
    exact ih.unary used
  | cons level tighter =>
    have others : ∀ level ∈ tighter, level.Plain := fun l m => plain l (List.mem_cons_of_mem _ m)
    unfold operand
    refine .bind (ih.operand used tighter others) fun left => ?_
    exact ih.operators used level tighter left (plain level (List.mem_cons_self ..)) others

theorem operators_numbers (ih : ReadersNumber fuel) (used : List RefId) (level : Level)
    (tighter : List Level) (left : Expr) (plain : level.Plain)
    (others : ∀ level ∈ tighter, level.Plain) :
    Numbers (used ++ refsOf left.mentions) (operators (fuel + 1) level tighter left)
      fun e => used ++ refsOf e.mentions := by
  unfold operators
  refine .bind (.accept? _) ?_
  rintro (_ | operator)
  · exact .pure (.refl _)
  · refine .bind (ih.operand _ tighter others) fun right => ?_
    have joined := ih.operators used level tighter (level.join left operator right) plain others
    rwa [plain, refsOf_append, ← List.append_assoc] at joined

theorem unary_numbers (ih : ReadersNumber fuel) (used : List RefId) :
    Numbers used (unary (fuel + 1)) fun e => used ++ refsOf e.mentions := by
  unfold unary
  refine .onToken _ (fun operator => .bind (ih.unary used) fun e => .pure (.refl _)) ?_
  exact .bind (ih.primary used) fun first => ih.suffixes used first

theorem suffixes_numbers (ih : ReadersNumber fuel) (used : List RefId) (before : Expr) :
    Numbers (used ++ refsOf before.mentions) (suffixes (fuel + 1) before)
      fun e => used ++ refsOf e.mentions := by
  unfold suffixes
  have closing : ∀ es, Numbers (used ++ refsOf before.mentions ++ refsOf (Expr.mentionsAll es))
      (expectMark .rightParen .argumentsEnd >>= fun close => suffixes fuel (.call before close es))
      fun e => used ++ refsOf e.mentions := by
    intro es
    refine .mark _ _ fun close => ?_
    have called := ih.suffixes used (.call before close es)
    rwa [Expr.mentions, refsOf_append, ← List.append_assoc] at called
  refine .onMark _ (.seen _ ?_ ?_) (.onMark _ ?_ (.pure (.refl _)))
  · have empty := closing []
    rwa [Expr.mentionsAll, refsOf_nil, List.append_nil] at empty
  · exact .bind (ih.arguments _ 0) closing
  · exact .name _ fun name => ih.suffixes used (.get before name)

theorem arguments_numbers (ih : ReadersNumber fuel) (used : List RefId) (already : Nat) :
    Numbers used (arguments (fuel + 1) already) fun es => used ++ refsOf (Expr.mentionsAll es) := by
  unfold arguments
  have entries : Numbers used (do
      let value ← expression fuel
      if ← acceptMark .comma then return value :: (← arguments fuel (already + 1)) else return [value])
      fun es => used ++ refsOf (Expr.mentionsAll es) := by
    refine .bind (ih.expression used) fun e => .onMark _ ?_ (.pure ?_)
    · refine .bind (ih.arguments _ _) fun es => .pure ?_
      simp [Expr.mentionsAll]
    · simp [Expr.mentionsAll]
  exact .ite (.bind .look fun t => .bind (.complain _ _) fun _ => entries) entries

theorem parameterNames_numbers (fuel : Nat) (used : List RefId) (already : Nat) :
    Numbers used (parameterNames fuel already) fun _ => used := by
  induction fuel generalizing already with
  | zero => exact .fail _
  | succ fuel ih =>
    unfold parameterNames
    have entries : Numbers used (do
        let name ← expectName .parameter
        if ← acceptMark .comma then return name :: (← parameterNames fuel (already + 1)) else return [name])
        fun _ => used :=
      .name _ fun name => .onMark _ (.bind (ih _) fun ps => .pure (.refl _)) (.pure (.refl _))
    exact .ite (.bind .look fun t => .bind (.complain _ _) fun _ => entries) entries

theorem parameterList_numbers (used : List RefId) :
    Numbers used (parameterList fuel) fun _ => used := by
  unfold parameterList
  refine .seen _ (.mark _ _ fun close => .pure (.refl _)) ?_
  exact .bind (parameterNames_numbers fuel used 0) fun ps => .mark _ _ fun close => .pure (.refl _)

theorem routine_numbers (ih : ReadersNumber fuel) (used : List RefId) (head : Token)
    (first second : Slot) :
    Numbers used (routine (fuel + 1) head first second) fun r => used ++ refsOf r.mentions := by
  unfold routine
  refine .mark _ _ fun _ => .bind (parameterList_numbers used) fun ps => .mark _ _ fun _ => ?_
  refine .bind (ih.block used) fun body => .pure ?_
  simp [Routine.mentions]

theorem primary_numbers (ih : ReadersNumber fuel) (used : List RefId) :
    Numbers used (primary (fuel + 1)) fun e => used ++ refsOf e.mentions := by
  unfold primary
  refine .onToken _ (fun t => .pure ?_) <| .onToken _ (fun t => ?_) <| .onToken _ (fun t => ?_) <|
    .onToken _ (fun t => ?_) <| .onMark _ ?_ (.fail _)
  · simp [Expr.mentions]
  · exact .bind .fresh fun i => .pure (.refl _)
  · exact .bind .fresh fun i => .pure (.refl _)
  · exact .bind (ih.routine used _ _ _) fun r => .pure (.refl _)
  · exact .bind (ih.expression used) fun e => .mark _ _ fun close => .pure (.refl _)

-- The ids of a statement that was read, or of none, and of those behind it.
theorem listed_numbers (used : List RefId) {reader : Reading (List Stmt)} (first : Option Stmt)
    (later : ∀ ids, Numbers ids reader fun ss => ids ++ refsOf (Stmt.mentionsAll ss)) :
    Numbers (first.elim used fun s => used ++ refsOf s.mentions)
      (do return first.toList ++ (← reader)) fun ss => used ++ refsOf (Stmt.mentionsAll ss) := by
  refine .bind (later _) fun ss => .pure ?_
  cases first <;> simp [Stmt.mentionsAll]

theorem block_numbers (ih : ReadersNumber fuel) (used : List RefId) :
    Numbers used (block (fuel + 1)) fun ss => used ++ refsOf (Stmt.mentionsAll ss) := by
  unfold block
  refine .bind (.sees _) fun _ => .bind .atEnd fun _ => .ite (.mark _ _ fun _ => .pure ?_) ?_
  · simp [Stmt.mentionsAll]
  · exact .bind (.recovering (ih.declaration used)) fun first => listed_numbers used first ih.block

theorem methods_numbers (ih : ReadersNumber fuel) (used : List RefId) :
    Numbers used (methods (fuel + 1)) fun rs => used ++ refsOf (Routine.mentionsAll rs) := by
  unfold methods
  refine .bind (.sees _) fun _ => .bind .atEnd fun _ => .ite (.pure ?_) (.name _ fun name => ?_)
  · simp [Routine.mentionsAll]
  · refine .bind (ih.routine used _ _ _) fun r => .bind (ih.methods _) fun rs => .pure ?_
    simp [Routine.mentionsAll]

theorem declaration_numbers (ih : ReadersNumber fuel) (used : List RefId) :
    Numbers used (declaration (fuel + 1)) fun s => used ++ refsOf s.mentions := by
  unfold declaration
  refine .onKeyword _ ?_ (.bind .declaresFunction fun _ => .ite ?_ (.onKeyword _ ?_ ?_))
  · refine .name _ fun name => .mark _ _ fun _ => .bind (ih.methods used) fun rs => .mark _ _ fun _ => ?_
    exact .pure (.refl _)
  · refine .bind (.acceptKeyword _) fun _ => .name _ fun name => ?_
    exact .bind (ih.routine used _ _ _) fun r => .pure (.refl _)
  · exact ih.variableRest used
  · exact ih.statement used

theorem variableRest_numbers (ih : ReadersNumber fuel) (used : List RefId) :
    Numbers used (variableRest (fuel + 1)) fun s => used ++ refsOf s.mentions := by
  unfold variableRest
  refine .name _ fun name => .onMark _ ?_ (.mark _ _ fun _ => .pure (by simp [Stmt.mentions]))
  have filled : Numbers used (some <$> expression fuel)
      fun o => used ++ refsOf (Expr.mentionsAll o.toList) :=
    .map (ih.expression used) fun e => by simp [Expr.mentionsAll]
  refine .bind filled fun o => .mark _ _ fun _ => .pure ?_
  cases o <;> simp [Stmt.mentions, Expr.mentionsAll]

theorem expressionStatement_numbers (ih : ReadersNumber fuel) (used : List RefId) :
    Numbers used (expressionStatement (fuel + 1)) fun s => used ++ refsOf s.mentions := by
  unfold expressionStatement
  exact .bind (ih.expression used) fun e => .mark _ _ fun _ => .pure (.refl _)

theorem expressionBefore_numbers (ih : ReadersNumber fuel) (used : List RefId) (m : Mark) :
    Numbers used (expressionBefore (fuel + 1) m)
      fun o => used ++ refsOf (Expr.mentionsAll o.toList) := by
  unfold expressionBefore
  refine .seen _ (.pure (by simp [Expr.mentionsAll])) (.map (ih.expression used) fun e => ?_)
  simp [Expr.mentionsAll]

theorem firstClause_numbers (ih : ReadersNumber fuel) (used : List RefId) :
    Numbers used (firstClause (fuel + 1)) fun o => used ++ refsOf (Stmt.mentionsAll o.toList) := by
  unfold firstClause
  refine .onMark _ (.pure (by simp [Stmt.mentionsAll])) (.onKeyword _ ?_ ?_)
  · exact .bind (ih.variableRest used) fun s => .pure (by simp [Stmt.mentionsAll])
  · exact .bind (ih.expressionStatement used) fun s => .pure (by simp [Stmt.mentionsAll])

-- The tree has the last clause of a loop behind the body, the source has it in front.
theorem forLoop_refs (initial : Option Stmt) (condition step : Option Expr) (body : Stmt) :
    (refsOf (forLoop initial condition step body).mentions).Perm
      (refsOf (Stmt.mentionsAll initial.toList) ++ refsOf (Expr.mentionsAll condition.toList) ++
        refsOf (Expr.mentionsAll step.toList) ++ refsOf body.mentions) := by
  cases initial <;> cases condition <;> cases step <;>
    simp [forLoop, Stmt.mentions, Stmt.mentionsAll, Expr.mentions, Expr.mentionsAll,
      List.perm_append_left_iff, List.perm_append_comm]

theorem forStatement_numbers (ih : ReadersNumber fuel) (used : List RefId) :
    Numbers used (forStatement (fuel + 1)) fun s => used ++ refsOf s.mentions := by
  unfold forStatement
  refine .mark _ _ fun _ => .bind (ih.firstClause used) fun initial => ?_
  refine .bind (ih.expressionBefore _ _) fun condition => .mark _ _ fun _ => ?_
  refine .bind (ih.expressionBefore _ _) fun step => .mark _ _ fun _ => ?_
  refine .bind (ih.statement _) fun body => .rearranged ?_
  simpa using (forLoop_refs initial condition step body).append_left used

theorem statement_numbers (ih : ReadersNumber fuel) (used : List RefId) :
    Numbers used (statement (fuel + 1)) fun s => used ++ refsOf s.mentions := by
  unfold statement
  refine .onKeyword _ ?_ <| .onKeyword _ ?_ <| .onKeyword _ ?_ <| .onToken _ (fun t => ?_) <|
    .onToken _ (fun t => ?_) <| .onMark _ ?_ <| .onToken _ (fun t => ?_) ?_
  · exact ih.forStatement used
  · refine .mark _ _ fun _ => .bind (ih.expression used) fun condition => .mark _ _ fun _ => ?_
    refine .bind (ih.statement _) fun yes => .onKeyword _ ?_ (.pure (by simp [Stmt.mentions]))
    have no : ∀ ids, Numbers ids (some <$> statement fuel)
        fun o => ids ++ refsOf (Stmt.mentionsAll o.toList) := fun ids =>
      .map (ih.statement ids) fun s => by simp [Stmt.mentionsAll]
    refine .bind (no _) fun o => .pure ?_
    cases o <;> simp [Stmt.mentions, Stmt.mentionsAll]
  · refine .mark _ _ fun _ => .bind (ih.expression used) fun condition => .mark _ _ fun _ => ?_
    exact .bind (ih.statement _) fun body => .pure (by simp [Stmt.mentions])
  · refine .bind (ih.expressionBefore used _) fun o => .mark _ _ fun _ => .pure ?_
    cases o <;> simp [Stmt.mentions, Expr.mentionsAll]
  · exact .mark _ _ fun _ => .pure (by simp [Stmt.mentions])
  · exact .bind (ih.block used) fun body => .pure (.refl _)
  · exact .bind (ih.expression used) fun e => .mark _ _ fun _ => .pure (.refl _)
  · exact ih.expressionStatement used

theorem readers_number (fuel : Nat) : ReadersNumber fuel := by
  induction fuel with
  | zero =>
    constructor
    all_goals intros; exact .fail _
  | succ fuel ih =>
    exact {
      expression := expression_numbers ih
      operand := operand_numbers ih
      operators := operators_numbers ih
      unary := unary_numbers ih
      suffixes := suffixes_numbers ih
      arguments := arguments_numbers ih
      primary := primary_numbers ih
      routine := routine_numbers ih
      block := block_numbers ih
      declaration := declaration_numbers ih
      methods := methods_numbers ih
      variableRest := variableRest_numbers ih
      statement := statement_numbers ih
      forStatement := forStatement_numbers ih
      firstClause := firstClause_numbers ih
      expressionBefore := expressionBefore_numbers ih
      expressionStatement := expressionStatement_numbers ih }

theorem declarations_numbers (fuel : Nat) (used : List RefId) :
    Numbers used (declarations fuel) fun ss => used ++ refsOf (Stmt.mentionsAll ss) := by
  induction fuel generalizing used with
  | zero => exact .fail _
  | succ fuel ih =>
    unfold declarations
    refine .bind .atEnd fun _ => .ite (.pure (by simp [Stmt.mentionsAll])) ?_
    exact .bind (.recovering ((readers_number fuel).declaration used)) fun first =>
      listed_numbers used first ih

theorem wholeExpression_numbers (fuel : Nat) (used : List RefId) :
    Numbers used (wholeExpression fuel) fun e => used ++ refsOf e.mentions := by
  unfold wholeExpression
  exact .bind ((readers_number fuel).expression used) fun e => .bind .atEnd fun _ =>
    .ite (.pure (.refl _)) (.fail _)

theorem finish_numbers {x : Reading α} {ids : α → List RefId} (hx : Numbers [] x ids) (c : Cursor) :
    c.next ≤ (finish (x c)).2 ∧
      ∀ a, (finish (x c)).1 = .ok a → Numbered c.next (finish (x c)).2 (ids a) := by
  have known := hx c.next c (Nat.le_refl _) ⟨.nil, nofun⟩
  unfold finish
  cases hc : x c with
  | error fault after =>
    simp only [hc] at known
    exact ⟨known, nofun⟩
  | ok a after =>
    simp only [hc] at known
    dsimp only
    split
    · exact ⟨known.1, by rintro b ⟨⟩; exact known.2⟩
    · exact ⟨known.1, nofun⟩

-- References of one reading have ids of their own, from where the counter stood to where it stands.

theorem readProgram_numbered (tokens : List Token) (next : RefId) :
    next ≤ (readProgram tokens next).2 ∧ ∀ stmts, (readProgram tokens next).1 = .ok stmts →
      Numbered next (readProgram tokens next).2 (refsOf (Stmt.mentionsAll stmts)) :=
  finish_numbers (declarations_numbers _ []) (.ofTokens tokens next)

theorem readExpression_numbered (tokens : List Token) (next : RefId) :
    next ≤ (readExpression tokens next).2 ∧ ∀ e, (readExpression tokens next).1 = .ok e →
      Numbered next (readExpression tokens next).2 (refsOf e.mentions) :=
  finish_numbers (wholeExpression_numbers _ []) (.ofTokens tokens next)

end ScopeScript
