import ScopeScript.Grammar.Read

namespace ScopeScript

-- Every token in a tree is a known one.
mutual

def Expr.Cites (known : Token → Prop) : Expr → Prop
  | .literal _ => True
  | .grouping inner => inner.Cites known
  | .unary operator operand => known operator ∧ operand.Cites known
  | .binary left operator right => left.Cites known ∧ known operator ∧ right.Cites known
  | .logical left operator right => left.Cites known ∧ known operator ∧ right.Cites known
  | .variable _ name => known name
  | .assign _ name value => known name ∧ value.Cites known
  | .call callee close arguments => callee.Cites known ∧ known close ∧ Expr.CitesAll known arguments
  | .lambda routine => routine.Cites known
  | .get object name => object.Cites known ∧ known name
  | .set object name value => (object.Cites known ∧ known name) ∧ value.Cites known
  | .this _ keyword => known keyword

def Expr.CitesAll (known : Token → Prop) : List Expr → Prop
  | [] => True
  | e :: rest => e.Cites known ∧ Expr.CitesAll known rest

def Stmt.Cites (known : Token → Prop) : Stmt → Prop
  | .expression value => value.Cites known
  | .print keyword value => known keyword ∧ value.Cites known
  | .var name none => known name
  | .var name (some initial) => known name ∧ initial.Cites known
  | .block body => Stmt.CitesAll known body
  | .branch condition yes none => condition.Cites known ∧ yes.Cites known
  | .branch condition yes (some no) => condition.Cites known ∧ yes.Cites known ∧ no.Cites known
  | .loop condition body => condition.Cites known ∧ body.Cites known
  | .leave keyword => known keyword
  | .function routine => routine.Cites known
  | .giveBack keyword none => known keyword
  | .giveBack keyword (some value) => known keyword ∧ value.Cites known
  | .classes name methods => known name ∧ Routine.CitesAll known methods

def Stmt.CitesAll (known : Token → Prop) : List Stmt → Prop
  | [] => True
  | s :: rest => s.Cites known ∧ Stmt.CitesAll known rest

def Routine.Cites (known : Token → Prop) : Routine → Prop
  | .mk head parameters body => known head ∧ (∀ t ∈ parameters, known t) ∧ Stmt.CitesAll known body

def Routine.CitesAll (known : Token → Prop) : List Routine → Prop
  | [] => True
  | r :: rest => r.Cites known ∧ Routine.CitesAll known rest

end

theorem Routine.citesAll_iff (known : Token → Prop) (rs : List Routine) :
    Routine.CitesAll known rs ↔ ∀ r ∈ rs, r.Cites known := by
  induction rs with
  | nil => simp [Routine.CitesAll]
  | cons r rest ih => simp [Routine.CitesAll, ih]

-- Known tokens are all that a reader can take or blame.
structure Cursor.Cites (known : Token → Prop) (c : Cursor) : Prop where
  ahead : ∀ t ∈ c.ahead, known t
  stop : known c.stop
  faults : ∀ f ∈ c.faults, known f.token

-- From known tokens a reader comes to known ones, however it ends.
def Reading.Cites (known : Token → Prop) (x : Reading α) (good : α → Prop) : Prop :=
  ∀ c, c.Cites known → match x c with
    | .ok a after => after.Cites known ∧ good a
    | .error f after => after.Cites known ∧ known f.token

variable {known : Token → Prop}

namespace Cursor.Cites

variable {c : Cursor}

theorem peek (h : c.Cites known) : known c.peek := by
  unfold Cursor.peek
  cases ahead : c.ahead with
  | nil => exact h.stop
  | cons t rest => exact h.ahead t (by simp [ahead])

theorem report (h : c.Cites known) {f : SyntaxFault} (blamed : known f.token) : (c.report f).Cites known where
  ahead := h.ahead
  stop := h.stop
  faults g member := by
    rcases List.mem_append.mp member with old | new
    · exact h.faults g old
    · rwa [List.mem_singleton.mp new]

theorem drop (h : c.Cites known) {rest : List Token} (fewer : ∀ t ∈ rest, t ∈ c.ahead) :
    Cites known { c with ahead := rest } :=
  ⟨fun t member => h.ahead t (fewer t member), h.stop, h.faults⟩

end Cursor.Cites

theorem Cursor.skip_subset (last : Token) (rest : List Token) : ∀ t ∈ skip last rest, t ∈ rest := by
  induction rest generalizing last with
  | nil => exact fun t member => member
  | cons u rest ih =>
    unfold skip
    split
    · exact fun t member => member
    · exact fun t member => List.mem_cons_of_mem u (ih u t member)

theorem Cursor.Cites.recover {c : Cursor} (h : c.Cites known) : c.recover.Cites known := by
  unfold Cursor.recover
  split
  · exact h
  · rename_i t rest ahead
    exact h.drop fun u member => ahead ▸ List.mem_cons_of_mem t (skip_subset t rest u member)

namespace Reading.Cites

variable {x : Reading α} {f : α → Reading β} {good : α → Prop} {goal : β → Prop}

theorem pure {a : α} (h : good a) : Cites known (Pure.pure a) good := fun _ cites => ⟨cites, h⟩

theorem fail (cause : SyntaxCause) : Cites known (Reading.fail cause) good := fun _ cites => ⟨cites, cites.peek⟩

theorem bind (hx : Cites known x good) (hf : ∀ a, good a → Cites known (f a) goal) : Cites known (x >>= f) goal := by
  intro c cites
  have first := hx c cites
  show match EStateM.bind x f c with
    | .ok b after => after.Cites known ∧ goal b
    | .error fault after => after.Cites known ∧ known fault.token
  unfold EStateM.bind
  cases read : x c with
  | error fault after => simpa only [read] using first
  | ok a middle =>
    simp only [read] at first
    exact hf a first.2 middle first.1

theorem map {g : α → β} (hx : Cites known x good) (h : ∀ a, good a → goal (g a)) : Cites known (g <$> x) goal := by
  intro c cites
  have given := hx c cites
  show match EStateM.map g x c with
    | .ok b after => after.Cites known ∧ goal b
    | .error fault after => after.Cites known ∧ known fault.token
  unfold EStateM.map
  cases read : x c with
  | error fault after => simpa only [read] using given
  | ok a after =>
    simp only [read] at given
    exact ⟨given.1, h a given.2⟩

theorem ite {p : Prop} [Decidable p] {y : Reading α} (yes : Cites known x good) (no : Cites known y good) :
    Cites known (if p then x else y) good := by
  split
  · exact yes
  · exact no

-- A reader that only looks.
theorem peeking (g : Cursor → α) : Cites known (fun c => .ok (g c) c) fun _ => True := fun _ cites => ⟨cites, trivial⟩

theorem look : Cites known Reading.look known := fun _ cites => ⟨cites, cites.peek⟩

theorem atEnd : Cites known Reading.atEnd fun _ => True := peeking _

theorem sees (test : Token → Bool) : Cites known (Reading.sees test) fun _ => True := peeking _

theorem fresh : Cites known Reading.fresh fun _ => True :=
  fun _ cites => ⟨⟨cites.ahead, cites.stop, cites.faults⟩, trivial⟩

theorem complain (cause : SyntaxCause) {t : Token} (blamed : known t) :
    Cites known (Reading.complain cause t) fun _ => True :=
  fun _ cites => ⟨cites.report blamed, trivial⟩

theorem declaresFunction : Cites known Reading.declaresFunction fun _ => True := by
  intro c cites
  unfold Reading.declaresFunction
  split
  · rename_i h
    split at h <;> cases h <;> exact ⟨cites, trivial⟩
  · rename_i h
    split at h <;> cases h

theorem accept? (test : Token → Bool) : Cites known (Reading.accept? test) fun o => ∀ t ∈ o, known t := by
  intro c cites
  unfold Reading.accept?
  cases ahead : c.ahead with
  | nil => exact ⟨cites, fun t absent => nomatch absent⟩
  | cons t rest =>
    dsimp only
    by_cases passed : test t = true
    · rw [if_pos passed]
      refine ⟨cites.drop fun u member => ahead ▸ List.mem_cons_of_mem t member, fun u taken => ?_⟩
      cases taken
      exact cites.ahead t (by simp [ahead])
    · rw [if_neg passed]
      exact ⟨cites, fun t absent => nomatch absent⟩

theorem acceptMark (m : Mark) : Cites known (Reading.acceptMark m) fun _ => True :=
  bind (accept? _) fun _ _ => pure trivial

theorem acceptKeyword (k : Keyword) : Cites known (Reading.acceptKeyword k) fun _ => True :=
  bind (accept? _) fun _ _ => pure trivial

theorem onToken (test : Token → Bool) {y : Token → Reading β} {z : Reading β}
    (yes : ∀ t, known t → Cites known (y t) goal) (no : Cites known z goal) :
    Cites known (Reading.accept? test >>= fun o => match o with | some t => y t | none => z) goal := by
  refine bind (accept? test) ?_
  rintro (_ | t) taken
  · exact no
  · exact yes t (taken t rfl)

theorem expectMark (m : Mark) (slot : Slot) : Cites known (Reading.expectMark m slot) known :=
  onToken _ (fun _ taken => pure taken) (fail _)

theorem expectName (what : Named) : Cites known (Reading.expectName what) known :=
  onToken _ (fun _ taken => pure taken) (fail _)

theorem onMark (m : Mark) {y z : Reading β} (yes : Cites known y goal) (no : Cites known z goal) :
    Cites known (Reading.acceptMark m >>= fun b => if b = true then y else z) goal :=
  bind (acceptMark m) fun _ _ => ite yes no

theorem onKeyword (k : Keyword) {y z : Reading β} (yes : Cites known y goal) (no : Cites known z goal) :
    Cites known (Reading.acceptKeyword k >>= fun b => if b = true then y else z) goal :=
  bind (acceptKeyword k) fun _ _ => ite yes no

theorem mark (m : Mark) (slot : Slot) {y : Token → Reading β} (hy : ∀ t, known t → Cites known (y t) goal) :
    Cites known (Reading.expectMark m slot >>= y) goal :=
  bind (expectMark m slot) hy

theorem name (what : Named) {y : Token → Reading β} (hy : ∀ t, known t → Cites known (y t) goal) :
    Cites known (Reading.expectName what >>= y) goal :=
  bind (expectName what) hy

theorem seen (test : Token → Bool) {y z : Reading β} (yes : Cites known y goal) (no : Cites known z goal) :
    Cites known (Reading.sees test >>= fun b => if b = true then y else z) goal :=
  bind (sees test) fun _ _ => ite yes no

theorem recovering (hx : Cites known x good) : Cites known (Reading.recovering x) fun o => ∀ a ∈ o, good a := by
  intro c cites
  have given := hx c cites
  unfold Reading.recovering
  cases read : x c with
  | ok a after =>
    simp only [read] at given ⊢
    refine ⟨given.1, fun b same => ?_⟩
    cases same
    exact given.2
  | error fault after =>
    simp only [read] at given ⊢
    exact ⟨(given.1.report given.2).recover, fun b absent => nomatch absent⟩

end Reading.Cites

open Reading

-- A level that holds on to its operator and operands and adds no token.
def Level.Cites (known : Token → Prop) (level : Level) : Prop := ∀ left operator right,
  left.Cites known → known operator → right.Cites known → (level.join left operator right).Cites known

theorem levels_cite : ∀ level ∈ levels, level.Cites known := by
  intro level member
  simp only [levels, List.mem_cons, List.not_mem_nil, or_false] at member
  rcases member with rfl | rfl | rfl | rfl | rfl | rfl <;>
    exact fun _ _ _ left operator right => ⟨left, operator, right⟩

structure ReadersCite (known : Token → Prop) (fuel : Nat) : Prop where
  expression : Cites known (expression fuel) (·.Cites known)
  operand : ∀ list, (∀ level ∈ list, level.Cites known) → Cites known (operand fuel list) (·.Cites known)
  operators : ∀ (level : Level) tighter (left : Expr), level.Cites known → (∀ level ∈ tighter, level.Cites known) →
    left.Cites known → Cites known (operators fuel level tighter left) (·.Cites known)
  unary : Cites known (unary fuel) (·.Cites known)
  suffixes : ∀ before : Expr, before.Cites known → Cites known (suffixes fuel before) (·.Cites known)
  arguments : ∀ already, Cites known (arguments fuel already) (Expr.CitesAll known)
  primary : Cites known (primary fuel) (·.Cites known)
  routine : ∀ head first second, known head → Cites known (routine fuel head first second) (·.Cites known)
  block : Cites known (block fuel) (Stmt.CitesAll known)
  declaration : Cites known (declaration fuel) (·.Cites known)
  methods : Cites known (methods fuel) (Routine.CitesAll known)
  variableRest : Cites known (variableRest fuel) (·.Cites known)
  statement : Cites known (statement fuel) (·.Cites known)
  forStatement : Cites known (forStatement fuel) (·.Cites known)
  firstClause : Cites known (firstClause fuel) fun o => ∀ s ∈ o, s.Cites known
  expressionBefore : ∀ m, Cites known (expressionBefore fuel m) fun o => ∀ e ∈ o, e.Cites known
  expressionStatement : Cites known (expressionStatement fuel) (·.Cites known)

variable {fuel : Nat}

theorem assignTo_cites {equals : Token} {value target : Expr} (blamed : known equals) (right : value.Cites known)
    (left : target.Cites known) : Cites known (assignTo equals value target) (·.Cites known) := by
  unfold assignTo
  split
  · exact .bind .fresh fun i _ => .pure ⟨left, right⟩
  · exact .pure ⟨left, right⟩
  · exact .bind (.complain _ blamed) fun _ _ => .pure left

theorem expression_cites (ih : ReadersCite known fuel) : Cites known (expression (fuel + 1)) (·.Cites known) := by
  unfold expression
  refine .bind (ih.operand levels levels_cite) fun target left => .bind (.accept? _) ?_
  rintro (_ | equals) taken
  · exact .pure left
  · exact .bind ih.expression fun value right => assignTo_cites (taken equals rfl) right left

theorem operand_cites (ih : ReadersCite known fuel) (list : List Level) (all : ∀ level ∈ list, level.Cites known) :
    Cites known (operand (fuel + 1) list) (·.Cites known) := by
  cases list with
  | nil =>
    unfold operand
    exact ih.unary
  | cons level tighter =>
    have others : ∀ level ∈ tighter, level.Cites known := fun l m => all l (List.mem_cons_of_mem _ m)
    unfold operand
    exact .bind (ih.operand tighter others) fun left cites =>
      ih.operators level tighter left (all level List.mem_cons_self) others cites

theorem operators_cites (ih : ReadersCite known fuel) (level : Level) (tighter : List Level) (left : Expr)
    (joins : level.Cites known) (others : ∀ level ∈ tighter, level.Cites known) (cites : left.Cites known) :
    Cites known (operators (fuel + 1) level tighter left) (·.Cites known) := by
  unfold operators
  refine .bind (.accept? _) ?_
  rintro (_ | operator) taken
  · exact .pure cites
  · exact .bind (ih.operand tighter others) fun right next =>
      ih.operators level tighter _ joins others (joins left operator right cites (taken operator rfl) next)

theorem unary_cites (ih : ReadersCite known fuel) : Cites known (unary (fuel + 1)) (·.Cites known) := by
  unfold unary
  refine .onToken _ (fun operator taken => .bind ih.unary fun e inner => .pure ⟨taken, inner⟩) ?_
  exact .bind ih.primary fun first cites => ih.suffixes first cites

theorem suffixes_cites (ih : ReadersCite known fuel) (before : Expr) (cites : before.Cites known) :
    Cites known (suffixes (fuel + 1) before) (·.Cites known) := by
  unfold suffixes
  have closing : ∀ es, Expr.CitesAll known es →
      Cites known (expectMark .rightParen .argumentsEnd >>= fun close => suffixes fuel (.call before close es))
        (·.Cites known) :=
    fun es all => .mark _ _ fun close taken => ih.suffixes _ ⟨cites, taken, all⟩
  refine .onMark _ (.seen _ (closing [] trivial) (.bind (ih.arguments 0) closing)) (.onMark _ ?_ (.pure cites))
  exact .name _ fun name taken => ih.suffixes _ ⟨cites, taken⟩

theorem arguments_cites (ih : ReadersCite known fuel) (already : Nat) :
    Cites known (arguments (fuel + 1) already) (Expr.CitesAll known) := by
  unfold arguments
  have entries : Cites known (do
      let value ← expression fuel
      if ← acceptMark .comma then return value :: (← arguments fuel (already + 1)) else return [value])
      (Expr.CitesAll known) :=
    .bind ih.expression fun e first => .onMark _ (.bind (ih.arguments _) fun es others => .pure ⟨first, others⟩)
      (.pure ⟨first, trivial⟩)
  exact .ite (.bind .look fun t seen => .bind (.complain _ seen) fun _ _ => entries) entries

theorem parameterNames_cites (fuel already : Nat) : Cites known (parameterNames fuel already) fun ps => ∀ t ∈ ps, known t := by
  induction fuel generalizing already with
  | zero => exact .fail _
  | succ fuel ih =>
    unfold parameterNames
    have entries : Cites known (do
        let name ← expectName .parameter
        if ← acceptMark .comma then return name :: (← parameterNames fuel (already + 1)) else return [name])
        fun ps => ∀ t ∈ ps, known t := by
      refine .name _ fun name first => .onMark _ (.bind (ih _) fun ps others => .pure ?_) (.pure ?_)
      · simpa using ⟨first, others⟩
      · simpa using first
    exact .ite (.bind .look fun t seen => .bind (.complain _ seen) fun _ _ => entries) entries

theorem parameterList_cites : Cites known (parameterList fuel) fun ps => ∀ t ∈ ps, known t := by
  unfold parameterList
  refine .seen _ (.mark _ _ fun close _ => .pure ?_) ?_
  · exact fun t absent => nomatch absent
  · exact .bind (parameterNames_cites fuel 0) fun ps names => .mark _ _ fun close _ => .pure names

theorem routine_cites (ih : ReadersCite known fuel) (head : Token) (first second : Slot) (taken : known head) :
    Cites known (routine (fuel + 1) head first second) (·.Cites known) := by
  unfold routine
  exact .mark _ _ fun _ _ => .bind parameterList_cites fun ps names => .mark _ _ fun _ _ =>
    .bind ih.block fun body inner => .pure ⟨taken, names, inner⟩

theorem primary_cites (ih : ReadersCite known fuel) : Cites known (primary (fuel + 1)) (·.Cites known) := by
  unfold primary
  refine .onToken _ (fun t _ => .pure trivial) <| .onToken _ (fun t taken => ?_) <| .onToken _ (fun t taken => ?_) <|
    .onToken _ (fun t taken => ?_) <| .onMark _ ?_ (.fail _)
  · exact .bind .fresh fun i _ => .pure taken
  · exact .bind .fresh fun i _ => .pure taken
  · exact .bind (ih.routine t _ _ taken) fun r inner => .pure inner
  · exact .bind ih.expression fun e inner => .mark _ _ fun close _ => .pure inner

-- A statement that was read, or none, and the statements behind it.
theorem listed_cites {reader : Reading (List Stmt)} {first : Option Stmt} (front : ∀ s ∈ first, s.Cites known)
    (later : Cites known reader (Stmt.CitesAll known)) :
    Cites known (do return first.toList ++ (← reader)) (Stmt.CitesAll known) := by
  refine .bind later fun ss others => .pure ?_
  cases first with
  | none => exact others
  | some s => exact ⟨front s rfl, others⟩

theorem block_cites (ih : ReadersCite known fuel) : Cites known (block (fuel + 1)) (Stmt.CitesAll known) := by
  unfold block
  refine .bind (.sees _) fun _ _ => .bind .atEnd fun _ _ => .ite (.mark _ _ fun _ _ => .pure trivial) ?_
  exact .bind (.recovering ih.declaration) fun first front => listed_cites front ih.block

theorem methods_cites (ih : ReadersCite known fuel) : Cites known (methods (fuel + 1)) (Routine.CitesAll known) := by
  unfold methods
  refine .bind (.sees _) fun _ _ => .bind .atEnd fun _ _ => .ite (.pure trivial) ?_
  exact .name _ fun name taken => .bind (ih.routine name _ _ taken) fun r first => .bind ih.methods fun rs others =>
    .pure ⟨first, others⟩

theorem declaration_cites (ih : ReadersCite known fuel) : Cites known (declaration (fuel + 1)) (·.Cites known) := by
  unfold declaration
  refine .onKeyword _ ?_ (.bind .declaresFunction fun _ _ => .ite ?_ (.onKeyword _ ih.variableRest ih.statement))
  · exact .name _ fun name taken => .mark _ _ fun _ _ => .bind ih.methods fun rs inner => .mark _ _ fun _ _ =>
      .pure ⟨taken, inner⟩
  · exact .bind (.acceptKeyword _) fun _ _ => .name _ fun name taken =>
      .bind (ih.routine name _ _ taken) fun r inner => .pure inner

theorem variableRest_cites (ih : ReadersCite known fuel) : Cites known (variableRest (fuel + 1)) (·.Cites known) := by
  unfold variableRest
  have filled : Cites known (some <$> expression fuel) fun o => ∀ e ∈ o, e.Cites known :=
    .map ih.expression fun e inner e' same => Option.some.inj same ▸ inner
  refine .name _ fun name taken => .onMark _ (.bind filled fun o inner => .mark _ _ fun _ _ => .pure ?_)
    (.mark _ _ fun _ _ => .pure taken)
  cases o with
  | none => exact taken
  | some e => exact ⟨taken, inner e rfl⟩

theorem expressionStatement_cites (ih : ReadersCite known fuel) :
    Cites known (expressionStatement (fuel + 1)) (·.Cites known) := by
  unfold expressionStatement
  exact .bind ih.expression fun e inner => .mark _ _ fun _ _ => .pure inner

theorem expressionBefore_cites (ih : ReadersCite known fuel) (m : Mark) :
    Cites known (expressionBefore (fuel + 1) m) fun o => ∀ e ∈ o, e.Cites known := by
  unfold expressionBefore
  exact .seen _ (.pure fun e absent => nomatch absent)
    (.map ih.expression fun e inner e' same => Option.some.inj same ▸ inner)

theorem firstClause_cites (ih : ReadersCite known fuel) :
    Cites known (firstClause (fuel + 1)) fun o => ∀ s ∈ o, s.Cites known := by
  unfold firstClause
  refine .onMark _ (.pure fun s absent => nomatch absent) (.onKeyword _ ?_ ?_)
  · exact .bind ih.variableRest fun s inner => .pure fun s' same => Option.some.inj same ▸ inner
  · exact .bind ih.expressionStatement fun s inner => .pure fun s' same => Option.some.inj same ▸ inner

theorem forLoop_cites {initial : Option Stmt} {condition step : Option Expr} {body : Stmt}
    (first : ∀ s ∈ initial, s.Cites known) (test : ∀ e ∈ condition, e.Cites known) (last : ∀ e ∈ step, e.Cites known)
    (inner : body.Cites known) : (forLoop initial condition step body).Cites known := by
  have asked : (condition.getD (.literal .true)).Cites known := by
    cases condition with
    | none => exact trivial
    | some e => exact test e rfl
  cases initial <;> cases step <;> simp_all [forLoop, Stmt.Cites, Stmt.CitesAll]

theorem forStatement_cites (ih : ReadersCite known fuel) : Cites known (forStatement (fuel + 1)) (·.Cites known) := by
  unfold forStatement
  refine .mark _ _ fun _ _ => .bind ih.firstClause fun initial first => ?_
  refine .bind (ih.expressionBefore _) fun condition test => .mark _ _ fun _ _ => ?_
  refine .bind (ih.expressionBefore _) fun step last => .mark _ _ fun _ _ => ?_
  exact .bind ih.statement fun body inner => .pure (forLoop_cites first test last inner)

theorem statement_cites (ih : ReadersCite known fuel) : Cites known (statement (fuel + 1)) (·.Cites known) := by
  unfold statement
  refine .onKeyword _ ih.forStatement <| .onKeyword _ ?_ <| .onKeyword _ ?_ <| .onToken _ (fun t taken => ?_) <|
    .onToken _ (fun t taken => ?_) <| .onMark _ ?_ <| .onToken _ (fun t taken => ?_) ih.expressionStatement
  · refine .mark _ _ fun _ _ => .bind ih.expression fun condition test => .mark _ _ fun _ _ => ?_
    refine .bind ih.statement fun yes first => .onKeyword _ ?_ (.pure ⟨test, first⟩)
    have other : Cites known (some <$> statement fuel) fun o => ∀ s ∈ o, s.Cites known :=
      .map ih.statement fun s inner s' same => Option.some.inj same ▸ inner
    refine .bind other fun o inner => .pure ?_
    cases o with
    | none => exact ⟨test, first⟩
    | some no => exact ⟨test, first, inner no rfl⟩
  · exact .mark _ _ fun _ _ => .bind ih.expression fun condition test => .mark _ _ fun _ _ =>
      .bind ih.statement fun body inner => .pure ⟨test, inner⟩
  · refine .bind (ih.expressionBefore _) fun o inner => .mark _ _ fun _ _ => .pure ?_
    cases o with
    | none => exact taken
    | some e => exact ⟨taken, inner e rfl⟩
  · exact .mark _ _ fun _ _ => .pure taken
  · exact .bind ih.block fun body inner => .pure inner
  · exact .bind ih.expression fun e inner => .mark _ _ fun _ _ => .pure ⟨taken, inner⟩

theorem readers_cite (known : Token → Prop) (fuel : Nat) : ReadersCite known fuel := by
  induction fuel with
  | zero =>
    constructor
    all_goals intros; exact .fail _
  | succ fuel ih =>
    exact {
      expression := expression_cites ih
      operand := operand_cites ih
      operators := operators_cites ih
      unary := unary_cites ih
      suffixes := suffixes_cites ih
      arguments := arguments_cites ih
      primary := primary_cites ih
      routine := routine_cites ih
      block := block_cites ih
      declaration := declaration_cites ih
      methods := methods_cites ih
      variableRest := variableRest_cites ih
      statement := statement_cites ih
      forStatement := forStatement_cites ih
      firstClause := firstClause_cites ih
      expressionBefore := expressionBefore_cites ih
      expressionStatement := expressionStatement_cites ih }

theorem declarations_cite (known : Token → Prop) (fuel : Nat) :
    Cites known (declarations fuel) (Stmt.CitesAll known) := by
  induction fuel with
  | zero => exact .fail _
  | succ fuel ih =>
    unfold declarations
    refine .bind .atEnd fun _ _ => .ite (.pure trivial) ?_
    exact .bind (.recovering (readers_cite known fuel).declaration) fun first front => listed_cites front ih

-- What is read of known tokens, and what is found at fault with them.
theorem readProgram_cites {ts : List Token} {low : RefId} (all : (Cursor.ofTokens ts low).Cites known) :
    match (readProgram ts low).1 with
    | .ok program => Stmt.CitesAll known program
    | .error faults => ∀ f ∈ faults, known f.token := by
  have given := declarations_cite known (readingFuel ts) _ all
  unfold readProgram finish
  cases read : declarations (readingFuel ts) (.ofTokens ts low) with
  | ok program after =>
    simp only [read] at given ⊢
    cases found : after.faults with
    | nil => exact given.2
    | cons f rest => exact fun g member => given.1.faults g (found ▸ member)
  | error fault after =>
    simp only [read] at given ⊢
    intro g member
    rcases List.mem_append.mp member with old | new
    · exact given.1.faults g old
    · rw [List.mem_singleton.mp new]
      exact given.2

end ScopeScript
