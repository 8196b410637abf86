import ScopeScript.Proofs.Grammar.Complete
import ScopeScript.Proofs.Grammar.Noting

namespace ScopeScript

open Reading

def Expr.isTarget : Expr → Bool
  | .variable .. => true
  | .get .. => true
  | _ => false

theorem Rank.node_target (k : Rank) (left : Expr) (operator : Token) (right : Expr) :
    (k.node left operator right).isTarget = false := by
  cases k <;> rfl

-- Enough fuel makes every reader take what the grammar for drafts derives and note what there is to
-- complain about.
structure ReadersNote (fuel : Nat) : Prop where
  expression : ∀ {w rest s}, Drafts .expression w s → 16 * w.length ≤ fuel →
    Bars expressionTail rest → Notes (expression fuel) w rest s fun _ => True
  rank : ∀ {k : Rank} {target w rest s}, Drafts (.rank k target) w s → 16 * w.length ≤ fuel + k.height →
    Bars k.tail rest → Notes (operand fuel (k.level :: k.tighter)) w rest s (·.isTarget = target)
  last : ∀ {target w rest s}, Drafts (.unary target) w s → 16 * w.length ≤ fuel + 7 →
    Bars Rank.product.operandTail rest → Notes (operand fuel []) w rest s (·.isTarget = target)
  further : ∀ {k : Rank} {left target w rest s}, Drafts (.further k left.isTarget target) w s →
    16 * w.length + 1 ≤ fuel → Bars k.tail rest →
    Notes (operators fuel k.level k.tighter left) w rest s (·.isTarget = target)
  unary : ∀ {target w rest s}, Drafts (.unary target) w s → 16 * w.length ≤ fuel + 8 →
    Bars Rank.product.operandTail rest → Notes (unary fuel) w rest s (·.isTarget = target)
  suffixes : ∀ {before target w rest s}, Drafts (.suffixes before.isTarget target) w s →
    16 * w.length + 1 ≤ fuel → Bars Rank.product.operandTail rest →
    Notes (suffixes fuel before) w rest s (·.isTarget = target)
  arguments : ∀ {already w rest s}, Drafts (.expressions already) w s → 16 * w.length + 1 ≤ fuel →
    Bars (.mark .comma :: expressionTail) rest → Notes (arguments fuel already) w rest s fun _ => True
  primary : ∀ {target w rest s}, Drafts (.primary target) w s → 16 * w.length ≤ fuel + 9 →
    Notes (primary fuel) w rest s (·.isTarget = target)
  parameterNames : ∀ {already w rest s}, Drafts (.names already) w s → w.length + 1 ≤ fuel →
    Bars [.mark .comma] rest → Notes (parameterNames fuel already) w rest s fun _ => True
  routine : ∀ {w rest s head first second}, Drafts .routine w s → 16 * w.length ≤ fuel →
    Notes (routine fuel head first second) w rest s fun _ => True
  block : ∀ {w rest s close}, Drafts .declarations w s → 16 * w.length + 16 ≤ fuel →
    close.kind = .mark .rightBrace → Notes (block fuel) (w ++ [close]) rest s fun _ => True
  declaration : ∀ {w rest s}, Drafts .declaration w s → 16 * w.length + 3 ≤ fuel →
    Bars [.keyword .elseWord] rest → Notes (declaration fuel) w rest s fun _ => True
  methods : ∀ {w rest s close}, Drafts .functions w s → 16 * w.length + 1 ≤ fuel →
    close.kind = .mark .rightBrace → Notes (methods fuel) w (close :: rest) s fun _ => True
  variableRest : ∀ {w rest s}, Drafts .variable w s → 16 * w.length ≤ fuel →
    Notes (variableRest fuel) w rest s fun _ => True
  statement : ∀ {hungry w rest s}, Drafts (.statement hungry) w s → 16 * w.length + 2 ≤ fuel →
    (hungry = true → Bars [.keyword .elseWord] rest) → Notes (statement fuel) w rest s fun _ => True
  forStatement : ∀ {hungry keyword w rest s}, Drafts (.statement hungry) (keyword :: w) s →
    keyword.kind = .keyword .forWord → 16 * w.length + 1 ≤ fuel →
    (hungry = true → Bars [.keyword .elseWord] rest) → Notes (forStatement fuel) w rest s fun _ => True
  firstClause : ∀ {w rest s}, Drafts .firstClause w s → 16 * w.length + 2 ≤ fuel →
    Notes (firstClause fuel) w rest s fun _ => True
  expressionBefore : ∀ {w rest s m stop}, Drafts .optional w s → 16 * w.length + 1 ≤ fuel →
    stop.kind = .mark m → m = .semicolon ∨ m = .rightParen →
    Notes (expressionBefore fuel m) w (stop :: rest) s fun _ => True
  expressionStatement : ∀ {w rest s}, Drafts .sentence w s → 16 * w.length ≤ fuel →
    Notes (expressionStatement fuel) w rest s fun _ => True

variable {fuel : Nat}

theorem assignTo_notes (equals : Token) (value target : Expr) :
    Notes (assignTo equals value target) [] rest (stray target.isTarget equals) fun _ => True := by
  cases target with
  | «variable» i name =>
    intro stop next faults
    exact ⟨_, next + 1, by rw [show stray _ equals = [] from rfl, List.append_nil]; rfl, trivial⟩
  | get object name => exact .pure trivial
  | _ => exact .bindLast (.complain _ _) fun _ _ => .pure trivial

theorem expression_notes (ih : ReadersNote fuel) (h : Drafts .expression w s)
    (enough : 16 * w.length ≤ fuel + 1) (barred : Bars expressionTail rest) :
    Notes (expression (fuel + 1)) w rest s fun _ => True := by
  unfold expression
  rw [levels_ranked]
  cases h with
  | expression inner =>
    refine .bindLast (ih.rank inner enough (barred.mono fun _ => List.mem_cons_of_mem _)) fun a same => ?_
    refine .skip (a := none) (fun c ahead => ?_) (.pure trivial)
    have refused := barred.refuses (·.isMark .equal) fun t passed => by
      simp_all [Token.isMark, expressionTail]
    exact Gives.accept_refused (ahead ▸ refused)
  | @assignment target v s w t equals left equal value =>
    have passed : equals.isMark .equal = true := by simp [Token.isMark, equal]
    rw [List.length_append, List.length_cons] at enough
    refine .bind (ih.rank left ?_ (barred_equal equal _)) ?_
    · show 16 * v.length ≤ fuel + 1
      omega
    rintro a rfl
    refine .after (v := [equals]) (.accept_taken passed) ?_
    rintro o rfl
    rw [← List.append_nil w]
    exact .bind (ih.expression value (by omega) barred) fun b _ => assignTo_notes equals b a

theorem operand_notes (ih : ReadersNote fuel) {k : Rank} {target : Bool}
    (h : Drafts (.operand k target) w s) (enough : 16 * w.length ≤ fuel + k.height + 1)
    (barred : Bars k.operandTail rest) : Notes (operand fuel k.tighter) w rest s (·.isTarget = target) := by
  cases k with
  | disjunction => exact ih.rank (k := .conjunction) h enough barred
  | conjunction => exact ih.rank (k := .equality) h enough barred
  | equality => exact ih.rank (k := .comparison) h enough barred
  | comparison => exact ih.rank (k := .sum) h enough barred
  | sum => exact ih.rank (k := .product) h enough barred
  | product => exact ih.last h enough barred

theorem Drafts.further_barred {k : Rank} {before target : Bool} (h : Drafts (.further k before target) w s)
    (barred : Bars k.tail rest) : Bars k.operandTail (w ++ rest) := by
  cases h with
  | noFurther => exact barred.mono fun _ => List.mem_append_right _
  | further spelled => exact .cons (k.operators_apart _ spelled)

theorem rank_notes (ih : ReadersNote fuel) {k : Rank} {target : Bool} (h : Drafts (.rank k target) w s)
    (enough : 16 * w.length ≤ fuel + 1 + k.height) (barred : Bars k.tail rest) :
    Notes (operand (fuel + 1) (k.level :: k.tighter)) w rest s (·.isTarget = target) := by
  cases h with
  | @rank _ before v s _ w t first others =>
    have opened : Opens opensExpression v := (Part.opening_operand _ _ _).mp first.opening
    have nonempty := opened.length_pos
    have low : k.height ≤ 6 := by cases k <;> decide
    rw [List.length_append] at enough
    unfold operand
    refine .bind (operand_notes ih first (by omega) (others.further_barred barred)) ?_
    rintro a rfl
    exact ih.further others (by omega) barred

theorem last_notes (ih : ReadersNote fuel) {target : Bool} (h : Drafts (.unary target) w s)
    (enough : 16 * w.length ≤ fuel + 8) (barred : Bars Rank.product.operandTail rest) :
    Notes (operand (fuel + 1) []) w rest s (·.isTarget = target) := by
  unfold operand
  exact ih.unary h enough barred

theorem further_notes (ih : ReadersNote fuel) {k : Rank} {left : Expr} {target : Bool}
    (h : Drafts (.further k left.isTarget target) w s) (enough : 16 * w.length ≤ fuel)
    (barred : Bars k.tail rest) :
    Notes (operators (fuel + 1) k.level k.tighter left) w rest s (·.isTarget = target) := by
  unfold operators
  generalize held : left.isTarget = before at h
  cases h with
  | noFurther =>
    have refused := barred.refuses k.level.holds fun t held =>
      List.mem_append_left _ ((k.level_holds t).mp held)
    exact .skip (a := none) (fun c ahead => Gives.accept_refused (ahead ▸ refused)) (.pure held)
  | further spelled next others =>
    rw [List.length_cons, List.length_append] at enough
    refine .after (v := [_]) (.accept_taken ((k.level_holds _).mpr spelled)) ?_
    rintro o rfl
    refine .bind (operand_notes ih next (by omega) (others.further_barred barred)) fun a _ => ?_
    refine ih.further ?_ (by omega) barred
    rw [k.level_join, k.node_target]
    exact others

theorem unary_notes (ih : ReadersNote fuel) {target : Bool} (h : Drafts (.unary target) w s)
    (enough : 16 * w.length ≤ fuel + 9) (barred : Bars Rank.product.operandTail rest) :
    Notes (unary (fuel + 1)) w rest s (·.isTarget = target) := by
  unfold unary
  cases h with
  | unary spelled inner =>
    rw [List.length_cons] at enough
    refine .onToken (by simpa [isUnaryOperator, Token.isMark] using spelled) ?_
    exact .bindLast (ih.unary inner (by omega) barred) fun a _ => .pure rfl
  | plainUnary inner =>
    cases inner with
    | @call before v s _ w t first others =>
      have opened : Opens opensExpression v := first.opening
      have nonempty := opened.length_pos
      rw [List.length_append] at enough
      have refused : (v ++ w ++ rest).head?.any isUnaryOperator = false := by
        cases first <;> simp [isUnaryOperator, Token.isMark, *]
      refine .pastToken refused (.bind (ih.primary first (by omega)) ?_)
      rintro a rfl
      exact ih.suffixes others (by omega) barred

theorem suffixes_notes (ih : ReadersNote fuel) {before : Expr} {target : Bool}
    (h : Drafts (.suffixes before.isTarget target) w s) (enough : 16 * w.length ≤ fuel)
    (barred : Bars Rank.product.operandTail rest) :
    Notes (suffixes (fuel + 1) before) w rest s (·.isTarget = target) := by
  unfold suffixes
  generalize held : before.isTarget = start at h
  cases h with
  | noSuffixes =>
    refine .pastMark (w := []) (barred.mono ?_) (.pastMark (w := []) (barred.mono ?_) (.pure held))
    · decide
    · decide
  | @callSuffix v s _ w t _ _ close paren inner right others =>
    simp only [List.length_cons, List.length_append] at enough
    have closing : ∀ values, Notes
        (expectMark .rightParen .argumentsEnd >>= fun close => suffixes fuel (.call before close values))
        (close :: w) rest t (·.isTarget = target) := fun values =>
      .mark right (ih.suffixes others (by omega) barred)
    refine .onMark paren ?_
    cases inner with
    | noValues =>
      refine .seen (b := true) (by simp [Token.isMark, right]) ?_
      exact closing []
    | values inner =>
      have opened : Opens opensExpression v := inner.opening
      have refused := (opened.bars [.mark .rightParen] (by decide)
        (close :: w ++ rest)).refuses (·.isMark .rightParen) fun t passed => by
          simpa [Token.isMark] using passed
      refine .seen (b := false) (by simpa using refused) ?_
      exact .bind (ih.arguments inner (by omega) (arguments_barred right)) fun values _ => closing values
  | getSuffix point named others =>
    simp only [List.length_cons] at enough
    refine .pastMark (.cons (by simp [point])) (.onMark point (.name named ?_))
    exact ih.suffixes others (by omega) barred

theorem arguments_notes (ih : ReadersNote fuel) {already : Nat} (h : Drafts (.expressions already) w s)
    (enough : 16 * w.length ≤ fuel) (barred : Bars (.mark .comma :: expressionTail) rest) :
    Notes (arguments (fuel + 1) already) w rest s fun _ => True := by
  unfold arguments
  cases h with
  | lastExpression inner =>
    obtain ⟨u, more, rfl, _⟩ := (inner.opening : Opens opensExpression w)
    have behind : Bars expressionTail rest := barred.mono fun _ => List.mem_cons_of_mem _
    have comma : Bars [.mark .comma] rest := barred.mono (by simp)
    refine .entry (.bindLast (ih.expression inner enough behind) fun a _ => ?_)
    exact .pastMark (w := []) comma (.pure trivial)
  | @expressions v s _ w t sep inner comma others =>
    obtain ⟨u, more, rfl, _⟩ := (inner.opening : Opens opensExpression v)
    simp only [List.length_cons, List.length_append] at enough
    have behind : ∀ more, Bars expressionTail (sep :: more) := fun more => .cons (by rw [comma]; decide)
    have short : 16 * (u :: more).length ≤ fuel := by
      rw [List.length_cons]
      omega
    refine .entry (.bind (v := u :: more) (ih.expression inner short (behind _)) fun a _ => .onMark comma ?_)
    exact .bindLast (ih.arguments others (by omega) barred) fun as _ => .pure trivial

theorem parameterNames_notes (ih : ReadersNote fuel) {already : Nat} (h : Drafts (.names already) w s)
    (enough : w.length ≤ fuel) (barred : Bars [.mark .comma] rest) :
    Notes (parameterNames (fuel + 1) already) w rest s fun _ => True := by
  unfold parameterNames
  cases h with
  | @lastName already name named =>
    rw [← List.append_nil (surplus _ _ _)]
    exact .entry (.name named (.pastMark (w := []) barred (.pure trivial)))
  | names named comma others =>
    simp only [List.length_cons] at enough
    refine .entry (.name named (.onMark comma ?_))
    exact .bindLast (ih.parameterNames others (by omega) barred) fun as _ => .pure trivial

theorem parameterList_notes (ih : ReadersNote fuel) {close : Token} (h : Drafts .parameters w s)
    (enough : w.length + 1 ≤ fuel) (right : close.kind = .mark .rightParen) :
    Notes (parameterList fuel) (w ++ [close]) rest s fun _ => True := by
  unfold parameterList
  cases h with
  | noParameters => exact .seen (b := true) (by simp [Token.isMark, right]) (.mark right (.pure trivial))
  | parameters inner =>
    obtain ⟨t, more, same, named⟩ := inner.opening
    have refused : (w ++ [close] ++ rest).head?.any (·.isMark .rightParen) = false := by
      simp [same, Token.isMark, named]
    refine .seen (b := false) refused ?_
    rw [← List.append_nil s]
    refine .bind (ih.parameterNames inner enough (.cons (by simp [right]))) fun ps _ => ?_
    exact .mark right (.pure trivial)

theorem routine_notes (ih : ReadersNote fuel) {head : Token} {first second : Slot} (h : Drafts .routine w s)
    (enough : 16 * w.length ≤ fuel + 1) :
    Notes (routine (fuel + 1) head first second) w rest s fun _ => True := by
  unfold routine
  cases h with
  | routine left names right start inner stop =>
    simp only [List.length_cons, List.length_append, List.length_nil] at enough
    rw [List.append_cons]
    refine .mark left (.bind (parameterList_notes ih names (by omega) right) fun ps _ => ?_)
    exact .mark start (.bindLast (ih.block inner (by omega) stop) fun ss _ => .pure trivial)

theorem primary_notes (ih : ReadersNote fuel) {target : Bool} (h : Drafts (.primary target) w s)
    (enough : 16 * w.length ≤ fuel + 10) :
    Notes (primary (fuel + 1)) w rest s (·.isTarget = target) := by
  unfold primary
  have constant : ∀ {t : Token} (k : Option Token → Reading Expr),
      k (some t) = pure (.literal (t.literal?.getD .nil)) → t.literal?.isSome = true →
      Notes (accept? (·.literal?.isSome) >>= k) [t] rest [] (·.isTarget = false) := by
    intro t k same known
    refine .after (v := [t]) (w := []) (Gives.accept_taken known) ?_
    rintro o rfl
    rw [same]
    exact .pure rfl
  cases h with
  | number spelled => exact constant _ rfl (by simp [Token.literal?, spelled])
  | string spelled => exact constant _ rfl (by simp [Token.literal?, spelled])
  | trueWord spelled => exact constant _ rfl (by simp [Token.literal?, spelled])
  | falseWord spelled => exact constant _ rfl (by simp [Token.literal?, spelled])
  | nilWord spelled => exact constant _ rfl (by simp [Token.literal?, spelled])
  | thisWord spelled =>
    refine .pastToken (by simp [Token.literal?, spelled]) ?_
    refine .onToken (by simp [Token.isKeyword, spelled]) ?_
    exact .of_gives (.fresh fun i => .pure rfl)
  | name named =>
    refine .pastToken (by simp [Token.literal?, named]) ?_
    refine .pastToken (by simp [Token.isKeyword, named]) ?_
    refine .onToken (by simp [Token.isIdentifier, named]) ?_
    exact .of_gives (.fresh fun i => .pure rfl)
  | lambda opening inner =>
    rw [List.length_cons] at enough
    refine .pastToken (by simp [Token.literal?, opening]) ?_
    refine .pastToken (by simp [Token.isKeyword, opening]) ?_
    refine .pastToken (by simp [Token.isIdentifier, opening]) ?_
    refine .onToken (by simp [Token.isKeyword, opening]) ?_
    exact .bindLast (ih.routine inner (by omega)) fun r _ => .pure rfl
  | grouping left inner right =>
    simp only [List.length_cons, List.length_append, List.length_nil] at enough
    have behind : ∀ more, Bars expressionTail (_ :: more) := fun more => .cons (by rw [right]; decide)
    refine .pastToken (by simp [Token.literal?, left]) ?_
    refine .pastToken (by simp [Token.isKeyword, left]) ?_
    refine .pastToken (by simp [Token.isIdentifier, left]) ?_
    refine .pastToken (by simp [Token.isKeyword, left]) (.onMark left ?_)
    rw [← List.append_nil s]
    exact .bind (ih.expression inner (by omega) (behind _)) fun a _ => .mark right (.pure rfl)

theorem Drafts.declarations_barred {close : Token} (h : Drafts .declarations w s)
    (right : close.kind = .mark .rightBrace) (rest : List Token) :
    Bars [.keyword .elseWord] (w ++ close :: rest) := by
  cases h with
  | noDeclarations => exact .cons (by simp [right])
  | declarations first others =>
    obtain ⟨t, more, rfl, opening⟩ := first.opening
    refine .cons fun member => ?_
    rw [List.mem_singleton.mp member] at opening
    cases opening

theorem block_notes (ih : ReadersNote fuel) {close : Token} (h : Drafts .declarations w s)
    (enough : 16 * w.length + 15 ≤ fuel) (right : close.kind = .mark .rightBrace) :
    Notes (block (fuel + 1)) (w ++ [close]) rest s fun _ => True := by
  unfold block
  cases h with
  | noDeclarations =>
    refine .skip (a := true) (fun c ahead => ?_) (.skip (a := false) (fun c ahead => ?_) ?_)
    · simp [sees, Cursor.sees, ahead, Token.isMark, right]
    · simp [atEnd, Cursor.atEnd, ahead]
    · exact .mark right (.pure trivial)
  | @declarations v s w t first others =>
    obtain ⟨u, tail, same, opening⟩ := first.opening
    have closed : u.kind ≠ .mark .rightBrace := by
      rintro impossible
      rw [impossible] at opening
      cases opening
    rw [List.length_append, same, List.length_cons] at enough
    refine .skip (a := false) (fun c ahead => ?_) (.skip (a := false) (fun c ahead => ?_) ?_)
    · simp [sees, Cursor.sees, ahead, same, Token.isMark, closed]
    · simp [atEnd, Cursor.atEnd, ahead, same]
    · have behind : Bars [.keyword .elseWord] (w ++ [close] ++ rest) := by
        simpa using others.declarations_barred right rest
      have short : 16 * v.length + 3 ≤ fuel := by
        rw [same, List.length_cons]
        omega
      rw [List.append_assoc]
      refine .bind (.recovering (ih.declaration first short behind)) fun o _ => ?_
      exact .bindLast (ih.block others (by omega) right) fun as _ => .pure trivial

theorem methods_notes (ih : ReadersNote fuel) {close : Token} (h : Drafts .functions w s)
    (enough : 16 * w.length ≤ fuel) (right : close.kind = .mark .rightBrace) :
    Notes (methods (fuel + 1)) w (close :: rest) s fun _ => True := by
  unfold methods
  cases h with
  | noFunctions =>
    refine .skip (a := true) (fun c ahead => ?_) (.skip (a := false) (fun c ahead => ?_) ?_)
    · simp [sees, Cursor.sees, ahead, Token.isMark, right]
    · simp [atEnd, Cursor.atEnd, ahead]
    · exact .pure trivial
  | functions first others =>
    cases first with
    | function named inner =>
      simp only [List.cons_append, List.length_cons, List.length_append] at enough ⊢
      refine .skip (a := false) (fun c ahead => ?_) (.skip (a := false) (fun c ahead => ?_) ?_)
      · simp [sees, Cursor.sees, ahead, Token.isMark, named]
      · simp [atEnd, Cursor.atEnd, ahead]
      · refine .name named (.bind (ih.routine inner (by omega)) fun r _ => ?_)
        exact .bindLast (ih.methods others (by omega) right) fun as _ => .pure trivial

theorem declaration_notes (ih : ReadersNote fuel) (h : Drafts .declaration w s)
    (enough : 16 * w.length + 2 ≤ fuel) (barred : Bars [.keyword .elseWord] rest) :
    Notes (declaration (fuel + 1)) w rest s fun _ => True := by
  unfold declaration
  cases h with
  | classes opening named left inner right =>
    simp only [List.length_cons, List.length_append, List.length_nil] at enough
    refine .onKeyword opening (.name named (.mark left ?_))
    rw [← List.append_nil s]
    exact .bind (ih.methods inner (by omega) right) fun rs _ => .mark right (.pure trivial)
  | functionDeclaration opening inner =>
    cases inner with
    | function named inner =>
      simp only [List.length_cons] at enough
      refine .pastKeyword (.cons (by simp [opening])) (.skip (a := true) (fun c ahead => ?_) ?_)
      · simp [declaresFunction, ahead, Token.isKeyword, Token.isIdentifier, opening, named]
      · refine .after (v := [_]) (.acceptKeyword_taken opening) fun _ _ => .name named ?_
        exact .bindLast (ih.routine inner (by omega)) fun r _ => .pure trivial
  | variableDeclaration opening inner =>
    simp only [List.length_cons] at enough
    refine .pastKeyword (.cons (by simp [opening])) (.skip (a := false) (fun c ahead => ?_) ?_)
    · cases inner <;> simp [declaresFunction, ahead, Token.isKeyword, opening]
    · exact .onKeyword opening (ih.variableRest inner (by omega))
  | statement inner =>
    obtain ⟨t, more, rfl, opening, follows⟩ := (inner.opening : Opens opensStatement w)
    have barredWord : ∀ k, opensStatement (.keyword k) = false →
        Bars [.keyword k] (t :: more ++ rest) := fun k closed => .cons fun member => by
      rw [List.mem_singleton.mp member, closed] at opening
      cases opening
    refine .pastKeyword (barredWord _ rfl) (.skip (a := false) (fun c ahead => ?_) ?_)
    · unfold declaresFunction
      rw [ahead]
      -- A function keyword in front of a parenthesis has no name behind it.
      by_cases isFun : t.kind = .keyword .funWord
      · obtain ⟨open_, others, rfl, left⟩ := follows isFun
        simp [Token.isIdentifier, left]
      · have other : t.isKeyword .funWord = false := by simpa [Token.isKeyword] using isFun
        rw [List.cons_append]
        cases more ++ rest with
        | nil => rfl
        | cons name tail => simp [other]
    · exact .pastKeyword (barredWord _ rfl) (ih.statement inner (by omega) fun _ => barred)

theorem variableRest_notes (ih : ReadersNote fuel) (h : Drafts .variable w s)
    (enough : 16 * w.length ≤ fuel + 1) : Notes (variableRest (fuel + 1)) w rest s fun _ => True := by
  unfold variableRest
  cases h with
  | plainVariable named stop =>
    exact .name named (.pastMark (.cons (by simp [stop])) (.mark stop (.pure trivial)))
  | @filledVariable w s _ _ semicolon named equal inner stop =>
    simp only [List.length_cons, List.length_append, List.length_nil] at enough
    have initial : Notes (some <$> expression fuel) w ([semicolon] ++ rest) s fun _ => True :=
      .map (ih.expression inner (by omega) (expression_barred stop (.inl rfl))) fun _ _ => trivial
    rw [← List.append_nil s]
    exact .name named (.onMark equal (.bind initial fun _ _ => .mark stop (.pure trivial)))

theorem expressionStatement_notes (ih : ReadersNote fuel) (h : Drafts .sentence w s)
    (enough : 16 * w.length ≤ fuel + 1) : Notes (expressionStatement (fuel + 1)) w rest s fun _ => True := by
  unfold expressionStatement
  cases h with
  | sentence inner stop =>
    simp only [List.length_append, List.length_cons, List.length_nil] at enough
    rw [← List.append_nil s]
    refine .bind (ih.expression inner (by omega) (expression_barred stop (.inl rfl))) fun a _ => ?_
    exact .mark stop (.pure trivial)

theorem expressionBefore_notes (ih : ReadersNote fuel) {m : Mark} {stop : Token} (h : Drafts .optional w s)
    (enough : 16 * w.length ≤ fuel) (kind : stop.kind = .mark m) (closing : m = .semicolon ∨ m = .rightParen) :
    Notes (expressionBefore (fuel + 1) m) w (stop :: rest) s fun _ => True := by
  unfold expressionBefore
  cases h with
  | absent => exact .seen (b := true) (by simp [Token.isMark, kind]) (.pure trivial)
  | present inner =>
    have opened : Opens opensExpression w := inner.opening
    have apart : ∀ k ∈ [TokenKind.mark m], opensExpression k = false := by
      rcases closing with rfl | rfl
      · decide
      · decide
    have refused := (opened.bars [.mark m] apart (stop :: rest)).refuses (·.isMark m) fun t passed => by
      simpa [Token.isMark] using passed
    refine .seen (b := false) refused ?_
    exact .map (ih.expression inner enough (expression_barred kind closing)) fun _ _ => trivial

theorem firstClause_notes (ih : ReadersNote fuel) (h : Drafts .firstClause w s)
    (enough : 16 * w.length + 1 ≤ fuel) : Notes (firstClause (fuel + 1)) w rest s fun _ => True := by
  unfold firstClause
  cases h with
  | noClause stop => exact .onMark stop (.pure trivial)
  | variableClause opening inner =>
    rw [List.length_cons] at enough
    refine .pastMark (.cons (by simp [opening])) (.onKeyword opening ?_)
    exact .bindLast (ih.variableRest inner (by omega)) fun _ _ => .pure trivial
  | sentenceClause inner =>
    have opened : Opens opensExpression w := inner.opening
    refine .pastMark (opened.bars _ (by decide) rest) (.pastKeyword (opened.bars _ (by decide) rest) ?_)
    exact .bindLast (ih.expressionStatement inner (by omega)) fun _ _ => .pure trivial

theorem forStatement_notes (ih : ReadersNote fuel) {hungry : Bool} {keyword : Token}
    (h : Drafts (.statement hungry) (keyword :: w) s) (isFor : keyword.kind = .keyword .forWord)
    (enough : 16 * w.length ≤ fuel) (barred : hungry = true → Bars [.keyword .elseWord] rest) :
    Notes (forStatement (fuel + 1)) w rest s fun _ => True := by
  unfold forStatement
  cases h with
  | forStatement opening left first test stop last right inner =>
    simp only [List.length_cons, List.length_append] at enough
    refine .mark left (.bind (ih.firstClause first (by omega)) fun i _ => ?_)
    refine .bind (ih.expressionBefore test (by omega) stop (.inl rfl)) fun c _ => .mark stop ?_
    refine .bind (ih.expressionBefore last (by omega) right (.inr rfl)) fun s _ => .mark right ?_
    exact .bindLast (ih.statement inner (by omega) barred) fun b _ => .pure trivial
  | sentenceStatement inner =>
    obtain ⟨t, more, same, opening, _⟩ := (inner.opening : Opens opensExpression _)
    cases same
    rw [isFor] at opening
    cases opening
  | ifStatement opening | ifElseStatement opening | printStatement opening | returnStatement opening
  | whileStatement opening | breakStatement opening | blockStatement opening =>
    cases isFor.symm.trans opening

theorem statement_notes (ih : ReadersNote fuel) {hungry : Bool} (h : Drafts (.statement hungry) w s)
    (enough : 16 * w.length + 1 ≤ fuel) (barred : hungry = true → Bars [.keyword .elseWord] rest) :
    Notes (statement (fuel + 1)) w rest s fun _ => True := by
  unfold statement
  cases h with
  | forStatement opening left first test stop last right inner =>
    have whole := Drafts.forStatement opening left first test stop last right inner
    rw [List.length_cons] at enough
    exact .onKeyword opening (ih.forStatement whole opening (by omega) barred)
  | ifStatement opening left test right inner =>
    simp only [List.length_cons, List.length_append] at enough
    refine .pastKeyword (.cons (by simp [opening])) (.onKeyword opening (.mark left ?_))
    refine .bind (ih.expression test (by omega) (expression_barred right (.inr rfl))) fun c _ => ?_
    refine .mark right (.bindLast (ih.statement inner (by omega) fun _ => barred rfl) fun y _ => ?_)
    exact .pastKeyword (w := []) (barred rfl) (.pure trivial)
  | ifElseStatement opening left test right inner middle other =>
    simp only [List.length_cons, List.length_append] at enough
    have sated {more : List Token} : false = true → Bars [.keyword .elseWord] more :=
      fun fed => absurd fed Bool.false_ne_true
    refine .pastKeyword (.cons (by simp [opening])) (.onKeyword opening (.mark left ?_))
    refine .bind (ih.expression test (by omega) (expression_barred right (.inr rfl))) fun c _ => ?_
    have otherwise : Notes (some <$> statement fuel) _ rest _ fun _ => True :=
      .map (ih.statement other (by omega) barred) fun _ _ => trivial
    refine .mark right (.bind (ih.statement inner (by omega) sated) fun y _ => .onKeyword middle ?_)
    exact .bindLast otherwise fun _ _ => .pure trivial
  | whileStatement opening left test right inner =>
    simp only [List.length_cons, List.length_append] at enough
    refine .pastKeyword (.cons (by simp [opening])) (.pastKeyword (.cons (by simp [opening])) ?_)
    refine .onKeyword opening (.mark left ?_)
    refine .bind (ih.expression test (by omega) (expression_barred right (.inr rfl))) fun c _ => ?_
    exact .mark right (.bindLast (ih.statement inner (by omega) barred) fun b _ => .pure trivial)
  | returnStatement opening inner stop =>
    simp only [List.length_cons, List.length_append, List.length_nil] at enough
    refine .pastKeyword (.cons (by simp [opening])) (.pastKeyword (.cons (by simp [opening])) ?_)
    refine .pastKeyword (.cons (by simp [opening])) (.onToken (by simp [Token.isKeyword, opening]) ?_)
    rw [← List.append_nil s]
    exact .bind (ih.expressionBefore inner (by omega) stop (.inl rfl)) fun o _ => .mark stop (.pure trivial)
  | breakStatement opening stop =>
    refine .pastKeyword (.cons (by simp [opening])) (.pastKeyword (.cons (by simp [opening])) ?_)
    refine .pastKeyword (.cons (by simp [opening])) (.pastToken (by simp [Token.isKeyword, opening]) ?_)
    exact .onToken (by simp [Token.isKeyword, opening]) (.mark stop (.pure trivial))
  | blockStatement start inner stop =>
    simp only [List.length_cons, List.length_append, List.length_nil] at enough
    refine .pastKeyword (.cons (by simp [start])) (.pastKeyword (.cons (by simp [start])) ?_)
    refine .pastKeyword (.cons (by simp [start])) (.pastToken (by simp [Token.isKeyword, start]) ?_)
    refine .pastToken (by simp [Token.isKeyword, start]) (.onMark start ?_)
    exact .bindLast (ih.block inner (by omega) stop) fun ss _ => .pure trivial
  | printStatement opening inner stop =>
    simp only [List.length_cons, List.length_append, List.length_nil] at enough
    refine .pastKeyword (.cons (by simp [opening])) (.pastKeyword (.cons (by simp [opening])) ?_)
    refine .pastKeyword (.cons (by simp [opening])) (.pastToken (by simp [Token.isKeyword, opening]) ?_)
    refine .pastToken (by simp [Token.isKeyword, opening]) (.pastMark (.cons (by simp [opening])) ?_)
    refine .onToken (by simp [Token.isKeyword, opening]) ?_
    rw [← List.append_nil s]
    refine .bind (ih.expression inner (by omega) (expression_barred stop (.inl rfl))) fun a _ => ?_
    exact .mark stop (.pure trivial)
  | sentenceStatement inner =>
    have opened : Opens opensExpression w := inner.opening
    have barredWord : ∀ k, opensExpression (.keyword k) = false → Bars [.keyword k] (w ++ rest) :=
      fun k closed => opened.bars _ (by simpa using closed) rest
    have refused : ∀ k, opensExpression (.keyword k) = false →
        (w ++ rest).head?.any (·.isKeyword k) = false := fun k closed =>
      (barredWord k closed).refuses (·.isKeyword k) fun t passed => by
        simpa [Token.isKeyword] using passed
    refine .pastKeyword (barredWord _ rfl) (.pastKeyword (barredWord _ rfl) ?_)
    refine .pastKeyword (barredWord _ rfl) (.pastToken (refused _ rfl) ?_)
    refine .pastToken (refused _ rfl) (.pastMark (opened.bars _ (by decide) rest) ?_)
    exact .pastToken (refused _ rfl) (ih.expressionStatement inner (by omega))

theorem readers_note_none : ReadersNote 0 where
  expression h enough _ := absurd (Opens.length_pos h.opening) (by omega)
  rank {k _ _ _ _} h enough _ := by
    have low : k.height ≤ 6 := by cases k <;> decide
    exact absurd (Opens.length_pos h.opening) (by omega)
  last h enough _ := absurd (Opens.length_pos h.opening) (by omega)
  further _ enough _ := absurd enough (by omega)
  unary h enough _ := absurd (Opens.length_pos h.opening) (by omega)
  suffixes _ enough _ := absurd enough (by omega)
  arguments _ enough _ := absurd enough (by omega)
  primary h enough := absurd (Opens.length_pos h.opening) (by omega)
  parameterNames _ enough _ := absurd enough (by omega)
  routine h enough := by
    obtain ⟨t, more, rfl, _⟩ := h.opening
    simp at enough
  block _ enough _ := absurd enough (by omega)
  declaration _ enough _ := absurd enough (by omega)
  methods _ enough _ := absurd enough (by omega)
  variableRest h enough := by cases h <;> simp at enough
  statement _ enough _ := absurd enough (by omega)
  forStatement _ _ enough _ := absurd enough (by omega)
  firstClause _ enough := absurd enough (by omega)
  expressionBefore _ enough _ _ := absurd enough (by omega)
  expressionStatement h enough := by
    have opened : Opens opensExpression _ := h.opening
    exact absurd opened.length_pos (by omega)

theorem readers_note (fuel : Nat) : ReadersNote fuel := by
  induction fuel with
  | zero => exact readers_note_none
  | succ fuel ih =>
    exact {
      expression := expression_notes ih
      rank := rank_notes ih
      last := last_notes ih
      further := fun h enough => further_notes ih h (by omega)
      unary := unary_notes ih
      suffixes := fun h enough => suffixes_notes ih h (by omega)
      arguments := fun h enough => arguments_notes ih h (by omega)
      primary := primary_notes ih
      parameterNames := fun h enough => parameterNames_notes ih h (by omega)
      routine := routine_notes ih
      block := fun h enough => block_notes ih h (by omega)
      declaration := fun h enough => declaration_notes ih h (by omega)
      methods := fun h enough => methods_notes ih h (by omega)
      variableRest := variableRest_notes ih
      statement := fun h enough => statement_notes ih h (by omega)
      forStatement := fun h isFor enough => forStatement_notes ih h isFor (by omega)
      firstClause := fun h enough => firstClause_notes ih h (by omega)
      expressionBefore := fun h enough => expressionBefore_notes ih h (by omega)
      expressionStatement := expressionStatement_notes ih }

theorem declarations_note (h : Drafts .declarations w s) (enough : 16 * w.length + 16 ≤ fuel) :
    Notes (declarations fuel) w [] s fun _ => True := by
  induction fuel generalizing w s with
  | zero => omega
  | succ fuel ih =>
    unfold declarations
    cases h with
    | noDeclarations =>
      refine .skip (a := true) (fun c ahead => ?_) (.pure trivial)
      simp [atEnd, Cursor.atEnd, ahead]
    | @declarations v s w t first others =>
      obtain ⟨u, tail, same, _⟩ := first.opening
      have nonempty : 1 ≤ v.length := by simp [same]
      have behind : Bars [.keyword .elseWord] (w ++ []) := by
        cases others with
        | noDeclarations => exact .nil
        | declarations next _ =>
          obtain ⟨u, _, rfl, opening⟩ := next.opening
          refine .cons fun member => ?_
          rw [List.mem_singleton.mp member] at opening
          cases opening
      rw [List.length_append] at enough
      refine .skip (a := false) (fun c ahead => ?_) ?_
      · simp [atEnd, Cursor.atEnd, ahead, same]
      · refine .bind (.recovering ((readers_note fuel).declaration first (by omega) behind)) fun o _ => ?_
        exact .bindLast (ih others (by omega)) fun as _ => .pure trivial

end ScopeScript
