import ScopeScript.Proofs.Grammar.Bounded
import ScopeScript.Proofs.Grammar.Shift

namespace ScopeScript

open Reading

-- Declarations never start with an else.
theorem Derives.bars_else (h : Derives (.declarations ss) w) (clear : Bars [.keyword .elseWord] rest) :
    Bars [.keyword .elseWord] (w ++ rest) := by
  cases h with
  | noDeclarations => exact clear
  | declarations first others =>
    obtain ⟨t, more, rfl, opening⟩ := first.opening
    refine .cons fun member => ?_
    rw [List.mem_singleton.mp member] at opening
    cases opening

-- Behind declarations without a fault, reading stands where it would stand if nothing had been in front,
-- with a little less fuel.
theorem declarations_resume {ss : List Stmt} {w rest : List Token} (h : Derives (.declarations ss) w)
    (clear : Bars [.keyword .elseWord] rest) {fuel : Nat} (enough : 16 * w.length + 4 ≤ fuel) (stop : Token)
    (next : RefId) (faults : List SyntaxFault) :
    ∃ front later left, fuel ≤ left + w.length ∧ Stmt.anonymousAll front = Stmt.anonymousAll ss ∧
      declarations fuel ⟨w ++ rest, stop, next, faults⟩ =
        ((front ++ ·) <$> declarations left) ⟨rest, stop, later, faults⟩ := by
  induction ss generalizing w fuel next with
  | nil =>
    cases h
    refine ⟨[], next, fuel, Nat.le_refl _, rfl, ?_⟩
    rw [show (([] : List Stmt) ++ ·) = id from rfl, id_map]
    rfl
  | cons s more ih =>
    cases h with
    | @declarations _ v _ w first others =>
      obtain ⟨t, tail, same, -⟩ := first.opening
      rw [List.length_append] at enough ⊢
      have filled : 1 ≤ v.length := by simp [same]
      obtain ⟨k, rfl⟩ : ∃ k, fuel = k + 1 := ⟨fuel - 1, by omega⟩
      have given := (readers_complete k).declaration first (by omega) (others.bars_else clear)
      obtain ⟨_, middle, ran, a, rfl, known⟩ := given.recovering stop next faults
      obtain ⟨front, later, left, spent, alike, resumed⟩ := ih others (show 16 * w.length + 4 ≤ k by omega) middle
      refine ⟨a :: front, later, left, by omega, by simp [Stmt.anonymousAll, known, alike], ?_⟩
      have goes : Loop.program.goesOn ⟨v ++ (w ++ rest), stop, next, faults⟩ = true := by
        simp [Loop.goesOn, Cursor.atEnd, same]
      have round : Loop.program.round k ⟨v ++ (w ++ rest), stop, next, faults⟩ =
          .ok [a] ⟨w ++ rest, stop, middle, faults⟩ := by
        show EStateM.bind _ _ _ = _
        unfold EStateM.bind
        rw [ran]
        rfl
      calc declarations (k + 1) ⟨v ++ w ++ rest, stop, next, faults⟩
        _ = (do return (← Loop.program.round k) ++ (← declarations k)) ⟨v ++ (w ++ rest), stop, next, faults⟩ := by
          rw [List.append_assoc]
          exact (Loop.program.unroll k _).trans (if_pos goes)
        _ = ((a :: ·) <$> declarations k) ⟨w ++ rest, stop, middle, faults⟩ := by
          show EStateM.bind (Loop.program.round k) _ _ = _
          unfold EStateM.bind
          rw [round]
          rfl
        _ = ((a :: ·) <$> (front ++ ·) <$> declarations left) ⟨rest, stop, later, faults⟩ := by
          show EStateM.map _ (declarations k) _ = EStateM.map _ _ _
          unfold EStateM.map
          rw [resumed]
        _ = ((a :: front ++ ·) <$> declarations left) ⟨rest, stop, later, faults⟩ := by
          rw [← comp_map]
          rfl

theorem finish_map (g : α → β) (x : Reading α) (c : Cursor) :
    finish ((g <$> x) c) = ((finish (x c)).1.map g, (finish (x c)).2) := by
  show finish (EStateM.map g x c) = _
  unfold EStateM.map
  cases x c with
  | error fault after => rfl
  | ok a after =>
    obtain ⟨ahead, stop, next, faults⟩ := after
    cases faults <;> rfl

theorem anonymousAll_append (ss more : List Stmt) :
    Stmt.anonymousAll (ss ++ more) = Stmt.anonymousAll ss ++ Stmt.anonymousAll more := by
  simp only [Stmt.anonymousAll_eq, Stmt.renameAll_eq_map, List.map_append]

theorem anonymousAll_later (k : Nat) (ss : List Stmt) :
    Stmt.anonymousAll (Stmt.renameAll (.later k) ss) = Stmt.anonymousAll ss := by
  simp only [Stmt.anonymousAll_eq, Stmt.renameAll_renameAll]
  rfl

section

variable {front body : List Token} {stop : Token}

-- What is read behind declarations is what is read without them from some later counter.
theorem readProgram_resume {ss : List Stmt} (derived : Derives (.declarations ss) front)
    (inner : ∀ t ∈ front, t.isStop = false) (inner' : ∀ t ∈ body, t.isStop = false) (outer : stop.isStop = true)
    (clear : Bars [.keyword .elseWord] body) (next : RefId) :
    ∃ first later, Stmt.anonymousAll first = Stmt.anonymousAll ss ∧
      (readProgram (front ++ (body ++ [stop])) next).1 =
        (readProgram (body ++ [stop]) later).1.map (first ++ ·) := by
  have both : ∀ t ∈ front ++ body, t.isStop = false := fun t member =>
    (List.mem_append.mp member).elim (inner t) (inner' t)
  have enough : 16 * front.length + 4 ≤ readingFuel (front ++ body ++ [stop]) := by
    simp only [readingFuel, List.length_append, List.length_cons, List.length_nil]
    omega
  obtain ⟨first, later, left, spent, alike, resumed⟩ := declarations_resume derived clear enough stop next []
  -- Each declaration in front took a token and spent one unit of fuel on it, so enough is left.
  have remains : readingFuel (body ++ [stop]) ≤ left := by
    simp only [readingFuel, List.length_append, List.length_cons, List.length_nil] at spent ⊢
    omega
  refine ⟨first, later, alike, ?_⟩
  have needed : 16 * body.length + 14 ≤ readingFuel (body ++ [stop]) :=
    Nat.le_trans (Nat.le_add_right _ 2) readingFuel_enough
  have same : declarations left ⟨body, stop, later, []⟩ =
      declarations (readingFuel (body ++ [stop])) ⟨body, stop, later, []⟩ :=
    (Procedure.declarations.ends (by simp) rfl needed).2 left remains
  rw [← List.append_assoc]
  unfold readProgram
  rw [ofTokens_ahead both outer, ofTokens_ahead inner' outer, resumed, finish_map, same]

end

-- Code without a fault changes nothing about what is said of the code behind it. Only an else behind it
-- might belong to it.
theorem readProgram_behind {front body : List Token} {stop stop' : Token} {ss : List Stmt} {low later : RefId}
    (inner : ∀ t ∈ front, t.isStop = false) (outer : stop.isStop = true)
    (done : readProgram (front ++ [stop]) low = (.ok ss, later))
    (inner' : ∀ t ∈ body, t.isStop = false) (outer' : stop'.isStop = true)
    (clear : ∀ t ∈ (body ++ [stop']).head?, t.kind ≠ .keyword .elseWord) (middle next : RefId) :
    match (readProgram (body ++ [stop']) middle).1 with
    | .ok more => ∃ whole, (readProgram (front ++ (body ++ [stop'])) next).1 = .ok whole ∧
        Stmt.anonymousAll whole = Stmt.anonymousAll (ss ++ more)
    | .error faults => (readProgram (front ++ (body ++ [stop'])) next).1 = .error faults := by
  have bars : Bars [.keyword .elseWord] body := by
    cases body with
    | nil => exact .nil
    | cons t rest => exact .cons fun member => clear t rfl (List.mem_singleton.mp member)
  obtain ⟨first, after, alike, resumed⟩ :=
    readProgram_resume (readProgram_derived inner outer done) inner inner' outer' bars next
  -- The two readings of the code behind differ in where the counter stood.
  rw [readProgram_shifts (body ++ [stop']) after] at resumed
  rw [readProgram_shifts (body ++ [stop']) middle]
  cases read : (readProgram (body ++ [stop']) 0).1 with
  | error faults =>
    rw [read] at resumed
    exact resumed
  | ok tree =>
    rw [read] at resumed
    refine ⟨_, resumed, ?_⟩
    rw [anonymousAll_append, anonymousAll_append, alike, anonymousAll_later, anonymousAll_later]

-- if (a) if (a) a; else a; print ;
theorem readProgram_behind_danglingElse :
    (∀ t ∈ danglingElse, t.isStop = false) ∧ (bareToken .stop).isStop = true ∧
      (∃ ss later, readProgram (danglingElse ++ [bareToken .stop]) 0 = (.ok ss, later)) ∧
      (∀ t ∈ emptyPrint, t.isStop = false) ∧ TokenKind.stop.token.isStop = true ∧
      (∀ t ∈ (emptyPrint ++ [TokenKind.stop.token]).head?, t.kind ≠ .keyword .elseWord) ∧
      (readProgram (danglingElse ++ (emptyPrint ++ [TokenKind.stop.token])) 7).1 =
        .error [⟨.missingExpression, (TokenKind.mark .semicolon).token⟩] := by
  have inner : ∀ t ∈ danglingElse, t.isStop = false := by decide
  have inner' : ∀ t ∈ emptyPrint, t.isStop = false := by decide
  have clear : ∀ t ∈ (emptyPrint ++ [TokenKind.stop.token]).head?, t.kind ≠ .keyword .elseWord := by decide
  have outer : (bareToken .stop).isStop = true := rfl
  have outer' : TokenKind.stop.token.isStop = true := rfl
  obtain ⟨ss, later, done, -⟩ := readProgram_of_derived inner outer 0 danglingElse_derived
  exact ⟨inner, outer, ⟨ss, later, done⟩, inner', outer', clear,
    readProgram_behind inner outer done inner' outer' clear 0 7⟩

end ScopeScript
