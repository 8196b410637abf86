import ScopeScript.Proofs.Grammar.Exact
import ScopeScript.Proofs.Grammar.Blame

namespace ScopeScript

open Reading

-- The tokens of a draft with the end behind them.
def Belongs (ts : List Token) : Prop := ∃ body stop softs, ts = body ++ [stop] ∧ stop.isStop = true ∧
  (∀ t ∈ body, t.isStop = false) ∧ Drafts .declarations body softs

def faultsFound : Except (List SyntaxFault) α × RefId → List SyntaxFault
  | (.ok _, _) => []
  | (.error faults, _) => faults

theorem finish_told (result : EStateM.Result SyntaxFault Cursor α) : faultsFound (finish result) = told result := by
  cases result with
  | error f after => rfl
  | ok a after =>
    unfold finish told
    cases found : after.faults with
    | nil => simp [found, faultsFound]
    | cons f more => simp [found, faultsFound]

theorem finish_accuses {result : EStateM.Result SyntaxFault Cursor α} (done : finish result = (.error faults, later)) :
    faults ≠ [] := by
  have told := finish_told result
  rw [done] at told
  rintro rfl
  cases result with
  | error f after => exact absurd (show [] = after.faults ++ [f] from told) (by simp)
  | ok a after =>
    have clean : after.faults = [] := told.symm
    unfold finish at done
    dsimp only at done
    rw [clean] at done
    cases done

theorem declarations_exhaust {fuel : Nat} {c after : Cursor} (done : declarations fuel c = .ok a after) :
    after.ahead = [] := by
  induction fuel generalizing a c with
  | zero => cases done
  | succ fuel ih =>
    have stepped : declarations (fuel + 1) c = (if c.atEnd = true then pure [] else do
        let first ← recovering (declaration fuel)
        return first.toList ++ (← declarations fuel) : Reading (List Stmt)) c := by
      rw [declarations]
      rfl
    rw [stepped] at done
    by_cases ended : c.atEnd = true
    · rw [if_pos ended] at done
      cases done
      exact List.isEmpty_iff.mp ended
    · rw [if_neg ended] at done
      change EStateM.bind (recovering (declaration fuel)) _ c = _ at done
      unfold EStateM.bind at done
      cases first : recovering (declaration fuel) c with
      | error f middle =>
        rw [first] at done
        cases done
      | ok o middle =>
        rw [first] at done
        change EStateM.bind (declarations fuel) _ middle = _ at done
        unfold EStateM.bind at done
        cases others : declarations fuel middle with
        | error f later =>
          rw [others] at done
          cases done
        | ok rest later =>
          rw [others] at done
          cases done
          exact ih others

section

variable {body : List Token} {stop : Token}

theorem readProgram_told (inner : ∀ t ∈ body, t.isStop = false) (outer : stop.isStop = true) (next : RefId) :
    faultsFound (readProgram (body ++ [stop]) next) =
      told (declarations (readingFuel (body ++ [stop])) ⟨body, stop, next, []⟩) := by
  unfold readProgram
  rw [ofTokens_ahead inner outer, finish_told]

theorem readingFuel_enough : 16 * body.length + 16 ≤ readingFuel (body ++ [stop]) := by
  simp only [readingFuel, List.length_append, List.length_cons, List.length_nil]
  omega

theorem declarations_told {fuel : Nat} (h : Drafts .declarations body s) (enough : 16 * body.length + 16 ≤ fuel) :
    told (declarations fuel ⟨body, stop, next, []⟩) = s := by
  obtain ⟨a, later, ran, _⟩ := declarations_note h enough stop next []
  rw [List.append_nil] at ran
  rw [ran]
  rfl

-- A draft is read to its end. Otherwise a hard fault comes first, whatever stands behind the token
-- that it names.
theorem declarations_verdict (body : List Token) (stop : Token) (next : RefId) {fuel : Nat}
    (enough : 16 * body.length + 16 ≤ fuel) :
    Drafts .declarations body (told (declarations fuel ⟨body, stop, next, []⟩)) ∨
      ∃ w rest softs f, body = w ++ rest ∧ Soft softs ∧ f.isHard = true ∧ f.token = rest.headD stop ∧
        (∃ more s, Drafts .declarations (w ++ more) s) ∧ ∀ k, fuel ≤ k → ∀ others : List Token,
          others.head? = rest.head? → softs ++ [f] <+: told (declarations k ⟨w ++ others, stop, next, []⟩) := by
  have short : 16 * body.length + 14 ≤ fuel := by omega
  cases (declarations_locate fuel).outcome ⟨body, stop, next, []⟩ short with
  | @took a w rest softs later split soft known runs =>
    have parts : body = w ++ rest := split
    have ran := runs fuel (Nat.le_refl _) rest rfl
    have ended : rest = [] := declarations_exhaust ran
    subst ended
    rw [List.append_nil] at parts ran
    subst parts
    rw [show declarations fuel ⟨body, stop, next, []⟩ = _ from ran]
    exact .inl known
  | stopped split soft hard place possible runs =>
    obtain ⟨_, more, s, draft⟩ := possible
    exact .inr ⟨_, _, _, _, split, soft, hard, place, ⟨more, s, draft⟩, runs⟩

-- The drafts with nothing to complain about are the programs.
theorem drafts_clean (inner : ∀ t ∈ body, t.isStop = false) :
    Drafts .declarations body [] ↔ ∃ tree, Derives (.declarations tree) body := by
  have outer : TokenKind.stop.token.isStop = true := rfl
  have told := readProgram_told inner outer 0
  constructor
  · intro draft
    rw [declarations_told draft readingFuel_enough] at told
    cases done : readProgram (body ++ [TokenKind.stop.token]) 0 with
    | mk answer later =>
      cases answer with
      | ok tree => exact ⟨tree, readProgram_derived inner outer done⟩
      | error faults =>
        rw [done] at told
        exact absurd told (finish_accuses done)
  · rintro ⟨tree, derived⟩
    obtain ⟨stmts, later, done, _⟩ := readProgram_of_derived inner outer 0 derived
    rw [done] at told
    rcases declarations_verdict body TokenKind.stop.token 0 readingFuel_enough with draft | ⟨w, rest, softs, f, parts, _, _, _, _, runs⟩
    · rwa [← told] at draft
    · have impossible := runs _ (Nat.le_refl _) rest rfl
      rw [← parts, ← told] at impossible
      simp [faultsFound] at impossible

-- Tokens that go on as another list does up to its next token.
theorem body_behind {w rest more others : List Token} {stop' : Token} (inner : ∀ t ∈ rest, t.isStop = false)
    (outer : stop.isStop = true) (inner' : ∀ t ∈ others, t.isStop = false) (outer' : stop'.isStop = true)
    (whole : (w ++ rest ++ [stop]).take (w.length + 1) ++ more = others ++ [stop']) :
    ∃ behind, others = w ++ behind ∧ behind.head? = rest.head? := by
  have cut : (w ++ rest ++ [stop]).take (w.length + 1) = w ++ [rest.headD stop] := by
    rw [List.append_assoc, List.take_length_add_append]
    cases rest <;> rfl
  rw [cut, List.append_assoc, List.singleton_append] at whole
  -- Only the end that closes the other list can stand where the next token stands.
  have next : ∀ behind, others = w ++ behind → (rest.headD stop :: more = behind ++ [stop']) →
      behind.head? = rest.head? := by
    intro behind same last
    cases behind with
    | nil =>
      cases rest with
      | nil => rfl
      | cons t rest =>
        have closing : t = stop' := (List.cons.inj last).1
        rw [← closing, inner t List.mem_cons_self] at outer'
        cases outer'
    | cons u behind =>
      cases rest with
      | cons t rest =>
        cases last
        rfl
      | nil =>
        have opening : stop = u := (List.cons.inj last).1
        rw [opening, inner' u (by simp [same])] at outer
        cases outer
  rcases List.append_eq_append_iff.mp whole with ⟨behind, same, last⟩ | ⟨front, same, last⟩
  · exact ⟨behind, same, next behind same last⟩
  · have empty : front = [] := by
      cases front with
      | nil => rfl
      | cons t front => simp at last
    subst empty
    rw [List.append_nil] at same
    exact ⟨[], by rw [same, List.append_nil], next [] (by rw [same, List.append_nil]) last.symm⟩

end

-- What reading tells of tokens with one end behind them. Of a draft it tells what there is to complain
-- about and nothing else. Of other tokens the first hard fault names the first one with which they
-- cannot go on to be a draft.
theorem syntax_faults_placed (body : List Token) (stop : Token) (next : RefId)
    (inner : ∀ t ∈ body, t.isStop = false) (outer : stop.isStop = true) :
    let tokens := body ++ [stop]
    let found := faultsFound (readProgram tokens next)
    (∀ softs, Drafts .declarations body softs → found = softs ∧ Soft softs) ∧
      (¬Belongs tokens → ∃ k f, tokens[k]? = some f.token ∧ found.find? (·.isHard) = some f ∧
        (∀ more, ¬Belongs (tokens.take (k + 1) ++ more)) ∧
        ∀ j < k, ∃ more, Belongs (tokens.take (j + 1) ++ more)) := by
  intro tokens found
  have enough : 16 * body.length + 16 ≤ readingFuel tokens := readingFuel_enough
  have read : found = told (declarations (readingFuel tokens) ⟨body, stop, next, []⟩) := readProgram_told inner outer next
  refine ⟨fun softs draft => ⟨read.trans (declarations_told draft enough), draft.soft⟩, fun apart => ?_⟩
  rcases declarations_verdict body stop next enough with draft | ⟨w, rest, softs, f, parts, soft, hard, place, possible, runs⟩
  · exact absurd ⟨body, stop, _, rfl, outer, inner, draft⟩ apart
  refine ⟨w.length, f, ?_, ?_, fun more belongs => ?_, fun j before => ?_⟩
  · show (body ++ [stop])[w.length]? = some f.token
    rw [parts, place, List.append_assoc, List.getElem?_append_right (Nat.le_refl _), Nat.sub_self]
    cases rest <;> rfl
  · have first := runs _ (Nat.le_refl _) rest rfl
    rw [← parts, ← read] at first
    obtain ⟨behind, whole⟩ := first
    rw [← whole, List.append_assoc, List.find?_append, List.find?_eq_none.mpr ?_]
    · simp [hard]
    · intro g member
      rw [soft g member]
      decide
  · obtain ⟨others, stop', softs', whole, outer', inner', draft⟩ := belongs
    have closed : ∀ t ∈ rest, t.isStop = false := fun t member => inner t (by simp [parts, member])
    have same : (w ++ rest ++ [stop]).take (w.length + 1) ++ more = others ++ [stop'] := by rw [← parts]; exact whole
    obtain ⟨behind, rfl, heads⟩ := body_behind closed outer inner' outer' same
    let enough := readingFuel tokens + (16 * (w ++ behind).length + 16)
    have noted : told (declarations enough ⟨w ++ behind, stop, next, []⟩) = softs' :=
      declarations_told draft (Nat.le_add_left _ _)
    have impossible := runs enough (Nat.le_add_right _ _) behind heads
    rw [noted] at impossible
    have hardly := draft.soft f (impossible.subset (by simp))
    rw [hard] at hardly
    cases hardly
  · obtain ⟨more, s, draft⟩ := possible
    refine ⟨(w ++ more).drop (j + 1) ++ [stop], w ++ more, stop, s, ?_, outer, draft.unstopped, draft⟩
    have cut : tokens.take (j + 1) = (w ++ more).take (j + 1) := by
      show (body ++ [stop]).take (j + 1) = _
      rw [parts, List.append_assoc, List.take_append_of_le_length (by omega), List.take_append_of_le_length (by omega)]
    rw [cut, ← List.append_assoc, List.take_append_drop]

-- print ;
section

def emptyPrint : List Token := [.keyword .printWord, .mark .semicolon].map TokenKind.token

theorem emptyPrint_told : faultsFound (readProgram (emptyPrint ++ [TokenKind.stop.token]) 0) =
    [⟨.missingExpression, (TokenKind.mark .semicolon).token⟩] := rfl

theorem syntax_faults_placed_emptyPrint :
    (∀ t ∈ emptyPrint, t.isStop = false) ∧ TokenKind.stop.token.isStop = true ∧
      ∀ more, ¬Belongs (emptyPrint ++ more) := by
  have inner : ∀ t ∈ emptyPrint, t.isStop = false := by decide
  have placed := syntax_faults_placed emptyPrint TokenKind.stop.token 0 inner rfl
  dsimp only at placed
  rw [emptyPrint_told] at placed
  have apart : ¬Belongs (emptyPrint ++ [TokenKind.stop.token]) := by
    rintro ⟨body, stop, softs, same, _, _, draft⟩
    obtain ⟨rfl, _⟩ := List.append_inj' same rfl
    obtain ⟨told, soft⟩ := placed.1 softs draft
    have impossible := soft _ (told ▸ List.mem_singleton_self _)
    cases impossible
  obtain ⟨k, f, stands, first, stuck, _⟩ := placed.2 apart
  have fault : f = ⟨.missingExpression, (TokenKind.mark .semicolon).token⟩ := (Option.some.inj first).symm
  rw [fault] at stands
  have second : k = 1 := by
    match k, stands with
    | 0, stands => exact absurd stands (by decide)
    | 1, _ => rfl
    | 2, stands => exact absurd stands (by decide)
    | k + 3, stands => simp [emptyPrint] at stands
  subst second
  exact ⟨inner, rfl, stuck⟩

end

end ScopeScript
