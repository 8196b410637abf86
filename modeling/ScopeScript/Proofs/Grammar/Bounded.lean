import Mathlib.Data.List.TakeWhile
import ScopeScript.Proofs.Grammar.Settled
import ScopeScript.Proofs.Grammar.Verdict

namespace ScopeScript

open Reading

-- Tokens whose last one is an end. One is added where it is missing.
def ended (tokens : List Token) : List Token :=
  match tokens.getLast? with
  | some t => if t.isStop then tokens else tokens ++ [⟨.stop, "", t.position⟩]
  | none => [⟨.stop, "", .start⟩]

theorem ended_extends (tokens : List Token) : ∃ more, ended tokens = tokens ++ more := by
  unfold ended
  split
  · split
    · exact ⟨[], (List.append_nil _).symm⟩
    · exact ⟨_, rfl⟩
  · rename_i none
    rw [List.getLast?_eq_none_iff.mp none]
    exact ⟨_, rfl⟩

theorem firstStop_behind {front : List Token} (unended : ∀ t ∈ front, t.isStop = false) {stop : Token}
    (stops : stop.isStop = true) (behind : List Token) :
    (front ++ stop :: behind).findIdx (·.isStop) = front.length := by
  have none : ¬∃ t ∈ front, t.isStop = true := by
    rintro ⟨t, member, found⟩
    rw [unended t member] at found
    cases found
  rw [List.findIdx_append, if_neg (fun found => none (List.findIdx_lt_length.mp found)), List.findIdx_cons, stops]
  exact Nat.zero_add _

-- The cursor stands at an index of the tokens. No end is in front of it or among the tokens ahead,
-- and the first end stands behind those.
structure Cursor.Stands (tokens : List Token) (current : Nat) (c : Cursor) : Prop where
  here : ∃ behind, tokens.drop current = c.ahead ++ c.stop :: behind
  unended : ∀ t ∈ tokens.take current ++ c.ahead, t.isStop = false
  stop : c.stop.isStop = true

namespace Cursor.Stands

variable {tokens : List Token} {current : Nat} {c after : Cursor}

theorem bounds (h : c.Stands tokens current) : tokens[current]? = some c.peek ∧
    current ≤ tokens.findIdx (·.isStop) ∧ tokens.findIdx (·.isStop) < tokens.length := by
  obtain ⟨behind, here⟩ := h.here
  have inside : current < tokens.length := by
    refine Nat.lt_of_not_le fun beyond => ?_
    rw [List.drop_eq_nil_of_le beyond] at here
    simp at here
  have whole : tokens.take current ++ c.ahead ++ c.stop :: behind = tokens := by
    rw [List.append_assoc, ← here, List.take_append_drop]
  have first := firstStop_behind h.unended h.stop behind
  rw [whole, List.length_append, List.length_take, Nat.min_eq_left (Nat.le_of_lt inside)] at first
  refine ⟨?_, by omega, List.findIdx_lt_length.mpr ⟨c.stop, ?_, h.stop⟩⟩
  · have head : (tokens.drop current)[0]? = some c.peek := by
      rw [here]
      unfold Cursor.peek
      cases c.ahead <;> rfl
    rwa [List.getElem?_drop, Nat.add_zero] at head
  · rw [← whole]
    exact List.mem_append_right _ List.mem_cons_self

-- What a cursor passes moves its index on.
theorem passes (h : c.Stands tokens current) (passed : Cursor.Passes least c after) :
    ∃ later, current + least ≤ later ∧ after.Stands tokens later := by
  obtain ⟨behind, here⟩ := h.here
  obtain ⟨taken, split, long, same⟩ := passed
  have parts : tokens.drop current = taken ++ (after.ahead ++ after.stop :: behind) := by
    rw [here, split, same, List.append_assoc]
  refine ⟨current + taken.length, by omega, ⟨behind, ?_⟩, ?_, same ▸ h.stop⟩
  · rw [← List.drop_drop, parts, List.drop_left]
  · rw [List.take_add, parts, List.take_left, List.append_assoc, ← split]
    exact h.unended

end Cursor.Stands

theorem ofTokens_stands (tokens : List Token) (next : RefId) :
    (Cursor.ofTokens tokens next).Stands (ended tokens) 0 := by
  have unended : ∀ t ∈ tokens.takeWhile (!·.isStop), t.isStop = false := fun t member => by
    simpa using List.all_eq_true.mp List.all_takeWhile t member
  have found : tokens.find? (·.isStop) = (tokens.dropWhile (!·.isStop)).head? := List.find?_eq_head?_dropWhile_not ..
  have whole := List.takeWhile_append_dropWhile (p := (!·.isStop)) (l := tokens)
  cases dropped : tokens.dropWhile (!·.isStop) with
  | cons t behind =>
    rw [dropped] at found whole
    obtain ⟨more, same⟩ := ended_extends tokens
    have first : t.isStop = true := List.find?_some found
    refine ⟨⟨behind ++ more, ?_⟩, unended, ?_⟩
    · show ended tokens = tokens.takeWhile (!·.isStop) ++ ((tokens.find? (·.isStop)).getD _) :: (behind ++ more)
      rw [same, found]
      conv => lhs; rw [← whole]
      simp
    · show ((tokens.find? (·.isStop)).getD _).isStop = true
      rw [found]
      exact first
  | nil =>
    rw [dropped] at found whole
    rw [List.append_nil] at whole
    refine ⟨⟨[], ?_⟩, unended, ?_⟩
    · show ended tokens = tokens.takeWhile (!·.isStop) ++ [(tokens.find? (·.isStop)).getD _]
      rw [found, whole]
      unfold ended
      cases last : tokens.getLast? with
      | none =>
        rw [List.getLast?_eq_none_iff.mp last]
        rfl
      | some t =>
        have inside : t.isStop = false := unended t (whole.symm ▸ List.mem_of_getLast? last)
        simp [inside]
    · show ((tokens.find? (·.isStop)).getD _).isStop = true
      rw [found]
      rfl

-- Enough fuel for the tokens of a reading and for the readers that need the most before the first one.
theorem readingFuel_covers (tokens : List Token) (next : RefId) :
    16 * (Cursor.ofTokens tokens next).ahead.length + 14 ≤ readingFuel tokens := by
  have fewer : (tokens.takeWhile (!·.isStop)).length ≤ tokens.length := (List.takeWhile_sublist _).length_le
  show 16 * (tokens.takeWhile (!·.isStop)).length + 14 ≤ 16 * (tokens.length + 1)
  omega

-- With enough fuel for the tokens ahead a procedure comes to an end: it does not run out of fuel, and
-- more fuel makes no difference.
theorem Procedure.ends (p : Procedure α) (small : p.need ≤ 14) {c : Cursor} (fresh : c.faults = []) {fuel : Nat}
    (enough : 16 * c.ahead.length + 14 ≤ fuel) :
    Shallow (faultsFound (finish (p.read fuel c))) ∧ ∀ more, fuel ≤ more → p.read more c = p.read fuel c := by
  have settles : SettlesAt 14 fuel 0 p.read c := (readers_settle fuel p c).within small (Nat.zero_le _)
  refine ⟨?_, settles.steady enough⟩
  rw [finish_told]
  exact settles.shallow enough (fresh ▸ .nil)

variable {tokens : List Token} {current : Nat} {c : Cursor}

theorem Procedure.goes_onward (p : Procedure α) (fuel : Nat) (h : c.Stands tokens current) :
    ∃ later, current ≤ later ∧ (reached (p.read fuel c)).Stands tokens later :=
  h.passes (readers_settle fuel p c).onward

namespace Loop

-- Only a method at fault ends its loop.
def recovers : Loop α → Bool
  | program => true
  | block => true
  | classBody => false

theorem recovers_ok {l : Loop α} (recovers : l.recovers = true) (fuel : Nat) (c : Cursor) :
    ∃ entries after, l.round fuel c = .ok entries after := by
  have sentence : ∃ entries after,
      (do return (← recovering (declaration fuel)).toList : Reading (List Stmt)) c = .ok entries after := by
    show ∃ entries after, EStateM.bind (recovering (declaration fuel)) _ c = .ok entries after
    unfold EStateM.bind recovering
    cases declaration fuel c with
    | ok value after => exact ⟨_, _, rfl⟩
    | error fault after => exact ⟨_, _, rfl⟩
  cases l with
  | program => exact sentence
  | block => exact sentence
  | classBody => cases recovers

theorem round_advances {l : Loop α} {fuel : Nat} {entries : List α} {after : Cursor} (h : c.Stands tokens current)
    (goes : l.goesOn c = true) (done : l.round fuel c = .ok entries after) :
    ∃ later, current < later ∧ after.Stands tokens later :=
  h.passes ((round_settles (readers_settle fuel) goes).takes entries after done)

end Loop

-- A reading of any tokens comes to an end. At any time it stands at an index that is in range and not
-- behind the first end, no reader moves it back, and every round after which a loop goes on moves it
-- forward, also one that recovered from a fault.
theorem reading_bounded (tokens : List Token) (next : RefId) :
    (Shallow (faultsFound (readProgram tokens next)) ∧ Shallow (faultsFound (readExpression tokens next)) ∧
      ∀ fuel, readingFuel tokens ≤ fuel →
        finish (declarations fuel (.ofTokens tokens next)) = readProgram tokens next ∧
        finish (wholeExpression fuel (.ofTokens tokens next)) = readExpression tokens next) ∧
      (Cursor.ofTokens tokens next).Stands (ended tokens) 0 ∧
      ∀ (c : Cursor) (current : Nat), c.Stands (ended tokens) current →
        ((ended tokens)[current]? = some c.peek ∧ current ≤ (ended tokens).findIdx (·.isStop) ∧
          (ended tokens).findIdx (·.isStop) < (ended tokens).length) ∧
        (∀ {α : Type} (p : Procedure α) (fuel : Nat),
          ∃ later, current ≤ later ∧ (reached (p.read fuel c)).Stands (ended tokens) later) ∧
        ∀ {α : Type} (l : Loop α) (fuel : Nat), l.goesOn c = true →
          l.procedure.read (fuel + 1) c =
            (do return (← l.round fuel) ++ (← l.procedure.read fuel) : Reading (List α)) c ∧
          (l.recovers = true → ∃ entries after, l.round fuel c = .ok entries after) ∧
          ∀ entries after, l.round fuel c = .ok entries after →
            ∃ later, current < later ∧ after.Stands (ended tokens) later := by
  have enough := readingFuel_covers tokens next
  have program := Procedure.declarations.ends (by simp) rfl enough
  have expression := Procedure.wholeExpression.ends (by simp) rfl enough
  refine ⟨⟨program.1, expression.1, fun fuel more => ?_⟩, ofTokens_stands tokens next, fun c current stands => ?_⟩
  · exact ⟨congrArg finish (program.2 fuel more), congrArg finish (expression.2 fuel more)⟩
  · refine ⟨stands.bounds, fun p fuel => p.goes_onward fuel stands, fun l fuel goes => ?_⟩
    refine ⟨?_, fun recovers => Loop.recovers_ok recovers fuel c, fun entries after done => ?_⟩
    · rw [l.unroll, if_pos goes]
    · exact Loop.round_advances stands goes done

end ScopeScript
