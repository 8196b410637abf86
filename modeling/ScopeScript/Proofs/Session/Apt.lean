import ScopeScript.Proofs.Running.Enter
import ScopeScript.Proofs.Session.Manner

namespace ScopeScript

-- Not what the evaluator comes to with an operator of no known kind.
def RuntimeFault.Ordinary (f : RuntimeFault) : Prop := f.cause ≠ .notUnaryOperator ∧ f.cause ≠ .notBinaryOperator

theorem unaryResult_ordinary {operator : Token} {v : Value} {f : RuntimeFault}
    (spelled : operator.kind ∈ unaryOperators) (failed : unaryResult operator v = .error f) : f.Ordinary := by
  unfold unaryResult at failed
  split at failed
  · split at failed <;> cases failed
    exact ⟨nofun, nofun⟩
  · split at failed <;> cases failed
    simp_all [unaryOperators, Token.isMark]

theorem arithmetic_ordinary {operator : Token} {x y : Float} {f : RuntimeFault}
    (spelled : operator.kind ∈ binaryOperators) (plus : operator.kind ≠ .mark .plus) (equal : operator.kind ≠ .mark .equalEqual)
    (unequal : operator.kind ≠ .mark .bangEqual) (failed : arithmetic operator x y = .error f) : f.Ordinary := by
  unfold arithmetic at failed
  split at failed
  case h_3 =>
    split at failed <;> cases failed
    exact ⟨nofun, nofun⟩
  case h_8 => simp_all [binaryOperators]
  all_goals cases failed

theorem binaryResult_ordinary {operator : Token} {a b : Value} {f : RuntimeFault}
    (spelled : operator.kind ∈ binaryOperators) (failed : binaryResult operator a b = .error f) : f.Ordinary := by
  unfold binaryResult at failed
  split at failed
  · cases failed
  · cases failed
  · split at failed <;> cases failed
    exact ⟨nofun, nofun⟩
  case h_4 equal unequal plus =>
    split at failed
    · exact arithmetic_ordinary spelled plus equal unequal failed
    · cases failed
      exact ⟨nofun, nofun⟩

theorem Code.Apt.raises {code : Code} {f : RuntimeFault} (apt : code.Apt) (raises : code.Raises f) : f.Ordinary := by
  cases raises with
  | unary failed => exact unaryResult_ordinary apt failed
  | binary failed => exact binaryResult_ordinary apt failed
  | _ => exact ⟨nofun, nofun⟩

-- The manner is the usual one for operators of the known kinds, and where a body that is ready for
-- its values is entered with them. Elsewhere it is free.
structure Manner.Agrees (M : Manner) (ready : Routine → List Value → Prop) : Prop where
  unary : ∀ operator : Token, operator.kind ∈ unaryOperators → M.unary operator = usual.unary operator
  binary : ∀ operator : Token, operator.kind ∈ binaryOperators → M.binary operator = usual.binary operator
  decides : ∀ operator : Token, operator.kind ∈ logicalOperators → M.decides operator = usual.decides operator
  enter : ∀ r closure values, ready r values → M.enter r closure values = usual.enter r closure values

def Routine.Counted (r : Routine) (values : List Value) : Prop := values.length = r.arity

def Routine.Matched (r : Routine) (values : List Value) : Prop :=
  r.Counted values ∧ (r.parameters.map (·.lexeme)).Nodup

theorem Manner.Agrees.sourced {M : Manner} (h : M.Agrees Routine.Counted) :
    M.Serves Code.Sourced RuntimeFault.Ordinary where
  fits := {
    unary own := h.unary _ own.apt
    binary own := h.binary _ own.apt
    decides own := h.decides _ own.apt
    enter _ counted := h.enter _ _ _ counted }
  inherits := Code.sourced_inherits
  raises own raises := own.apt.raises raises
  flushed := ⟨nofun, nofun⟩
  cleared := Code.Cleared.sourced

theorem Manner.Agrees.cleared {M : Manner} (h : M.Agrees Routine.Matched) :
    M.Serves Code.Cleared RuntimeFault.Ordinary where
  fits := {
    unary own := h.unary _ own.sourced.apt
    binary own := h.binary _ own.sourced.apt
    decides own := h.decides _ own.sourced.apt
    enter own counted := h.enter _ _ _ ⟨counted, own.distinct⟩ }
  inherits := Code.cleared_inherits
  raises own raises := own.sourced.apt.raises raises
  flushed := ⟨nofun, nofun⟩
  cleared := id

-- Trees that are read have operators and names of the right kinds and short lists, everywhere inside.
-- So an evaluator may do what it likes with other operators, and where the values are more or fewer
-- than the parameters: whatever is asked of a session, it comes to the same, and no run fails for an
-- operator. A body that is entered binds every parameter and uses every value.
theorem accepted_apt :
    (∀ (q : Inquiry) (s : Session) (root S : Spot), (q.root s).1 = .done root → root.Within S → S.code.Apt) ∧
    (∀ errands s, Errand.series (Errand.performBy .usual) errands s = Errand.series Errand.perform errands s) ∧
    (∀ (errands : List Errand) sink clock, (∀ errand ∈ errands, errand.Draws Code.Sourced) →
      let asked := Errand.series Errand.perform errands (.start sink clock)
      (∀ M : Manner, M.Agrees Routine.Counted → Errand.series (Errand.performBy M) errands (.start sink clock) = asked) ∧
      ∀ problems f, .rejected problems ∈ asked.1 → .runtime f ∈ problems →
        f.cause ≠ .notUnaryOperator ∧ f.cause ≠ .notBinaryOperator) ∧
    (∀ (errands : List Errand) sink clock, (∀ errand ∈ errands, errand.Draws Code.Cleared) →
      ∀ M : Manner, M.Agrees Routine.Matched → Errand.series (Errand.performBy M) errands (.start sink clock) =
        Errand.series Errand.perform errands (.start sink clock)) ∧
    ∀ (r : Routine) closure values (m : Machine), r.Counted values →
      let pairs := r.parameters.zip values
      pairs.map Prod.fst = r.parameters ∧ pairs.map Prod.snd = values ∧
        ∃ scope after, enterBody r closure values m = .ok scope after ∧
          (∀ t ∈ r.parameters, ∃ v ∈ values, after.store.own? scope t.lexeme = some v) ∧
          (r.Matched values → ∀ pair ∈ pairs, after.store.own? scope pair.1.lexeme = some pair.2) := by
  refine ⟨fun q s root S done inside => ?_, fun errands s => ?_, fun errands sink clock draws => ?_,
    fun errands sink clock draws M agrees => ?_, fun r closure values m counted => ?_⟩
  · exact Code.Sourced.apt ⟨q, s, root, S, done, inside, rfl⟩
  · rw [funext Errand.performBy_usual]
  · have copied := fun (M : Manner) (agrees : M.Agrees Routine.Counted) =>
      Errand.series_copies (fun errand member => agrees.sourced.errand errand (draws errand member))
        (.start sink clock) (Machine.start_bears _ sink clock)
    have usual : Manner.usual.Agrees Routine.Counted :=
      ⟨fun _ _ => rfl, fun _ _ => rfl, fun _ _ => rfl, fun _ _ _ _ => rfl⟩
    exact ⟨fun M agrees => (copied M agrees).1, fun problems f rejected => (copied _ usual).2 _ rejected f⟩
  · exact (Errand.series_copies (fun errand member => agrees.cleared.errand errand (draws errand member))
      (.start sink clock) (Machine.start_bears _ sink clock)).1
  · obtain ⟨scope, after, entered, own⟩ := enterBody_exact r closure values m
    refine ⟨(zip_whole counted).1, (zip_whole counted).2, scope, after, entered,
      fun t member => ?_, fun matched pair member => ?_⟩
    · obtain ⟨v, bound⟩ := Option.isSome_iff_exists.mp (parameterBindings_binds counted member)
      exact ⟨v, (parameterBindings_get? bound).1, (own t.lexeme).trans bound⟩
    · exact (own _).trans (parameterBindings_own counted matched.2 pair member)

end ScopeScript
