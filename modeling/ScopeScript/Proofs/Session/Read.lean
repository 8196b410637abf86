import ScopeScript.Proofs.Grammar.Exact
import ScopeScript.Proofs.Grammar.Numbered
import ScopeScript.Proofs.Lexis.Cut
import ScopeScript.Proofs.Lexis.Sorted
import ScopeScript.Proofs.Scoping.Place
import ScopeScript.Proofs.Scoping.Proper
import ScopeScript.Proofs.Session.Chronicle

namespace ScopeScript

open Request

theorem Request.reading_andThen (reader : List Token → RefId → Except (List SyntaxFault) α × RefId) (f : α → β)
    (ts : List Token) : ((reading reader ts).andThen fun result => reply (f result)) =
      reading (fun ts low => ((reader ts low).1.map f, (reader ts low).2)) ts := by
  funext s
  unfold andThen reading
  dsimp only
  cases reader ts s.nextRef with
  | mk answer next => cases answer <;> rfl

-- Code that stands for a list of tokens.
inductive Code.Derived : Code → List Token → Prop where
  | stmts {program : List Stmt} {w : List Token} (h : Derives (.declarations program) w) : Derived (.stmts program) w
  | expr {e : Expr} {w : List Token} (h : Derives (.expression e) w) : Derived (.expr e) w

namespace Code.Derived

variable {code : Code} {w : List Token}

theorem ordered (h : code.Derived w) (sorted : w.Pairwise Token.Earlier) : code.Ordered := by
  cases h with
  | stmts h => exact (h.placed sorted).1
  | expr h => exact (h.placed sorted).1

theorem spelled (h : code.Derived w) (words : ∀ t ∈ w, t.Spelled) : code.Spelled := by
  cases h with
  | stmts h => exact h.spelled words
  | expr h => exact h.spelled words

end Code.Derived

namespace Inquiry

def source : Inquiry → String
  | run _ source => source
  | evaluate _ source => source

-- A run reads a program, an evaluation an expression.
def read (q : Inquiry) (ts : List Token) (low : RefId) : Except (List SyntaxFault) Spot × RefId :=
  match q with
  | run _ _ => ((readProgram ts low).1.map fun program => ⟨.outermost, .stmts program⟩, (readProgram ts low).2)
  | evaluate _ _ => ((readExpression ts low).1.map fun e => ⟨.outermost, .expr e⟩, (readExpression ts low).2)

theorem root_exact (q : Inquiry) : q.root = (scanning q.source).andThen (reading q.read) := by
  cases q with
  | run fuel source =>
    show ((scanning source).andThen (reading readProgram)).andThen _ = _
    rw [andThen_assoc]
    exact congrArg _ (funext fun ts => reading_andThen readProgram _ ts)
  | evaluate fuel source =>
    show ((scanning source).andThen (reading readExpression)).andThen _ = _
    rw [andThen_assoc]
    exact congrArg _ (funext fun ts => reading_andThen readExpression _ ts)

variable {q : Inquiry} {ts body : List Token} {stop : Token} {low high : RefId} {root : Spot}

theorem read_grows (q : Inquiry) (ts : List Token) (low : RefId) : low ≤ (q.read ts low).2 := by
  cases q with
  | run => exact (readProgram_numbered ts low).1
  | evaluate => exact (readExpression_numbered ts low).1

theorem read_ok (given : q.read ts low = (.ok root, high)) :
    (∃ program, readProgram ts low = (.ok program, high) ∧ root = ⟨.outermost, .stmts program⟩) ∨
      ∃ e, readExpression ts low = (.ok e, high) ∧ root = ⟨.outermost, .expr e⟩ := by
  cases q with
  | run =>
    dsimp only [read] at given
    cases result : readProgram ts low with
    | mk answer next =>
      rw [result] at given
      cases answer with
      | error faults => cases given
      | ok program =>
        cases given
        exact .inl ⟨program, rfl, rfl⟩
  | evaluate =>
    dsimp only [read] at given
    cases result : readExpression ts low with
    | mk answer next =>
      rw [result] at given
      cases answer with
      | error faults => cases given
      | ok e =>
        cases given
        exact .inr ⟨e, rfl, rfl⟩

theorem read_numbered (given : q.read ts low = (.ok root, high)) : Numbered low high (refsOf root.code.mentions) := by
  rcases read_ok given with ⟨program, result, rfl⟩ | ⟨e, result, rfl⟩
  · have numbered := (readProgram_numbered ts low).2
    rw [result] at numbered
    exact numbered program rfl
  · have numbered := (readExpression_numbered ts low).2
    rw [result] at numbered
    exact numbered e rfl

theorem read_derived (inner : ∀ t ∈ body, t.isStop = false) (outer : stop.isStop = true)
    (given : q.read (body ++ [stop]) low = (.ok root, high)) :
    root.setting = .outermost ∧ root.code.Derived body := by
  rcases read_ok given with ⟨program, result, rfl⟩ | ⟨e, result, rfl⟩
  · exact ⟨rfl, .stmts (readProgram_derived inner outer result)⟩
  · exact ⟨rfl, .expr (readExpression_derived inner outer result)⟩

-- Reading hands out ids upwards and changes nothing else about the session.
theorem root_grows (q : Inquiry) (s : Session) : s.nextRef ≤ (q.root s).2.nextRef := by
  rw [q.root_exact]
  unfold andThen scanning
  cases tokens q.source with
  | error faults => exact Nat.le_refl _
  | ok ts =>
    have grows := q.read_grows ts s.nextRef
    dsimp only [Request.ofExcept, reply, reading]
    cases given : q.read ts s.nextRef with
    | mk answer next =>
      rw [given] at grows
      cases answer <;> exact grows

-- What is read stands for the tokens of the source.
theorem root_done {s after : Session} (done : q.root s = (.done root, after)) :
    ∃ body stop, tokens q.source = .ok (body ++ [stop]) ∧ (∀ t ∈ body, t.isStop = false) ∧
      root.setting = .outermost ∧ root.code.Derived body ∧
      Numbered s.nextRef after.nextRef (refsOf root.code.mentions) ∧ after.machine = s.machine := by
  rw [q.root_exact] at done
  unfold andThen scanning at done
  cases scanned : tokens q.source with
  | error faults =>
    rw [scanned] at done
    cases done
  | ok ts =>
    rw [scanned] at done
    obtain ⟨body, stop, rfl, outer, inner, -⟩ := tokens_sorted scanned
    dsimp only [Request.ofExcept, reply, reading] at done
    cases given : q.read (body ++ [stop]) s.nextRef with
    | mk answer next =>
      rw [given] at done
      cases answer with
      | error faults => cases done
      | ok root =>
        cases done
        obtain ⟨outermost, derived⟩ := read_derived inner outer given
        exact ⟨body, stop, rfl, inner, outermost, derived, read_numbered given, rfl⟩

end Inquiry

-- Code as it comes from a reader: outside every region, in the order of its source, with ids of
-- its own.
structure Spot.Fresh (root : Spot) (low high : RefId) : Prop where
  outermost : root.setting = .outermost
  ordered : root.code.Ordered
  spelled : root.code.Spelled
  numbered : Numbered low high (refsOf root.code.mentions)

theorem Inquiry.root_fresh (q : Inquiry) (s : Session) : s.nextRef ≤ (q.root s).2.nextRef ∧
    ∀ root, (q.root s).1 = .done root → root.Fresh s.nextRef (q.root s).2.nextRef := by
  refine ⟨q.root_grows s, fun root done => ?_⟩
  obtain ⟨body, stop, scanned, inner, outermost, derived, numbered, -⟩ := root_done (Prod.ext done rfl)
  obtain ⟨others, last, same, -, -, sorted⟩ := tokens_sorted scanned
  obtain ⟨rfl, -⟩ := List.append_inj' same rfl
  have words := tokens_spelled scanned
  exact ⟨outermost, derived.ordered sorted, derived.spelled fun t member => words t (List.mem_append_left _ member),
    numbered⟩

namespace Session

variable {source : String} {s read : Session}

theorem parse_root {program : List Stmt} (parsed : parse source s = (.done program, read)) (fuel : Nat) :
    (Inquiry.run fuel source).root s = (.done ⟨.outermost, .stmts program⟩, read) := by
  show (parse source).andThen _ s = _
  unfold andThen
  rw [parsed]
  rfl

theorem parse_grows {program : List Stmt} (parsed : parse source s = (.done program, read)) :
    s.nextRef ≤ read.nextRef := by
  have grows := ((Inquiry.run 0 source).root_fresh s).1
  rwa [parse_root parsed] at grows

theorem parse_fresh {program : List Stmt} (parsed : parse source s = (.done program, read)) :
    Spot.Fresh ⟨.outermost, .stmts program⟩ s.nextRef read.nextRef := by
  have fresh := ((Inquiry.run 0 source).root_fresh s).2
  rw [parse_root parsed] at fresh
  exact fresh _ rfl

theorem parseExpression_root {e : Expr} (parsed : parseExpression source s = (.done e, read)) (fuel : Nat) :
    (Inquiry.evaluate fuel source).root s = (.done ⟨.outermost, .expr e⟩, read) := by
  show (parseExpression source).andThen _ s = _
  unfold andThen
  rw [parsed]
  rfl

theorem parseExpression_grows {e : Expr} (parsed : parseExpression source s = (.done e, read)) :
    s.nextRef ≤ read.nextRef := by
  have grows := ((Inquiry.evaluate 0 source).root_fresh s).1
  rwa [parseExpression_root parsed] at grows

theorem parseExpression_fresh {e : Expr} (parsed : parseExpression source s = (.done e, read)) :
    Spot.Fresh ⟨.outermost, .expr e⟩ s.nextRef read.nextRef := by
  have fresh := ((Inquiry.evaluate 0 source).root_fresh s).2
  rw [parseExpression_root parsed] at fresh
  exact fresh _ rfl

end Session

end ScopeScript
