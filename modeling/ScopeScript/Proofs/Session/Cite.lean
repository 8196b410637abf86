import ScopeScript.Session
import ScopeScript.Proofs.Grammar.Exact
import ScopeScript.Proofs.Lexis.Cut
import ScopeScript.Proofs.Lexis.Sorted
import ScopeScript.Proofs.Running.Cite
import ScopeScript.Proofs.Running.Commute

namespace ScopeScript

open Request

-- The text that a problem shows for a token. A fault of syntax has a word for the end, which has no text.
def Problem.shown : Problem → Token → String
  | .syntactic _, t => if t.isStop then "end" else t.lexeme
  | _, t => t.lexeme

def Problem.PointsAt (p : Problem) (t : Token) : Prop :=
  p.position = t.position ∧ p.lexeme? = some (p.shown t)

-- The one problem that no token stands for.
def unflushed : RuntimeFault := ⟨.output .flush, ⟨.stop, "", ⟨0, 0⟩⟩⟩

-- All that a run says is said of known tokens.
def Reply.Cites (known : Token → Prop) (flushFails : Bool) : Reply (List Warning) → Prop
  | .done warnings => ∀ w ∈ warnings, known w.token
  | .rejected problems => ∀ p ∈ problems,
    (∃ t, known t ∧ p.PointsAt t) ∨ p = .runtime unflushed ∧ flushFails = true
  | .unfinished => True

def Resolution.Cites (known : Token → Prop) (resolution : Resolution) : Prop :=
  (∀ f ∈ resolution.faults, known f.token) ∧ ∀ w ∈ resolution.warnings, known w.token

variable {source : String} {ts : List Token}

theorem SyntaxFault.pointsAt (scanned : tokens source = .ok ts) {f : SyntaxFault} (blamed : f.token ∈ ts) :
    (Problem.syntactic f).PointsAt f.token := by
  refine ⟨rfl, congrArg some ?_⟩
  unfold SyntaxFault.lexeme Problem.shown
  rw [tokens_worded scanned f.token blamed]

theorem tokens_cited (scanned : tokens source = .ok ts) (low : RefId) : (Cursor.ofTokens ts low).Cites (· ∈ ts) := by
  obtain ⟨body, stop, rfl, outer, inner, -⟩ := tokens_sorted scanned
  rw [ofTokens_ahead inner outer]
  exact ⟨fun t member => List.mem_append_left _ member, List.mem_append_right _ List.mem_cons_self,
    fun f absent => absurd absent List.not_mem_nil⟩

theorem Machine.start_cites (known : Token → Prop) (sink : Sink) (clock : Nat) :
    (Machine.start sink clock).store.Cites known :=
  Store.bears_cites.mp (Machine.start_bears _ sink clock)

theorem flush_fails {m after : Machine} {f : RuntimeFault} (failed : Running.flush m = .error (.fault f) after) :
    f = unflushed ∧ m.sink.flushFails = true := by
  unfold Running.flush Sink.flush at failed
  cases fails : m.sink.flushFails with
  | false =>
    rw [fails] at failed
    cases failed
  | true =>
    rw [fails] at failed
    cases failed
    exact ⟨rfl, rfl⟩

-- A program is blamed on a token of its own, or on none if the flush at its end fails.
theorem runProgram_cites {known : Token → Prop} {program : List Stmt} (cites : Stmt.CitesAll known program) (fuel : Nat)
    {m after : Machine} (held : m.store.Cites known) {f : RuntimeFault}
    (failed : runProgram fuel program m = .error (.fault f) after) :
    known f.token ∨ f = unflushed ∧ m.sink.flushFails = true := by
  have given := (runs_cite known fuel).stmts cites m held
  have keeps := Stmt.executeAll_keeps fuel program m
  have same : runProgram fuel program m = EStateM.bind (Stmt.executeAll fuel program) (fun _ => Running.flush) m := rfl
  rw [same] at failed
  unfold EStateM.bind at failed
  cases ran : Stmt.executeAll fuel program m with
  | error halt ended =>
    rw [ran] at failed
    simp only [ran] at given
    cases failed
    exact .inl given.2
  | ok flow ended =>
    rw [ran] at failed keeps
    obtain ⟨named, fails⟩ := flush_fails failed
    exact .inr ⟨named, keeps.flushFails ▸ fails⟩

theorem Session.parse_scanned (scanned : tokens source = .ok ts) (s : Session) :
    Session.parse source s = reading readProgram ts s := by
  unfold Session.parse andThen scanning
  rw [scanned]
  rfl

-- From a program that was read on, faults, warnings and what stops the run.
theorem Session.execution_cites {known : Token → Prop} {program : List Stmt} (cites : Stmt.CitesAll known program)
    (fuel : Nat) {s : Session} (held : s.machine.store.Cites known) :
    (((resolve program).andThen fun warnings => (carryOut fuel program).andThen fun _ => reply warnings) s).1.Cites
      known s.machine.sink.flushFails := by
  obtain ⟨faulty, warned⟩ := resolveProgram_cites cites
  unfold resolve carryOut andThen noting accepting
  dsimp only
  cases given : (resolveProgram program).faults with
  | cons first rest =>
    intro p member
    obtain ⟨f, blamed, rfl⟩ := List.mem_map.mp member
    exact .inl ⟨f.token, faulty f (given ▸ blamed), rfl, rfl⟩
  | nil =>
    let m := { s.machine with depths := s.machine.depths.record (resolveProgram program).notes }
    dsimp only [reply, running]
    cases ran : runProgram fuel program m with
    | ok _ after => exact warned
    | error halt after =>
      cases halt with
      | outOfFuel => trivial
      | fault f =>
        intro p member
        rw [List.mem_singleton.mp member]
        rcases runProgram_cites cites fuel (m := m) held ran with blamed | ⟨rfl, fails⟩
        · exact .inl ⟨f.token, blamed, rfl, rfl⟩
        · exact .inr ⟨rfl, fails⟩

-- Whatever is wrong with a source, or worth a warning, is said of one of its tokens: in its text,
-- in its tree, or in code that the run carried elsewhere.
theorem diagnostics_cite (fuel : Nat) (source : String) (sink : Sink) (clock : Nat) :
    match tokens source with
    | .error faults => (Session.run fuel source (.start sink clock)).1 = .rejected (faults.map .lexical)
    | .ok ts => (Session.run fuel source (.start sink clock)).1.Cites (· ∈ ts) sink.flushFails ∧
      ∀ program, (Session.parse source (.start sink clock)).1 = .done program →
        (resolveProgram program).Cites (· ∈ ts) := by
  unfold Session.run
  cases scanned : tokens source with
  | error faults =>
    unfold Session.parse andThen scanning
    rw [scanned]
    rfl
  | ok ts =>
    have cited := readProgram_cites (tokens_cited scanned 0)
    rw [andThen, Session.parse_scanned scanned]
    unfold reading
    dsimp only [Session.start]
    cases read : readProgram ts 0 with
    | mk answer next =>
      rw [read] at cited
      cases answer with
      | error faults =>
        refine ⟨fun p member => .inl ?_, fun program done => nomatch done⟩
        obtain ⟨f, blamed, rfl⟩ := List.mem_map.mp member
        exact ⟨f.token, cited f blamed, f.pointsAt scanned (cited f blamed)⟩
      | ok program =>
        refine ⟨Session.execution_cites cited fuel (Machine.start_cites _ sink clock), fun program' done => ?_⟩
        cases done
        exact resolveProgram_cites cited

end ScopeScript
