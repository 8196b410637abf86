import ScopeScript.Proofs.Scoping.Sorted
import ScopeScript.Proofs.Session.Respell
import ScopeScript.Proofs.Session.Revise

namespace ScopeScript

-- The faults of a source stand in its order exactly where no loop has one in its body and one in a step that is
-- written ahead of the body, as the last clause of a for loop is.
theorem Session.faults_sorted_iff {source : String} {s read : Session} {program : List Stmt}
    (parsed : Session.parse source s = (.done program, read)) :
    (resolveProgram program).faults.Pairwise (fun f g => f.token.position.before g.token.position) ↔
      ∀ S body step, (Stmt.root program).Within S → S.Turns body step →
        ∀ f ∈ body.findings, ∀ g ∈ step.findings, f.token.position.before g.token.position := by
  obtain ⟨body, stop, scanned, -, -, derived, -, -⟩ := Inquiry.root_done (Session.parse_root parsed 0)
  obtain ⟨others, last, same, -, -, sorted⟩ := tokens_sorted scanned
  obtain ⟨rfl, -⟩ := List.append_inj' same rfl
  have late : ∀ f g : StaticFault, ¬ g.token.Earlier f.token ↔ f.token.position.before g.token.position = true :=
    fun _ _ => iff_of_eq (Bool.not_eq_false _)
  cases derived with
  | stmts h =>
    rw [resolveProgram_finds h.formed]
    simpa only [late] using Spot.findings_sorted_iff (Stmt.root program) fun back => (h.walks back).ordered sorted

section

-- for (;; this) nil; break;
def aheadSource : String := "for (;; this) nil; break;"

def aheadTokens : List Token :=
  [firstLine 1 (.keyword .forWord) "for", firstLine 5 (.mark .leftParen) "(", firstLine 6 (.mark .semicolon) ";",
    firstLine 7 (.mark .semicolon) ";", firstLine 9 (.keyword .thisWord) "this", firstLine 13 (.mark .rightParen) ")",
    firstLine 15 (.keyword .nilWord) "nil", firstLine 18 (.mark .semicolon) ";",
    firstLine 20 (.keyword .breakWord) "break", firstLine 25 (.mark .semicolon) ";", firstLine 26 .stop ""]

def aheadTree : List Stmt :=
  [.loop (.literal .true) (.block [.expression (.literal .nil),
      .expression (.this 0 (firstLine 9 (.keyword .thisWord) "this"))]),
    .leave (firstLine 20 (.keyword .breakWord) "break")]

-- The step is at fault and the body is not.
theorem Session.faults_sorted_iff_ahead :
    Session.parse aheadSource (.start .unlimited 0) = (.done aheadTree, ⟨.start .unlimited 0, 1⟩) ∧
      (resolveProgram aheadTree).faults =
        [⟨.thisOutsideClass, firstLine 9 (.keyword .thisWord) "this"⟩,
          ⟨.breakOutsideLoop, firstLine 20 (.keyword .breakWord) "break"⟩] ∧
      ∀ S body step, (Stmt.root aheadTree).Within S → S.Turns body step →
        ∀ f ∈ body.findings, ∀ g ∈ step.findings, f.token.position.before g.token.position := by
  have scanned : tokens aheadSource = .ok aheadTokens := by decide +kernel
  have given : readProgram aheadTokens 0 = (.ok aheadTree, 1) := by cbv
  have parsed : Session.parse aheadSource (.start .unlimited 0) = _ := Session.parse_read scanned given
  refine ⟨parsed, by decide +kernel, (Session.faults_sorted_iff parsed).mp ?_⟩
  decide +kernel

end

section

-- for (;; this) this;
def turnedSource : String := "for (;; this) this;"

def turnedTokens : List Token :=
  [firstLine 1 (.keyword .forWord) "for", firstLine 5 (.mark .leftParen) "(", firstLine 6 (.mark .semicolon) ";",
    firstLine 7 (.mark .semicolon) ";", firstLine 9 (.keyword .thisWord) "this", firstLine 13 (.mark .rightParen) ")",
    firstLine 15 (.keyword .thisWord) "this", firstLine 19 (.mark .semicolon) ";", firstLine 20 .stop ""]

def turnedTree : List Stmt :=
  [.loop (.literal .true) (.block [.expression (.this 1 (firstLine 15 (.keyword .thisWord) "this")),
    .expression (.this 0 (firstLine 9 (.keyword .thisWord) "this"))])]

-- The fault of the body is reported first and stands behind that of the step.
theorem Session.faults_turned :
    Session.parse turnedSource (.start .unlimited 0) = (.done turnedTree, ⟨.start .unlimited 0, 2⟩) ∧
      (resolveProgram turnedTree).faults =
        [⟨.thisOutsideClass, firstLine 15 (.keyword .thisWord) "this"⟩,
          ⟨.thisOutsideClass, firstLine 9 (.keyword .thisWord) "this"⟩] ∧
      ¬ (resolveProgram turnedTree).faults.Pairwise fun f g => f.token.position.before g.token.position := by
  have scanned : tokens turnedSource = .ok turnedTokens := by decide +kernel
  have given : readProgram turnedTokens 0 = (.ok turnedTree, 2) := by cbv
  exact ⟨Session.parse_read scanned given, by decide +kernel, by decide +kernel⟩

end

end ScopeScript
