import ScopeScript.Proofs.Scoping.Advice
import ScopeScript.Proofs.Session.Respell

namespace ScopeScript

-- The change that a warning asks for: a local variable that nothing refers to goes, or what follows a
-- return does.
inductive Revision.Advised (program : List Stmt) (warnings : List Warning) : Revision → Prop
  | unused {σ : Setting} {t : Token} {initial : Option Expr} (flagged : ⟨.unusedVariable, t⟩ ∈ warnings)
      (inside : (Stmt.root program).Within ⟨σ, .stmt (.var t initial)⟩) (framed : σ.frames ≠ [])
      (idle : initial = none ∨ ∃ value, initial = some (.literal value)) : Advised program warnings (.without t)
  | unreachable {keyword : Token} (flagged : ⟨.unreachableCode, keyword⟩ ∈ warnings) :
      Advised program warnings (.cut keyword)

-- Such a change spells nothing in another way.
structure Revision.Plain (V : Revision) : Prop where
  declare : ∀ t, V.declare t = t
  refer : ∀ i t, V.refer i t = t
  takes : ∀ name, V.takes name = false

namespace Revision.Advised

variable {V : Revision} {program : List Stmt} {warnings : List Warning}

theorem plain (h : V.Advised program warnings) : V.Plain := by
  cases h with
  | unused | unreachable => exact ⟨fun _ => rfl, fun _ _ => rfl, fun _ => rfl⟩

theorem respects (h : V.Advised program (resolveProgram program).warnings) (accepted : Stmt.Accepted program) :
    V.Respects (Stmt.root program) := by
  have warned := resolveProgram_warns accepted.clean.obeys accepted.formed accepted.names
  cases h with
  | unused flagged inside framed idle =>
    rw [warned, List.mem_mergeSort] at flagged
    exact without_respects accepted.clean accepted.names inside framed idle flagged
  | unreachable => exact cut_respects ..

theorem keyed (h : V.Advised program warnings) (accepted : Stmt.Accepted program) : V.Keyed := by
  refine keyed_same h.plain.declare (h.plain.takes _) fun t omitted => ?_
  cases h with
  | unused flagged inside framed idle =>
    cases beq_iff_eq.mp omitted
    exact (inside.proper accepted.proper).code.declares t (List.mem_singleton_self t)
  | unreachable => cases omitted

end Revision.Advised

-- A run that ends shows the same.
theorem Revision.Retells.same {V : Revision} {program : List Stmt} {shown given : Reply Unit × Sink}
    (told : V.Retells program shown given) (refer : ∀ i t, V.refer i t = t) (ended : shown.1 ≠ .unfinished) :
    given = shown := by
  obtain ⟨reply, sink⟩ := shown
  cases reply with
  | done => exact told
  | rejected problems =>
    obtain ⟨⟨cause, token⟩, ⟨cause', token'⟩, rfl, rfl, rfl, ⟨-, rfl⟩ | ⟨-, i, -, token⟩⟩ := told
    · rfl
    · cases token.trans (refer i _)
      rfl
  | unfinished => exact absurd rfl ended

-- An accepted program that follows its own warning is accepted, its references keep their depths, and
-- every run of the program that ends is one of the changed program too.
theorem advice_invisible {sink : Sink} {clock : Nat} {source : String} {read ready : Session} {program : List Stmt}
    {warnings : List Warning} {V : Revision} (parsed : Session.parse source (.start sink clock) = (.done program, read))
    (accepted : Session.resolve program read = (.done warnings, ready)) (advised : V.Advised program warnings) :
    let changed := Stmt.reviseAll V program
    ∃ (warnings' : List Warning) (ready' : Session), Session.resolve changed read = (.done warnings', ready') ∧
      (∀ i ∈ refsOf (Stmt.mentionsAll changed), ready'.machine.depths[i]? = ready.machine.depths[i]?) ∧
      ∀ fuel, (Session.shows fuel program ready).1 ≠ .unfinished →
        Session.shows fuel changed ready' = Session.shows fuel program ready := by
  intro changed
  have known := Session.parse_accepted parsed accepted
  have warned := (Session.resolve_done accepted).2.1
  rw [warned] at advised
  obtain ⟨resolved, kept, -, retells⟩ := (advised.respects known).accepted (advised.keyed known)
    (fun m _ => advised.plain.takes m.token.lexeme) parsed accepted
  exact ⟨_, _, resolved, kept, fun fuel ended =>
    (retells ⟨Nat.le_refl fuel, fun _ => rfl⟩).same advised.plain.refer ended⟩

-- { var a = true; fun f() { print a; var a; return; f(); } f(); }
-- The function prints the variable around it before it has one of that name, and never calls itself.
section

def advisedSource : String := "\x7b var a = true; fun f() \x7b print a; var a; return; f(); \x7d f(); \x7d"

def advisedTokens : List Token :=
  [firstLine 1 (.mark .leftBrace) "\x7b", firstLine 3 (.keyword .varWord) "var", firstLine 7 .identifier "a",
    firstLine 9 (.mark .equal) "=", firstLine 11 (.keyword .trueWord) "true",
    firstLine 15 (.mark .semicolon) ";", firstLine 17 (.keyword .funWord) "fun", firstLine 21 .identifier "f",
    firstLine 22 (.mark .leftParen) "(", firstLine 23 (.mark .rightParen) ")",
    firstLine 25 (.mark .leftBrace) "\x7b", firstLine 27 (.keyword .printWord) "print",
    firstLine 33 .identifier "a", firstLine 34 (.mark .semicolon) ";", firstLine 36 (.keyword .varWord) "var",
    firstLine 40 .identifier "a", firstLine 41 (.mark .semicolon) ";",
    firstLine 43 (.keyword .returnWord) "return", firstLine 49 (.mark .semicolon) ";",
    firstLine 51 .identifier "f", firstLine 52 (.mark .leftParen) "(", firstLine 53 (.mark .rightParen) ")",
    firstLine 54 (.mark .semicolon) ";", firstLine 56 (.mark .rightBrace) "\x7d", firstLine 58 .identifier "f",
    firstLine 59 (.mark .leftParen) "(", firstLine 60 (.mark .rightParen) ")",
    firstLine 61 (.mark .semicolon) ";", firstLine 63 (.mark .rightBrace) "\x7d", firstLine 64 .stop ""]

def advisedTree : List Stmt :=
  [.block [.var (firstLine 7 .identifier "a") (some (.literal .true)),
    .function (.mk (firstLine 21 .identifier "f") []
      [.print (firstLine 27 (.keyword .printWord) "print") (.variable 0 (firstLine 33 .identifier "a")),
        .var (firstLine 40 .identifier "a") none, .giveBack (firstLine 43 (.keyword .returnWord) "return") none,
        .expression (.call (.variable 1 (firstLine 51 .identifier "f")) (firstLine 53 (.mark .rightParen) ")") [])]),
    .expression (.call (.variable 2 (firstLine 58 .identifier "f")) (firstLine 60 (.mark .rightParen) ")") [])]]

theorem advisedTree_read : Session.parse advisedSource (.start .unlimited 0) =
    (.done advisedTree, ⟨.start .unlimited 0, 3⟩) := by
  have scanned : tokens advisedSource = .ok advisedTokens := by decide +kernel
  have given : readProgram advisedTokens 0 = (.ok advisedTree, 3) := by cbv
  exact Session.parse_read scanned given

theorem advisedTree_warned : (resolveProgram advisedTree).warnings =
    [⟨.unusedVariable, firstLine 40 .identifier "a"⟩, ⟨.unreachableCode, firstLine 43 (.keyword .returnWord) "return"⟩] := by
  have found : (Stmt.resolveAll advisedTree .start).warnings.toList =
      [⟨.unreachableCode, firstLine 43 (.keyword .returnWord) "return"⟩,
        ⟨.unusedVariable, firstLine 40 .identifier "a"⟩] := by
    decide +kernel
  unfold resolveProgram Walk.resolution
  dsimp only
  rw [found]
  simp [List.mergeSort, Position.before, firstLine]

-- Without the variable, and without the call behind the return, it prints the same.
theorem advice_invisible_advised :
    let read : Session := ⟨.start .unlimited 0, 3⟩
    let unused := firstLine 40 .identifier "a"
    let behind := firstLine 43 (.keyword .returnWord) "return"
    ∃ ready, Session.resolve advisedTree read = (.done [⟨.unusedVariable, unused⟩, ⟨.unreachableCode, behind⟩], ready) ∧
      ∀ V, V = .without unused ∨ V = .cut behind →
        ∃ warnings' ready', Session.resolve (Stmt.reviseAll V advisedTree) read = (.done warnings', ready') ∧
          (Session.shows 20 (Stmt.reviseAll V advisedTree) ready').1 = .done () ∧
          (Session.shows 20 (Stmt.reviseAll V advisedTree) ready').2.written = "true\n".toUTF8 := by
  intro read unused behind
  have resolved : (Session.resolve advisedTree read).1 = .done [⟨.unusedVariable, unused⟩, ⟨.unreachableCode, behind⟩] := by
    rw [Session.resolve_clean (by decide +kernel), advisedTree_warned]
  have ended : (Session.shows 20 advisedTree (Session.resolve advisedTree read).2).1 = .done () := by decide +kernel
  have written : (Session.shows 20 advisedTree (Session.resolve advisedTree read).2).2.written = "true\n".toUTF8 := by
    decide +kernel
  have block := (Spot.Within.root : (Stmt.root advisedTree).Within _).part List.mem_cons_self
  have body := (block.part List.mem_cons_self).part (List.mem_cons_of_mem _ List.mem_cons_self)
  have function := ((body.part List.mem_cons_self).part List.mem_cons_self).part List.mem_cons_self
  have inside := (function.part (List.mem_cons_of_mem _ List.mem_cons_self)).part List.mem_cons_self
  refine ⟨_, Prod.ext resolved rfl, fun V chosen => ?_⟩
  have advised : V.Advised advisedTree [⟨.unusedVariable, unused⟩, ⟨.unreachableCode, behind⟩] := by
    rcases chosen with rfl | rfl
    · exact .unused List.mem_cons_self inside (List.cons_ne_nil _ _) (.inl rfl)
    · exact .unreachable (List.mem_cons_of_mem _ List.mem_cons_self)
  obtain ⟨warnings', ready', accepted, -, same⟩ := advice_invisible advisedTree_read (Prod.ext resolved rfl) advised
  have shown := same 20 (by rw [ended]; simp)
  exact ⟨warnings', ready', accepted, by rw [shown, ended], by rw [shown, written]⟩

end

end ScopeScript
