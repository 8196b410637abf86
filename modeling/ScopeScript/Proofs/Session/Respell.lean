import ScopeScript.Proofs.Scoping.Respell
import ScopeScript.Proofs.Session.Revise

namespace ScopeScript

-- The fault that stops the program with the new name. It has the name where what is undefined is a
-- reference that leads to the declaration.
def RuntimeFault.respell (root : Spot) (t : Token) (name : String) (f : RuntimeFault) : RuntimeFault :=
  if f.cause = .undefinedVariable ∧ ∃ link ∈ root.linking, link.name = f.token ∧ link.declared = t then
    { f with token := { f.token with lexeme := name } }
  else f

def Problem.respell (root : Spot) (t : Token) (name : String) : Problem → Problem
  | .runtime f => .runtime (f.respell root t name)
  | problem => problem

def Reply.respell (root : Spot) (t : Token) (name : String) : Reply α → Reply α
  | .rejected problems => .rejected (problems.map (Problem.respell root t name))
  | reply => reply

namespace Revision.respell

variable {root : Spot} {t : Token} {name : String}

theorem key (region : Region) {other : String} (apart : other ≠ name) :
    (respell root t name).key region other =
      some (if (region.declares.find? (·.lexeme == other)) = some t then name else other) := by
  have plain : (respell root t name).takes other = false := beq_eq_false_iff_ne.mpr apart
  unfold Revision.key
  rw [plain, if_neg Bool.false_ne_true]
  cases found : region.declares.find? (·.lexeme == other) with
  | none => rfl
  | some u =>
    by_cases here : u = t
    · subst here
      rw [if_pos rfl]
      exact congrArg (fun v => some v.lexeme) declare_self
    · rw [if_neg fun same => here (Option.some.inj same), ← key_spelled found]
      exact congrArg (fun v => some v.lexeme) (declare_other here)

theorem key_taken (region : Region) : (respell root t name).key region name = none := by
  unfold Revision.key
  rw [show (respell root t name).takes name = true from beq_self_eq_true name, if_pos rfl]

-- Nothing but the declared name gets the new one.
theorem keyed (free : t.Free) (plain : name ≠ receiverName) : (respell root t name).Keyed where
  single region := by
    intro n n' m first second
    have apart : n ≠ name := fun same => by rw [same, key_taken] at first; cases first
    have apart' : n' ≠ name := fun same => by rw [same, key_taken] at second; cases second
    rw [key region apart] at first
    rw [key region apart', ← first] at second
    have same := Option.some.inj second
    split at same
    · have here : t.lexeme = n' := key_spelled ‹_›
      split at same
      · exact (key_spelled ‹_›).symm.trans here
      · exact absurd same.symm apart
    · split at same
      · exact absurd same apart'
      · exact same.symm
  receiver region := by
    rw [key region plain.symm, if_neg fun found => free (key_spelled found)]

-- What is undefined is spelled as the reference is.
theorem reports {program : List Stmt} {f f' : RuntimeFault}
    (single : (tokensOf (Stmt.root program).code.mentions).Nodup)
    (reported : (respell (Stmt.root program) t name).Reports program f f') :
    f' = f.respell (Stmt.root program) t name := by
  obtain ⟨cause, token⟩ := f
  obtain ⟨cause', token'⟩ := f'
  obtain ⟨rfl, ⟨other, same⟩ | ⟨rfl, i, mentioned, same⟩⟩ := reported
  · cases same
    exact (if_neg fun both => other both.1).symm
  · rw [show token' = _ from same]
    -- The token is at one place only, so the link is that of the reference.
    have one : (∃ link ∈ (Stmt.root program).linking, link.name = token ∧ link.declared = t) ↔
        ⟨i, token, t⟩ ∈ (Stmt.root program).linking := by
      refine ⟨fun ⟨link, member, here, there⟩ => ?_, fun member => ⟨_, member, rfl, rfl⟩⟩
      obtain ⟨σ, e, inside, refers, -⟩ := Spot.mem_linking.mp member
      have known : ⟨link.name, some link.ref⟩ ∈ (Stmt.root program).code.mentions := inside.mentions _ refers.mentioned
      have same : (⟨link.name, some link.ref⟩ : Mention) = ⟨token, some i⟩ :=
        List.inj_on_of_nodup_map single known mentioned here
      cases same
      cases there
      exact member
    unfold RuntimeFault.respell
    simp only [one, true_and]
    show RuntimeFault.mk _ (if _ then _ else _) = _
    split <;> rfl

theorem retold {program : List Stmt} {shown given : Reply Unit × Sink}
    (single : (tokensOf (Stmt.root program).code.mentions).Nodup)
    (told : (respell (Stmt.root program) t name).Retells program shown given) :
    given = (shown.1.respell (Stmt.root program) t name, shown.2) := by
  obtain ⟨reply, sink⟩ := shown
  cases reply with
  | done => exact told
  | rejected problems =>
    obtain ⟨f, f', rfl, same, reported⟩ := told
    rw [same, reports single reported]
    rfl
  | unfinished => exact told fun _ => rfl

end Revision.respell

section

variable {sink : Sink} {clock : Nat} {source : String} {read ready : Session} {program : List Stmt}
  {warnings : List Warning} {t : Token} {name : String}

-- A local declaration and the references that lead to it get a name that is nowhere in the program.
theorem renamed_local_invisible (parsed : Session.parse source (.start sink clock) = (.done program, read))
    (accepted : Session.resolve program read = (.done warnings, ready)) (slot : (Stmt.root program).Slot t)
    (fresh : ∀ m ∈ Stmt.mentionsAll program, m.token.lexeme ≠ name) (plain : name ≠ receiverName) :
    let V := Revision.respell (Stmt.root program) t name
    let changed := Stmt.reviseAll V program
    ∃ ready' : Session, Session.resolve changed read = (.done (warnings.map (Warning.revise V)), ready') ∧
      (∀ i : RefId, ready'.machine.depths[i]? = ready.machine.depths[i]?) ∧
      ∀ fuel, Session.shows fuel changed ready' =
        ((Session.shows fuel program ready).1.respell (Stmt.root program) t name, (Session.shows fuel program ready).2) := by
  intro V changed
  have known := Session.parse_accepted parsed accepted
  have respects : V.Respects (Stmt.root program) :=
    Revision.respell.respects slot known.proper known.names known.refs fresh plain
  have whole : V.Whole := Revision.respell.whole ..
  have keyed : V.Keyed := Revision.respell.keyed (slot.free known.proper) plain
  have bare : ∀ m ∈ (Stmt.root program).code.mentions, V.takes m.token.lexeme = false := fun m member =>
    beq_eq_false_iff_ne.mpr (fresh m member)
  obtain ⟨resolved, kept, others, retells⟩ := respects.accepted keyed bare parsed accepted
  refine ⟨read.tabled changed, ?_, fun i => ?_, fun fuel => ?_⟩
  · rw [resolved, (Session.resolve_done accepted).2.1, respects.warnings_whole whole known.clean.obeys
      known.clean.ordered known.formed known.names Revision.respell.placed (Revision.respell.injective fresh)]
  · by_cases there : i ∈ refsOf (Stmt.mentionsAll changed)
    · exact kept i there
    · rw [others i there]
      have absent : i ∉ refsOf (Stmt.mentionsAll program) := fun before =>
        there ((respects.refs_whole whole .root i).mpr before)
      obtain ⟨-, -, rfl⟩ := Session.resolve_done accepted
      refine ((recorded_other _ absent).trans ?_).symm
      rw [Session.parse_machine parsed]
      exact Std.TreeMap.getElem?_emptyc
  · exact Revision.respell.retold known.tokens (retells ⟨Nat.le_refl fuel, fun _ => rfl⟩)

end

-- { print true; var a = fun () { return a; } (); }
-- The call looks the variable up before it is there.
section

def earlySource : String := "\x7b print true; var a = fun () \x7b return a; \x7d (); \x7d"

def firstLine (column : Nat) (kind : TokenKind) (lexeme : String) : Token := ⟨kind, lexeme, ⟨1, column⟩⟩

def earlyTokens : List Token :=
  [firstLine 1 (.mark .leftBrace) "\x7b", firstLine 3 (.keyword .printWord) "print",
    firstLine 9 (.keyword .trueWord) "true", firstLine 13 (.mark .semicolon) ";",
    firstLine 15 (.keyword .varWord) "var", firstLine 19 .identifier "a", firstLine 21 (.mark .equal) "=",
    firstLine 23 (.keyword .funWord) "fun", firstLine 27 (.mark .leftParen) "(", firstLine 28 (.mark .rightParen) ")",
    firstLine 30 (.mark .leftBrace) "\x7b", firstLine 32 (.keyword .returnWord) "return",
    firstLine 39 .identifier "a", firstLine 40 (.mark .semicolon) ";", firstLine 42 (.mark .rightBrace) "\x7d",
    firstLine 44 (.mark .leftParen) "(", firstLine 45 (.mark .rightParen) ")", firstLine 46 (.mark .semicolon) ";",
    firstLine 48 (.mark .rightBrace) "\x7d", firstLine 49 .stop ""]

def earlyTree : List Stmt :=
  [.block [.print (firstLine 3 (.keyword .printWord) "print") (.literal .true),
    .var (firstLine 19 .identifier "a") (some (.call
      (.lambda (.mk (firstLine 23 (.keyword .funWord) "fun") []
        [.giveBack (firstLine 32 (.keyword .returnWord) "return") (some (.variable 0 (firstLine 39 .identifier "a")))]))
      (firstLine 45 (.mark .rightParen) ")") []))]]

theorem earlyTree_read : Session.parse earlySource (.start .unlimited 0) =
    (.done earlyTree, ⟨.start .unlimited 0, 1⟩) := by
  have scanned : tokens earlySource = .ok earlyTokens := by decide +kernel
  have given : readProgram earlyTokens 0 = (.ok earlyTree, 1) := by cbv
  exact Session.parse_read scanned given

-- The reference in the function leads to the variable around it.
theorem earlyTree_links : ⟨0, firstLine 39 .identifier "a", firstLine 19 .identifier "a"⟩ ∈ (Stmt.root earlyTree).linking := by
  have block := (Spot.Within.root : (Stmt.root earlyTree).Within _).part List.mem_cons_self
  have body := (block.part List.mem_cons_self).part (List.mem_cons_of_mem _ List.mem_cons_self)
  have call := (body.part List.mem_cons_self).part List.mem_cons_self
  have function := (call.part List.mem_cons_self).part List.mem_cons_self
  have result := (function.part List.mem_cons_self).part List.mem_cons_self
  exact Spot.mem_linking.mpr ⟨_, _, result.part List.mem_cons_self, .look, by decide +kernel⟩

theorem renamed_local_invisible_early :
    let read : Session := ⟨.start .unlimited 0, 1⟩
    let changed := Stmt.reviseAll (.respell (Stmt.root earlyTree) (firstLine 19 .identifier "a") "b") earlyTree
    ∃ ready ready', Session.resolve earlyTree read = (.done [], ready) ∧ Session.resolve changed read = (.done [], ready') ∧
      (Session.shows 20 earlyTree ready).1 =
        .rejected [.runtime ⟨.undefinedVariable, firstLine 39 .identifier "a"⟩] ∧
      (Session.shows 20 changed ready').1 =
        .rejected [.runtime ⟨.undefinedVariable, firstLine 39 .identifier "b"⟩] ∧
      (Session.shows 20 changed ready').2.written = "true\n".toUTF8 := by
  intro read changed
  have block := (Spot.Within.root : (Stmt.root earlyTree).Within _).part List.mem_cons_self
  have body := (block.part List.mem_cons_self).part (List.mem_cons_of_mem _ List.mem_cons_self)
  have slot : (Stmt.root earlyTree).Slot (firstLine 19 .identifier "a") :=
    .var (body.part List.mem_cons_self) (List.cons_ne_nil _ _)
  have resolved : (Session.resolve earlyTree read).1 = .done [] := by decide +kernel
  have fresh : ∀ m ∈ Stmt.mentionsAll earlyTree, m.token.lexeme ≠ "b" := by decide +kernel
  obtain ⟨ready', accepted, -, same⟩ :=
    renamed_local_invisible earlyTree_read (Prod.ext resolved rfl) slot fresh (by decide)
  have stopped : (Session.shows 20 earlyTree (Session.resolve earlyTree read).2).1 =
      .rejected [.runtime ⟨.undefinedVariable, firstLine 39 .identifier "a"⟩] := by decide +kernel
  have written : (Session.shows 20 earlyTree (Session.resolve earlyTree read).2).2.written = "true\n".toUTF8 := by
    decide +kernel
  refine ⟨_, ready', Prod.ext resolved rfl, accepted, stopped, ?_, ?_⟩
  · rw [same 20, stopped]
    exact congrArg (fun f => Reply.rejected [.runtime f]) (if_pos ⟨rfl, _, earlyTree_links, rfl, rfl⟩)
  · rw [same 20]
    exact written

end

end ScopeScript
