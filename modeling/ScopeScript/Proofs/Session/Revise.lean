import ScopeScript.Proofs.Grammar.Single
import ScopeScript.Proofs.Running.Commute
import ScopeScript.Proofs.Running.Echoing
import ScopeScript.Proofs.Running.Serve
import ScopeScript.Proofs.Session.Tidy

namespace ScopeScript

open Request

-- A program that a new session has read and found no fault in.
structure Stmt.Accepted (program : List Stmt) : Prop where
  clean : (Stmt.root program).Clean
  proper : (Stmt.root program).Proper
  formed : Stmt.FormedAll program
  tokens : (tokensOf (Stmt.root program).code.mentions).Nodup
  refs : (refsOf (Stmt.mentionsAll program)).Nodup

theorem Stmt.Accepted.names {program : List Stmt} (h : Stmt.Accepted program) : (Stmt.root program).code.names.Nodup :=
  h.tokens.sublist (namesOf_sublist _)

theorem Spot.Fresh.clean {program : List Stmt} (fresh : (Stmt.root program).Fresh low high)
    (formed : Stmt.FormedAll program) (faultless : (resolveProgram program).faults = []) : (Stmt.root program).Clean where
  outermost := rfl
  obeys := (resolveProgram_accepts formed).mp faultless
  ordered inside := (inside.passed fresh.passed).1
  placed inside := inside.placed fresh.passed fresh.placed

namespace Session

variable {source : String} {s t read ready : Session} {program : List Stmt} {warnings : List Warning}

-- What is read has its names and returns from the tokens of the source, each from one of its own.
theorem parse_subjects (parsed : parse source s = (.done program, read)) :
    ∃ body : List Token, body.Pairwise Token.Earlier ∧ (Stmt.subjectsAll program).Subperm body := by
  obtain ⟨body, stop, scanned, inner, -, derived, -, -⟩ := Inquiry.root_done (parse_root parsed 0)
  obtain ⟨others, last, same, -, -, sorted⟩ := tokens_sorted scanned
  obtain ⟨rfl, -⟩ := List.append_inj' same rfl
  cases derived with
  | stmts h => exact ⟨body, sorted, h.subjects_subperm rfl⟩

-- A source that is read on a new session.
theorem parse_read {sink : Sink} {clock : Nat} {ts : List Token} {later : RefId} (scanned : tokens source = .ok ts)
    (given : readProgram ts 0 = (.ok program, later)) :
    parse source (.start sink clock) = (.done program, ⟨.start sink clock, later⟩) := by
  unfold parse andThen scanning
  rw [scanned]
  show reading readProgram ts (.start sink clock) = _
  unfold reading
  rw [show readProgram ts (Session.start sink clock).nextRef = _ from given]
  rfl

theorem parse_machine (parsed : parse source s = (.done program, read)) : read.machine = s.machine := by
  obtain ⟨_, _, _, _, _, _, _, same⟩ := Inquiry.root_done (parse_root parsed 0)
  exact same

-- The session behind a resolution.
def tabled (s : Session) (program : List Stmt) : Session :=
  { s with machine := { s.machine with depths := s.machine.depths.record (resolveProgram program).notes } }

theorem resolve_done (resolved : resolve program s = (.done warnings, ready)) :
    (resolveProgram program).faults = [] ∧ warnings = (resolveProgram program).warnings ∧ ready = s.tabled program := by
  change accepting (resolveProgram program) (s.tabled program) = (.done warnings, ready) at resolved
  unfold accepting at resolved
  cases faultless : (resolveProgram program).faults with
  | nil =>
    rw [faultless] at resolved
    cases resolved
    exact ⟨rfl, rfl, rfl⟩
  | cons fault rest =>
    rw [faultless] at resolved
    cases resolved

theorem resolve_clean (faultless : (resolveProgram program).faults = []) :
    resolve program s = (.done (resolveProgram program).warnings, s.tabled program) := by
  show accepting (resolveProgram program) (s.tabled program) = _
  unfold accepting
  rw [faultless]
  rfl

theorem parse_accepted (parsed : parse source s = (.done program, read))
    (resolved : resolve program t = (.done warnings, ready)) : Stmt.Accepted program := by
  have fresh := parse_fresh parsed
  have formed : Stmt.FormedAll program := Stmt.OrderedAll.formed fresh.ordered
  obtain ⟨body, sorted, subjects⟩ := parse_subjects parsed
  have single : (Stmt.subjectsAll program).Nodup := nodup_of_subperm subjects (sorted_nodup sorted)
  have tokens : (tokensOf (Stmt.root program).code.mentions).Nodup := single.sublist (List.sublist_append_left _ _)
  exact ⟨fresh.clean formed (resolve_done resolved).1, fresh.proper, formed, tokens, fresh.numbered.1⟩

-- What a run shows: its reply and where its output stands.
def shows (fuel : Nat) (program : List Stmt) (s : Session) : Reply Unit × Sink :=
  ((carryOut fuel program s).1, (carryOut fuel program s).2.machine.sink)

end Session

-- The fault that the changed program stops with where the program stops with this one. A name that is
-- undefined is spelled as one of the references is now.
def Revision.Reports (V : Revision) (program : List Stmt) (f f' : RuntimeFault) : Prop :=
  f'.cause = f.cause ∧ (f.cause ≠ .undefinedVariable ∧ f'.token = f.token ∨
    f.cause = .undefinedVariable ∧ ∃ i, ⟨f.token, some i⟩ ∈ Stmt.mentionsAll program ∧ f'.token = V.refer i f.token)

-- What a run of the changed program shows where a run of the program shows this.
def Revision.Retells (V : Revision) (program : List Stmt) : Reply Unit × Sink → Reply Unit × Sink → Prop
  | (.done (), sink), given => given = (.done (), sink)
  | (.rejected problems, sink), given => ∃ f f', problems = [.runtime f] ∧ given = (.rejected [.runtime f'], sink) ∧
      V.Reports program f f'
  | (.unfinished, sink), given => V.Paced → given = (.unfinished, sink)

-- What was looked up is one of the references.
theorem Revision.Blames.reports {V : Revision} {program : List Stmt} {r : Record} {f f' : RuntimeFault}
    (blames : V.Blames r f f') (sound : r.Sound (Stmt.root program).Within) : V.Reports program f f' := by
  obtain ⟨cause, other | ⟨undefined, i, ⟨m, member, event⟩, token⟩⟩ := blames
  · exact ⟨cause, .inl other⟩
  · have tells := (sound.moments m member).tells
    unfold Moment.Tells at tells
    rw [event] at tells
    obtain ⟨σ, e, inside, refers, -⟩ := tells
    exact ⟨cause, .inr ⟨undefined, i, inside.mentions _ refers.mentioned, token⟩⟩

theorem Revision.Answers.shows {V : Revision} {program changed : List Stmt} {fuel more : Nat} {r : Record}
    {m : Machine} (next next' : RefId)
    (sound : (Record.after (Code.watch fuel (.stmts program) .top r)).Sound (Stmt.root program).Within)
    (answers : V.Answers id (Code.watch fuel (.stmts program) .top r) (runProgram more changed m)) :
    V.Retells program (Session.shows fuel program ⟨r.scene.machine, next⟩) (Session.shows more changed ⟨m, next'⟩) := by
  have erased := Code.watch_erases fuel (.stmts program) .top r
  unfold Session.shows Session.carryOut running
  dsimp only
  rw [show runProgram fuel program r.scene.machine = _ from erased.symm]
  cases ran : Code.watch fuel (.stmts program) .top r with
  | ok a after =>
    rw [ran] at answers
    rw [show runProgram more changed m = _ from answers]
    rfl
  | error halt after =>
    rw [ran] at answers sound
    cases halt with
    | fault f =>
      obtain ⟨f', same, blames⟩ := answers
      rw [same]
      exact ⟨f, f', rfl, rfl, blames.reports sound⟩
    | outOfFuel =>
      intro paced
      rw [answers paced]
      rfl

-- At the start nothing but the clock is bound.
theorem Scene.start_revise (V : Revision) (sink : Sink) (clock : Nat) (depths : Depths) :
    Scene.revise V ⟨{ Machine.start sink clock with depths := depths }, [none], [], [], []⟩ =
      { Machine.start sink clock with depths := depths } := by
  have blank : Store.empty.revise V [] = Store.empty := by simp [Store.revise, Store.empty]
  have even : ([] : List (Option Region)).length = Store.empty.scopes.size := rfl
  have opened := Store.revise_openScope (V := V) even none [] [("clock", .callee .clock)]
  rw [blank] at opened
  exact congrArg (fun store => { Machine.start sink clock with depths := depths, store := store }) opened

section

variable {sink : Sink} {clock : Nat} {source : String} {read ready : Session} {program : List Stmt} {warnings : List Warning}

-- On a new session the changed program does what the program does, as long as the table stays.
theorem Revision.Respects.retells {V : Revision} (respects : V.Respects (Stmt.root program)) (keyed : V.Keyed)
    (plain : ∀ m ∈ (Stmt.root program).code.mentions, V.takes m.token.lexeme = false)
    (parsed : Session.parse source (.start sink clock) = (.done program, read))
    (resolved : Session.resolve program read = (.done warnings, ready)) {fuel more : Nat} (feeds : V.Feeds fuel more) :
    V.Retells program (Session.shows fuel program ready) (Session.shows more (Stmt.reviseAll V program) ready) := by
  have accepted := Session.parse_accepted parsed resolved
  obtain ⟨faultless, -, rfl⟩ := Session.resolve_done resolved
  have first := Chronicle.start_sound sink clock
  let q := Inquiry.run fuel source
  have given : q.root (Chronicle.start sink clock).session = (.done (Stmt.root program), read) :=
    Session.parse_root parsed fuel
  obtain ⟨-, -, sound⟩ := first.ready given
  let c := ({ Chronicle.start sink clock with nextRef := read.nextRef }.note
    (Stmt.root program).code.resolution.notes).accept (Stmt.root program)
  have ran : (c.run fuel (Stmt.root program).code).Sound :=
    (sound faultless).run_sound (List.mem_append_right _ (List.mem_singleton_self _)) rfl fuel
  have lies : Chronicle.Lies (c.run fuel (Stmt.root program).code) = (Stmt.root program).Within := by
    funext S
    refine propext ⟨fun ⟨root, member, inside⟩ => ?_, fun inside => ⟨_, List.mem_singleton_self _, inside⟩⟩
    cases List.mem_singleton.mp member
    exact inside
  have record := ran.record
  rw [lies] at record
  have serves := respects.serves keyed accepted.clean plain record
  have machine : (read.tabled program).machine = c.record.scene.machine := by
    unfold Session.tabled
    rw [Session.parse_machine parsed]
    rfl
  have even : c.record.scene.Even := ⟨rfl, Nat.zero_lt_one⟩
  have echoes : Echoes V (Stmt.FormedAll program) (fun _ _ => True) id (Code.watch fuel (.stmts program))
      (runProgram more (Stmt.reviseAll V program)) := .bind ((echoing keyed fuel feeds).stmts program) fun _ => .flush
  have answers := (echoes .top c.record even).2 accepted.formed serves fun _ _ _ => trivial
  rw [show c.record.scene.revise V = c.record.scene.machine from Scene.start_revise V sink clock _] at answers
  have shown := answers.shows read.nextRef read.nextRef record
  rw [← machine] at shown
  exact shown

-- Only the depths of its own references matter to a program on a new machine.
theorem Session.shows_table {ss : List Stmt} {old new : Depths} (same : ∀ i ∈ refsOf (Stmt.mentionsAll ss), new[i]? = old[i]?)
    (bare : ∀ i ∉ refsOf (Stmt.mentionsAll ss), old[i]? = none) {other : RefId} (free : new[other]? = none)
    (fuel : Nat) (next next' : RefId) :
    Session.shows fuel ss ⟨{ Machine.start sink clock with depths := old }, next⟩ =
      Session.shows fuel ss ⟨{ Machine.start sink clock with depths := new }, next'⟩ := by
  let ρ : Renaming := ⟨fun i => if i ∈ refsOf (Stmt.mentionsAll ss) then i else other, id⟩
  have agrees : ρ.Agrees old new := by
    intro i
    show new[if i ∈ refsOf (Stmt.mentionsAll ss) then i else other]? = old[i]?
    split
    · exact same i ‹_›
    · rw [free, bare i ‹_›]
  have fixed : Stmt.renameAll ρ ss = ss := Stmt.renameAll_fixed ss fun i member => if_pos member
  have renames : Running.Renames ρ old new id (runProgram fuel ss) (runProgram fuel (Stmt.renameAll ρ ss)) :=
    .bind ((commuting agrees fuel).stmts ss) fun _ => .flush rfl
  have ran := renames { Machine.start sink clock with depths := old } rfl
  rw [fixed] at ran
  have machine : Machine.rename ρ new { Machine.start sink clock with depths := old } =
      { Machine.start sink clock with depths := new } := by
    unfold Machine.rename
    rw [show Store.rename ρ (Machine.start sink clock).store = _ from Machine.start_rename sink clock ρ]
  rw [machine] at ran
  unfold Session.shows Session.carryOut running
  dsimp only
  cases here : runProgram fuel ss { Machine.start sink clock with depths := old } with
  | ok a after =>
    rw [here] at ran
    rw [ran.2]
    rfl
  | error halt after =>
    rw [here] at ran
    rw [ran.2]
    cases halt with
    | outOfFuel => rfl
    | fault f => rfl

-- A program changed with respect for its code is accepted, and keeps the depths of the references that
-- are left. It does what the program does.
theorem Revision.Respects.accepted {V : Revision} (respects : V.Respects (Stmt.root program)) (keyed : V.Keyed)
    (plain : ∀ m ∈ (Stmt.root program).code.mentions, V.takes m.token.lexeme = false)
    (parsed : Session.parse source (.start sink clock) = (.done program, read))
    (resolved : Session.resolve program read = (.done warnings, ready)) :
    let changed := Stmt.reviseAll V program
    Session.resolve changed read = (.done (resolveProgram changed).warnings, read.tabled changed) ∧
      (∀ i ∈ refsOf (Stmt.mentionsAll changed), (read.tabled changed).machine.depths[i]? = ready.machine.depths[i]?) ∧
      (∀ i ∉ refsOf (Stmt.mentionsAll changed), (read.tabled changed).machine.depths[i]? = none) ∧
      ∀ {fuel more}, V.Feeds fuel more →
        V.Retells program (Session.shows fuel program ready) (Session.shows more changed (read.tabled changed)) := by
  intro changed
  have accepted := Session.parse_accepted parsed resolved
  have started := Session.parse_machine parsed
  have fresh := Session.parse_fresh parsed
  have retells : ∀ {fuel more}, V.Feeds fuel more →
      V.Retells program (Session.shows fuel program ready) (Session.shows more changed ready) := fun feeds =>
    respects.retells keyed plain parsed resolved feeds
  obtain ⟨-, -, rfl⟩ := Session.resolve_done resolved
  have same : ∀ i ∈ refsOf (Stmt.mentionsAll changed),
      (read.tabled changed).machine.depths[i]? = (read.tabled program).machine.depths[i]? := fun i member =>
    respects.recorded accepted.formed accepted.clean.obeys accepted.clean.ordered accepted.refs read.machine.depths member
  have bare : ∀ i ∉ refsOf (Stmt.mentionsAll changed), (read.tabled changed).machine.depths[i]? = none := by
    intro i other
    refine (recorded_other _ other).trans ?_
    rw [started]
    exact Std.TreeMap.getElem?_emptyc
  refine ⟨Session.resolve_clean ?_, same, bare, fun feeds => ?_⟩
  · have kept : (Stmt.root changed).Obeys := respects.obeys accepted.clean.obeys rfl accepted.clean.ordered nofun
    exact (resolveProgram_accepts (Stmt.reviseAll_formed V program accepted.formed)).mpr kept
  · have free : (read.tabled program).machine.depths[read.nextRef]? = none := by
      have other : read.nextRef ∉ refsOf (Stmt.mentionsAll program) := fun used =>
        Nat.lt_irrefl _ (fresh.numbered.2 _ used).2
      refine (recorded_other _ other).trans ?_
      rw [started]
      exact Std.TreeMap.getElem?_emptyc
    have session : ∀ ss, (⟨{ Machine.start sink clock with depths := (read.tabled ss).machine.depths }, read.nextRef⟩ :
        Session) = read.tabled ss := by
      intro ss
      unfold Session.tabled
      rw [started]
      rfl
    have switched : ∀ fuel, Session.shows fuel changed (read.tabled changed) =
        Session.shows fuel changed (read.tabled program) := by
      intro fuel
      rw [← session program, ← session changed]
      exact Session.shows_table (fun i member => (same i member).symm) bare free fuel read.nextRef read.nextRef
    rw [switched]
    exact retells feeds

end

end ScopeScript
