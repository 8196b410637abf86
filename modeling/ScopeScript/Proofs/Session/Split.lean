import ScopeScript.Proofs.Session.Contain
import ScopeScript.Proofs.Session.Joined
import ScopeScript.Proofs.Session.Tidy

namespace ScopeScript

open Request
open Running (Exhausted)

def Problem.rename (ρ : Renaming) : Problem → Problem
  | .lexical f => .lexical { f with position := ρ.place f.position }
  | .syntactic f => .syntactic { f with token := f.token.rename ρ }
  | .static f => .static (f.rename ρ)
  | .runtime f => .runtime (f.rename ρ)

-- What a request comes to, without its result and the places of its problems.
def Reply.outcome : Reply α → Reply Unit
  | .done _ => .done ()
  | .rejected problems => .rejected (problems.map (Problem.rename ⟨id, fun _ => .start⟩))
  | .unfinished => .unfinished

namespace Session

-- A session after a series of inquiries.
def asked (sink : Sink) (clock : Nat) (qs : List Inquiry) : Session :=
  qs.foldl (fun s q => (q.perform s).2) (start sink clock)

-- The session on which an accepted program runs.
def noted (s : Session) (program : List Stmt) (next : RefId) : Session :=
  ⟨{ s.machine with depths := s.machine.depths.record (resolveProgram program).notes }, next⟩

-- The reply to a run from what its statements come to.
def finish (warnings : List Warning) (next : RefId) :
    EStateM.Result Halt Machine Ending → Reply (List Warning) × Session
  | .ok _ m => (.done warnings, ⟨m, next⟩)
  | .error (.fault f) m => (.rejected [.runtime f], ⟨m, next⟩)
  | .error .outOfFuel m => (.unfinished, ⟨m, next⟩)

theorem finish_unfinished {warnings : List Warning} {next : RefId} {result : EStateM.Result Halt Machine Ending} :
    (finish warnings next result).1 = .unfinished ↔ Exhausted result := by
  cases result with
  | ok flow m => exact ⟨nofun, nofun⟩
  | error halt m =>
    cases halt with
    | fault f => exact ⟨nofun, nofun⟩
    | outOfFuel => exact ⟨fun _ => ⟨m, rfl⟩, fun _ => rfl⟩

theorem finish_done {warnings given : List Warning} {next : RefId} {result : EStateM.Result Halt Machine Ending}
    (h : (finish warnings next result).1 = .done given) : given = warnings := by
  cases result with
  | ok flow m => exact (Reply.done.inj h).symm
  | error halt m => cases halt <;> cases h

theorem finish_together {x y : EStateM.Result Halt Machine Ending} (h : Together (fun _ => .start) x y)
    (warnings warnings' : List Warning) (next next' : RefId) :
    (finish warnings next x).1.outcome = (finish warnings' next' y).1.outcome ∧
      (finish warnings next x).2.machine.Alike (fun _ => .start) (finish warnings' next' y).2.machine := by
  cases h with
  | ok flows alike => exact ⟨rfl, alike⟩
  | fault faults alike => exact ⟨congrArg (fun f => Reply.rejected [.runtime f]) faults, alike⟩
  | outOfFuel alike => exact ⟨rfl, alike⟩

namespace Accepted

variable {s : Session} {source : String} {program : List Stmt} {next : RefId}

theorem alike (h : s.Accepted source program next) (tidy : s.Tidy) (place : Position → Position) :
    s.machine.Alike place (s.noted program next).machine :=
  tidy.alike h.fresh.1 h.fresh.2.notes place

theorem lawful (h : s.Accepted source program next) :
    Lawful (Spot.Within ⟨.outermost, .stmts program⟩) (s.noted program next).machine.depths :=
  h.fresh.2.lawful h.clean s.machine.depths

theorem code (h : s.Accepted source program next) (place : Position → Position) :
    Stmt.renameAll ⟨(s.noted program next).machine.depths.code, place⟩ program = Stmt.locateAll place program [] :=
  Stmt.renameAll_code place h.lawful program .root

theorem run (h : s.Accepted source program next) (flushes : s.machine.sink.flushFails = false) (fuel : Nat) :
    run fuel source s = finish (resolveProgram program).warnings next
      (Stmt.executeAll fuel program (s.noted program next).machine) := by
  have resolved : resolve program ⟨s.machine, next⟩ = (.done (resolveProgram program).warnings, s.noted program next) := by
    unfold resolve andThen noting accepting
    dsimp only
    rw [h.clean]
    rfl
  unfold Session.run andThen
  rw [h.parsed]
  dsimp only
  rw [resolved]
  dsimp only
  have keeps := Stmt.executeAll_keeps fuel program (s.noted program next).machine
  unfold carryOut running
  rw [show runProgram fuel program (s.noted program next).machine =
    EStateM.bind (Stmt.executeAll fuel program) (fun _ => Running.flush) (s.noted program next).machine from rfl]
  unfold EStateM.bind
  cases ran : Stmt.executeAll fuel program (s.noted program next).machine with
  | ok flow after =>
    rw [ran] at keeps
    have flushed : Running.flush after = .ok () after := by
      unfold Running.flush Sink.flush
      rw [show after.sink.flushFails = false from keeps.flushFails.trans flushes]
      rfl
    dsimp only
    rw [flushed]
    rfl
  | error halt after => cases halt <;> rfl

end Accepted

-- A program made of two, on the session on which the first of them runs.
structure Joined (s : Session) (one two program : List Stmt) (middle last : RefId) : Prop where
  alike : ∀ place, (s.noted program last).machine.Alike place (s.noted one middle).machine
  front : ∀ place, Stmt.renameAll ⟨(s.noted program last).machine.depths.code, place⟩ (program.take one.length) =
    Stmt.renameAll ⟨(s.noted one middle).machine.depths.code, place⟩ one
  back : Stmt.renameAll ⟨(s.noted program last).machine.depths.code, fun _ => .start⟩ (program.drop one.length) =
    Stmt.locateAll (fun _ => .start) two []

theorem Accepted.joins {s : Session} {first source : String} {one two program : List Stmt} {middle last : RefId}
    {lines : Nat} (tidy : s.Tidy) (h : s.Accepted first one middle) (whole : s.Accepted source program last)
    (tree : Stmt.renameAll .nameless program = Stmt.renameAll .nameless (one ++ Stmt.renameAll (.lower lines) two)) :
    s.Joined one two program middle last := by
  have located : ∀ place, Stmt.renameAll ⟨(s.noted program last).machine.depths.code, place⟩ program =
      Stmt.locateAll place one [] ++ Stmt.locateAll (place ∘ Position.lower lines) two [] := by
    intro place
    rw [whole.code, Stmt.locateAll_nameless tree place, Stmt.locateAll_append, Stmt.locateAll_rename]
    rfl
  refine ⟨fun place => (whole.alike tidy place).symm.trans (h.alike tidy place), fun place => ?_, ?_⟩
  · rw [Stmt.renameAll_eq_map, List.map_take, ← Stmt.renameAll_eq_map, located,
      List.take_left' (Stmt.locateAll_length place one []), h.code]
  · rw [Stmt.renameAll_eq_map, List.map_drop, ← Stmt.renameAll_eq_map, located,
      List.drop_left' (Stmt.locateAll_length _ one [])]
    rfl

namespace Joined

variable {s : Session} {one two program : List Stmt} {middle last : RefId} {fuel fuel₁ : Nat}

theorem together (h : s.Joined one two program middle last) (fuel : Nat) :
    Together id (Stmt.executeAll fuel (program.take one.length) (s.noted program last).machine)
      (Stmt.executeAll fuel one (s.noted one middle).machine) :=
  (h.alike id).together fuel (h.front id)

-- The whole can only come to an end where the first program does.
theorem settled (h : s.Joined one two program middle last)
    (whole : ¬ Exhausted (Stmt.executeAll fuel program (s.noted program last).machine))
    (first : ¬ Exhausted (Stmt.executeAll fuel₁ one (s.noted one middle).machine)) :
    Stmt.executeAll fuel one (s.noted one middle).machine =
      Stmt.executeAll fuel₁ one (s.noted one middle).machine := by
  refine Stmt.executeAll_settled (fun short => whole ?_) first
  obtain ⟨after, short⟩ := (h.together fuel).exhausted.mpr short
  have stopped := Stmt.executeAll_stopped short (program.drop one.length)
  rw [List.take_append_drop] at stopped
  exact ⟨after, stopped⟩

theorem fails (h : s.Joined one two program middle last) {f : RuntimeFault} {after : Machine}
    (ran : Stmt.executeAll fuel one (s.noted one middle).machine = .error (.fault f) after) :
    ∃ reached, Stmt.executeAll fuel program (s.noted program last).machine = .error (.fault f) reached ∧
      reached.Alike id after := by
  have together := h.together fuel
  rw [ran] at together
  obtain ⟨reached, front, alike⟩ := together.of_fault
  have stopped := Stmt.executeAll_stopped front (program.drop one.length)
  rw [List.take_append_drop] at stopped
  exact ⟨reached, stopped, alike⟩

theorem continues (h : s.Joined one two program middle last) {after : Machine}
    (ran : Stmt.executeAll fuel one (s.noted one middle).machine = .ok .normal after) :
    ∃ reached, reached.depths = (s.noted program last).machine.depths ∧ reached.Alike id after ∧
      Stmt.executeAll fuel program (s.noted program last).machine =
        Stmt.executeAll (fuel - (program.take one.length).length) (program.drop one.length) reached := by
  have together := h.together fuel
  rw [ran] at together
  obtain ⟨reached, front, alike⟩ := together.of_normal
  have keeps := Stmt.executeAll_keeps fuel (program.take one.length) (s.noted program last).machine
  rw [front] at keeps
  have behind := Stmt.executeAll_behind front (program.drop one.length)
  rw [List.take_append_drop] at behind
  exact ⟨reached, keeps.depths, alike, behind⟩

-- The second program, read again after the first one ran, does what the rest of the whole does.
theorem second (h : s.Joined one two program middle last) {after reached : Machine} {source : String}
    {again : List Stmt} {next : RefId} (tidy : (Session.mk after middle).Tidy)
    (accepted : (Session.mk after middle).Accepted source again next)
    (same : Stmt.renameAll .nameless again = Stmt.renameAll .nameless two)
    (depths : reached.depths = (s.noted program last).machine.depths) (alike : reached.Alike id after) (fuel : Nat) :
    Together (fun _ => .start) (Stmt.executeAll fuel (program.drop one.length) reached)
      (Stmt.executeAll fuel again ((Session.mk after middle).noted again next).machine) := by
  refine ((alike.forget _).trans (accepted.alike tidy _)).together fuel ?_
  rw [depths, h.back, accepted.code, Stmt.locateAll_nameless same _]

end Joined

-- The source comes to an end with some fuel, and with whatever fuel it does, in this way.
def ComesTo (s : Session) (source : String) (good : Reply (List Warning) → Machine → Prop) : Prop :=
  (∃ fuel, (run fuel source s).1 ≠ .unfinished) ∧
    ∀ fuel, (run fuel source s).1 ≠ .unfinished → good (run fuel source s).1 (run fuel source s).2.machine

namespace Joined

variable {s : Session} {one two program : List Stmt} {middle last : RefId} {fuel : Nat} {source : String}

theorem rejects (h : s.Joined one two program middle last) (accepted : s.Accepted source program last)
    (flushes : s.machine.sink.flushFails = false) {f : RuntimeFault} {after : Machine}
    (ran : Stmt.executeAll fuel one (s.noted one middle).machine = .error (.fault f) after) :
    s.ComesTo source fun answer m => answer = .rejected [.runtime f] ∧ m.Alike id after := by
  have first : ¬ Exhausted (Stmt.executeAll fuel one (s.noted one middle).machine) := by
    rw [ran]
    exact nofun
  refine ⟨⟨fuel, ?_⟩, fun other ended => ?_⟩
  · obtain ⟨reached, stopped, -⟩ := h.fails ran
    rw [accepted.run flushes, stopped]
    exact nofun
  · rw [accepted.run flushes] at ended ⊢
    have settled := h.settled (fun short => ended (finish_unfinished.mpr short)) first
    obtain ⟨reached, stopped, alike⟩ := h.fails (settled.trans ran)
    rw [stopped]
    exact ⟨rfl, alike⟩

theorem completes (h : s.Joined one two program middle last) (accepted : s.Accepted source program last)
    (flushes : s.machine.sink.flushFails = false) {after : Machine}
    (ran : Stmt.executeAll fuel one (s.noted one middle).machine = .ok .normal after)
    {second : String} {again : List Stmt} {next : RefId} (tidy : (Session.mk after middle).Tidy)
    (accepted' : (Session.mk after middle).Accepted second again next)
    (same : Stmt.renameAll .nameless again = Stmt.renameAll .nameless two) {more : Nat}
    (ends : (run more second ⟨after, middle⟩).1 ≠ .unfinished) :
    s.ComesTo source fun answer m => answer.outcome = (run more second ⟨after, middle⟩).1.outcome ∧
      m.Alike (fun _ => .start) (run more second ⟨after, middle⟩).2.machine := by
  have keeps := Stmt.executeAll_keeps fuel one (s.noted one middle).machine
  rw [ran] at keeps
  have ran' := accepted'.run (keeps.flushFails.trans flushes) more
  rw [ran'] at ends ⊢
  have other : ¬ Exhausted (Stmt.executeAll more again ((Session.mk after middle).noted again next).machine) :=
    fun short => ends (finish_unfinished.mpr short)
  have first : ¬ Exhausted (Stmt.executeAll fuel one (s.noted one middle).machine) := by
    rw [ran]
    exact nofun
  refine ⟨⟨fuel + more + (program.take one.length).length, fun short => ?_⟩, fun total ended => ?_⟩
  · have enough : fuel ≤ fuel + more + (program.take one.length).length := by omega
    have settled := ((lasting enough).stmts one (s.noted one middle).machine).resolve_right first
    obtain ⟨reached, depths, alike, behind⟩ := h.continues (settled.trans ran)
    rw [Nat.add_sub_cancel] at behind
    have together := h.second tidy accepted' same depths alike (fuel + more)
    have settled' := ((lasting (Nat.le_add_left more fuel)).stmts again
      ((Session.mk after middle).noted again next).machine).resolve_right other
    rw [accepted.run flushes, finish_unfinished, behind, together.exhausted, settled'] at short
    exact other short
  · rw [accepted.run flushes] at ended ⊢
    have whole : ¬ Exhausted (Stmt.executeAll total program (s.noted program last).machine) :=
      fun short => ended (finish_unfinished.mpr short)
    obtain ⟨reached, depths, alike, behind⟩ := h.continues ((h.settled whole first).trans ran)
    rw [behind] at whole ⊢
    have together := h.second tidy accepted' same depths alike (total - (program.take one.length).length)
    rw [Stmt.executeAll_settled (fun short => whole (together.exhausted.mpr short)) other] at together
    exact finish_together together _ _ _ _

end Joined

theorem run_tidy {s : Session} (tidy : s.Tidy) (fuel : Nat) (source : String) : (run fuel source s).2.Tidy := by
  have kept : ((Inquiry.run fuel source).perform s).2 = (run fuel source s).2 := by
    show ((run fuel source).void s).2 = _
    unfold void andThen
    cases run fuel source s with
    | mk answer after => cases answer <;> rfl
  rw [← kept]
  exact (tidy.perform _).1

end Session

open Session

-- Two sources accepted on one session, run one after the other or as one source with a line break
-- in between. The whole is accepted with the warnings of both. If the first ends in a fault, the whole ends in
-- that fault and the second does nothing. Otherwise the whole comes to what the second run comes to. The
-- machines are the same up to ids and, with the second source in play, up to places.
theorem runs_split (sink : Sink) (clock : Nat) (qs : List Inquiry) (first second : String) (one two : List Warning)
    (flushes : sink.flushFails = false) (accepted : (check first (asked sink clock qs)).1 = .done one)
    (accepted' : (check second (asked sink clock qs)).1 = .done two) :
    let s := asked sink clock qs
    let whole := first ++ "\n" ++ second
    (∃ lines all, (check whole s).1 = .done all ∧ all.Perm (one ++ two.map (Warning.rename (.lower lines))) ∧
      ∀ fuel warnings, (run fuel whole s).1 = .done warnings → warnings = all) ∧
    ∀ fuel, match run fuel first s with
      | (.unfinished, _) => True
      | (.rejected problems, after) => s.ComesTo whole fun answer m =>
        answer = .rejected problems ∧ m.Alike id after.machine
      | (.done _, after) => ∀ more, (run more second after).1 ≠ .unfinished →
        s.ComesTo whole fun answer m => answer.outcome = (run more second after).1.outcome ∧
          m.Alike (fun _ => .start) (run more second after).2.machine := by
  intro s whole
  obtain ⟨tidy, kept⟩ : s.Tidy ∧ s.machine.sink.flushFails = sink.flushFails :=
    (Tidy.start sink clock).performAll qs
  have flushing : s.machine.sink.flushFails = false := kept.trans flushes
  obtain ⟨program₁, middle, accepted₁, rfl⟩ := check_done accepted
  obtain ⟨program₂, next, accepted₂, rfl⟩ := check_done accepted'
  obtain ⟨lines, program, last, acceptedWhole, tree, warnings⟩ := accepted₁.joined accepted₂
  have joined := accepted₁.joins tidy acceptedWhole tree
  refine ⟨⟨lines, _, acceptedWhole.check, warnings, fun fuel given done => ?_⟩, fun fuel => ?_⟩
  · rw [acceptedWhole.run flushing] at done
    exact finish_done done
  have afterTidy := run_tidy tidy fuel first
  rw [accepted₁.run flushing] at afterTidy ⊢
  cases ran : Stmt.executeAll fuel program₁ (s.noted program₁ middle).machine with
  | error halt after =>
    cases halt with
    | outOfFuel => trivial
    | fault f => exact joined.rejects acceptedWhole flushing ran
  | ok flow after =>
    have sound : ((Chronicle.start sink clock).askAll qs).Sound := .from_start sink clock qs
    have parsed : parse first ((Chronicle.start sink clock).askAll qs).session =
        (.done program₁, ⟨s.machine, middle⟩) := by
      rw [Chronicle.session_askAll]
      exact accepted₁.parsed
    obtain rfl := sound.program_normal parsed accepted₁.clean ran
    rw [ran] at afterTidy
    intro more ends
    obtain ⟨again, next', accepted'', same⟩ := accepted₂.again ⟨after, middle⟩
    exact joined.completes acceptedWhole flushing ran afterTidy accepted'' same ends

-- fun f() { var a = true; fun g() { print a; } return g; }
-- f()();
-- The closure of the first source looks up its local when the second calls it.
section

def closureSource : String := "fun f() \x7b var a = true; fun g() \x7b print a; \x7d return g; \x7d"

def callSource : String := "f()();"

theorem runs_split_closure :
    let s := asked .unlimited 0 []
    (check closureSource s).1 = .done [] ∧ (check callSource s).1 = .done [] ∧
      s.ComesTo (closureSource ++ "\n" ++ callSource) fun answer m =>
        answer.outcome = .done () ∧ m.sink.written = "true\n".toUTF8 := by
  intro s
  have accepted : (check closureSource s).1 = .done [] := by decide +kernel
  have accepted' : (check callSource s).1 = .done [] := by decide +kernel
  let after := (run 10 closureSource s).2
  have first : run 10 closureSource s = (.done [], after) := by
    have answer : (run 10 closureSource s).1 = .done [] := by decide +kernel
    exact Prod.ext answer rfl
  have second : (run 20 callSource after).1 = .done [] := by decide +kernel
  have written : (run 20 callSource after).2.machine.sink.written = "true\n".toUTF8 := by decide +kernel
  have split := (runs_split .unlimited 0 [] closureSource callSource [] [] rfl accepted accepted').2 10
  rw [show run 10 closureSource (asked .unlimited 0 []) = _ from first] at split
  obtain ⟨finite, same⟩ := split 20 (by rw [second]; exact nofun)
  refine ⟨accepted, accepted', finite, fun fuel ended => ?_⟩
  obtain ⟨outcome, alike⟩ := same fuel ended
  exact ⟨outcome.trans (congrArg Reply.outcome second), (congrArg Sink.written alike.sink).trans written⟩

end

end ScopeScript
