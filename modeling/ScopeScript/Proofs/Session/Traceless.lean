import ScopeScript.Proofs.Grammar.Shift
import ScopeScript.Proofs.Session.Answer
import ScopeScript.Proofs.Session.Split

namespace ScopeScript

open Request

-- The code that is read, up to its ids, does not depend on the session.
theorem Inquiry.root_same (q : Inquiry) (s t : Session) :
    (q.root s).1.map (fun root => root.code.rename .nameless) =
      (q.root t).1.map fun root => root.code.rename .nameless := by
  have wiped : ∀ (k : RefId) (code : Code), (code.rename (.later k)).rename .nameless = code.rename .nameless :=
    fun k code => code.rename_rename (.later k) .nameless
  cases q with
  | run fuel source =>
    dsimp only [root, Session.parse, scanning, andThen]
    cases tokens source with
    | error faults => rfl
    | ok ts =>
      dsimp only [Request.ofExcept, reply, reading]
      rw [readProgram_shifts ts s.nextRef, readProgram_shifts ts t.nextRef]
      cases (readProgram ts 0).1 with
      | error faults => rfl
      | ok program =>
        exact congrArg Reply.done ((wiped s.nextRef (.stmts program)).trans (wiped t.nextRef (.stmts program)).symm)
  | evaluate fuel source =>
    dsimp only [root, Session.parseExpression, scanning, andThen]
    cases tokens source with
    | error faults => rfl
    | ok ts =>
      dsimp only [Request.ofExcept, reply, reading]
      rw [readExpression_shifts ts s.nextRef, readExpression_shifts ts t.nextRef]
      cases (readExpression ts 0).1 with
      | error faults => rfl
      | ok e => exact congrArg Reply.done ((wiped s.nextRef (.expr e)).trans (wiped t.nextRef (.expr e)).symm)

-- Two codes that differ in their ids find the same faults and warnings.
theorem Code.resolution_nameless {code other : Code} (same : code.rename .nameless = other.rename .nameless) :
    code.resolution.faults = other.resolution.faults ∧ code.resolution.warnings = other.resolution.warnings := by
  obtain ⟨faults, warnings⟩ := Code.resolve_nameless same
  unfold Code.resolution Walk.resolution
  rw [faults, warnings]
  exact ⟨rfl, rfl⟩

namespace Session

-- Two sessions that differ in ids, those in use and those in the table, and in nothing else.
structure Same (s t : Session) : Prop where
  tidy : s.Tidy
  tidy' : t.Tidy
  machines : s.machine.Alike id t.machine

variable {s t : Session}

theorem Tidy.note (h : s.Tidy) {root : Spot} {next : RefId} (later : s.nextRef ≤ next)
    (fresh : root.Fresh s.nextRef next) : s.machine.Alike id (s.note root.code next).machine :=
  h.alike later fresh.notes id

namespace Same

-- Accepted code, the same up to its ids, comes to the same on both.
theorem running (h : s.Same t) {root root' : Spot} {next next' : RefId} (later : s.nextRef ≤ next)
    (later' : t.nextRef ≤ next') (fresh : root.Fresh s.nextRef next) (fresh' : root'.Fresh t.nextRef next')
    (same : root.code.rename .nameless = root'.code.rename .nameless) (clean : root.code.resolution.faults = [])
    (clean' : root'.code.resolution.faults = []) (fuel : Nat) (list : List Warning) :
    let left := Request.running (root.code.answer fuel list) (s.note root.code next)
    let right := Request.running (root'.code.answer fuel list) (t.note root'.code next')
    left.1.map (Answer.rename .nameless) = right.1.map (Answer.rename .nameless) ∧
      left.2.machine.Alike id right.2.machine := by
  intro left right
  have machines : (s.note root.code next).machine.Alike id (t.note root'.code next').machine :=
    ((h.tidy.note later fresh).symm.trans h.machines).trans (h.tidy'.note later' fresh')
  obtain ⟨σ, code⟩ := root
  obtain ⟨σ', code'⟩ := root'
  obtain rfl : σ = .outermost := fresh.outermost
  obtain rfl : σ' = .outermost := fresh'.outermost
  -- Both trees become the one whose references stand for their depths.
  have located := Code.rename_code (fresh.lawful clean s.machine.depths) .root id
  have located' := Code.rename_code (fresh'.lawful clean' t.machine.depths) .root id
  rw [Code.locate_nameless same] at located
  obtain ⟨table, agrees, agrees'⟩ := (s.note code next).machine.depths.common (t.note code' next').machine.depths id
  have one := code.answer_renames agrees rfl fuel list
  have other := code'.answer_renames agrees' rfl fuel list
  rw [show code.rename ⟨(s.note code next).machine.depths.code, id⟩ = _ from located.trans located'.symm] at one
  obtain ⟨results, alike⟩ := (machines.twins one other).running
  have wiped := congrArg (Reply.map (Answer.rename .nameless)) results
  rw [Reply.map_map, Reply.map_map] at wiped
  simp only [Answer.rename_rename] at wiped
  exact ⟨wiped, alike⟩

end Same

theorem Same.answer (h : s.Same t) (q : Inquiry) :
    (q.answer s).1.map (Answer.rename .nameless) = (q.answer t).1.map (Answer.rename .nameless) ∧
      (q.answer s).2.Same (q.answer t).2 := by
  have tidy := (h.tidy.perform q).1
  have tidy' := (h.tidy'.perform q).1
  rw [← q.answer_after] at tidy tidy'
  suffices alike : (q.answer s).1.map (Answer.rename .nameless) = (q.answer t).1.map (Answer.rename .nameless) ∧
      (q.answer s).2.machine.Alike id (q.answer t).2.machine from ⟨alike.1, tidy, tidy', alike.2⟩
  have roots := q.root_same s t
  obtain ⟨next, later, fresh, given⟩ := s.concludes q
  obtain ⟨next', later', fresh', given'⟩ := t.concludes q
  rw [given, given']
  rcases Reply.of_map roots with ⟨root, root', read, read', same⟩ | ⟨problems, read, read'⟩ | ⟨read, read'⟩
  · rw [read, read']
    obtain ⟨faults, warnings⟩ := Code.resolution_nameless same
    have new := fresh root read
    have new' := fresh' root' read'
    unfold conclude
    dsimp only
    cases clean : root.code.resolution.faults with
    | nil =>
      rw [← faults, clean, ← warnings]
      exact h.running later later' new new' same clean (faults.symm.trans clean) q.fuel _
    | cons fault rest =>
      rw [← faults, clean]
      exact ⟨rfl, ((h.tidy.note later new).symm.trans h.machines).trans (h.tidy'.note later' new')⟩
  · rw [read, read']
    exact ⟨rfl, h.machines⟩
  · rw [read, read']
    exact ⟨rfl, h.machines⟩

-- What later inquiries give, and what is written after each of them.
def transcript (s : Session) : List Inquiry → List (Reply Answer × Sink)
  | [] => []
  | q :: rest =>
    ((q.answer s).1.map (Answer.rename .nameless), (q.answer s).2.machine.sink) :: (q.answer s).2.transcript rest

theorem Same.transcript (h : s.Same t) (qs : List Inquiry) : s.transcript qs = t.transcript qs := by
  induction qs generalizing s t with
  | nil => rfl
  | cons q rest ih =>
    obtain ⟨given, same⟩ := h.answer q
    rw [Session.transcript, Session.transcript, ih same, given, same.machines.sink]

-- What is rejected before it runs changes the table and the counter only, and on new ids.
theorem Tidy.rejects (h : s.Tidy) {q : Inquiry} {problems : List Problem}
    (rejected : (q.answer s).1 = .rejected problems) (early : ∀ f, .runtime f ∉ problems) :
    (q.answer s).2.machine = { s.machine with depths := (q.answer s).2.machine.depths } ∧ (q.answer s).2.Same s := by
  have tidy := (h.perform q).1
  rw [← q.answer_after] at tidy
  suffices kept : (q.answer s).2.machine = { s.machine with depths := (q.answer s).2.machine.depths } ∧
      s.machine.Alike id (q.answer s).2.machine from ⟨kept.1, tidy, h, kept.2.symm⟩
  obtain ⟨next, later, fresh, given⟩ := s.concludes q
  rw [given] at rejected ⊢
  cases read : (q.root s).1 with
  | rejected others => exact ⟨rfl, .refl _⟩
  | unfinished => exact ⟨rfl, .refl _⟩
  | done root =>
    rw [read] at rejected
    unfold conclude at rejected ⊢
    dsimp only at rejected ⊢
    cases clean : root.code.resolution.faults with
    | cons fault rest => exact ⟨rfl, h.note later (fresh root read)⟩
    | nil =>
      rw [clean] at rejected
      obtain ⟨f, rfl⟩ := running_rejected rejected
      exact absurd List.mem_cons_self (early f)

-- A source that is rejected before it runs writes nothing and leaves all scopes, instances and globals
-- as they were. Whatever is asked later comes to the same as if it had never been submitted, though its
-- notes stay in the table and its ids are gone.
theorem rejected_traceless (sink : Sink) (clock : Nat) (before : List Inquiry) (q : Inquiry) (problems : List Problem)
    (rejected : (q.answer (asked sink clock before)).1 = .rejected problems) (early : ∀ f, .runtime f ∉ problems)
    (later : List Inquiry) :
    let s := asked sink clock before
    let after := (q.answer s).2
    after.machine = { s.machine with depths := after.machine.depths } ∧ after.transcript later = s.transcript later := by
  intro s after
  have tidy : s.Tidy := ((Tidy.start sink clock).performAll before).1
  obtain ⟨kept, same⟩ := tidy.rejects rejected early
  exact ⟨kept, same.transcript later⟩

-- The closure of the first source looks up its local after a source with a reference outside every class.
section

def keptSource : String := "fun f() \x7b var a = true; fun g() \x7b return a; \x7d return g; \x7d"

def rejectedSource : String := "\x7b var a = nil; fun g() \x7b print a; \x7d this; \x7d"

theorem rejected_traceless_closure :
    let s := asked .unlimited 0 [.run 10 keptSource]
    let after := ((Inquiry.run 10 rejectedSource).answer s).2
    ((Inquiry.run 10 rejectedSource).answer s).1 = .rejected [.static ⟨.thisOutsideClass, .keyword .thisWord, "this", 1, 37⟩] ∧
      after.nextRef ≠ s.nextRef ∧ after.machine.sink = s.machine.sink ∧
      after.transcript [.run 20 "print f()();"] = s.transcript [.run 20 "print f()();"] := by
  intro s after
  have rejected : ((Inquiry.run 10 rejectedSource).answer s).1 =
      .rejected [.static ⟨.thisOutsideClass, .keyword .thisWord, "this", 1, 37⟩] :=
    Inquiry.answer_rejected (by decide +kernel)
  have early : ∀ f, Problem.runtime f ∉ [.static ⟨.thisOutsideClass, .keyword .thisWord, "this", 1, 37⟩] := by
    intro f member
    cases List.mem_singleton.mp member
  obtain ⟨kept, same⟩ := rejected_traceless .unlimited 0 [.run 10 keptSource] (.run 10 rejectedSource) _ rejected early
    [.run 20 "print f()();"]
  have moved : after.nextRef ≠ s.nextRef := by decide +kernel
  have sinks := congrArg Machine.sink kept
  exact ⟨rejected, moved, sinks, same⟩

end

end Session

end ScopeScript
