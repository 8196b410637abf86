import ScopeScript.Proofs.Session.Accept

namespace ScopeScript

open Watching Request

-- A statement ends within what is around it: a break only inside a loop of the same body, a return
-- only inside a body, and anything but a normal end nowhere else.
structure Moment.Contained (m : Moment) (ending : Ending) : Prop where
  leave : ending = .leave → ∃ s ∈ m.standpoint.around, s.isLoop = true
  giveBack : ∀ v, ending = .giveBack v → ∃ c, m.standpoint.running = some c
  outermost : m.standpoint.running = none → m.standpoint.around = [] → ending = .normal

theorem Standpoint.Suits.contained {here : Standpoint} {σ : Setting} {ending : Ending} {a : Scene}
    (suits : here.Suits σ) (allowed : ending.Allowed σ) (event : Event) :
    Moment.Contained ⟨here, a, event⟩ ending := by
  refine ⟨fun leaves => ?_, fun v returns => ?_, fun outside alone => ?_⟩
  · subst leaves
    have inside : 0 < σ.around.countP Stmt.isLoop := allowed
    rw [← suits.around] at inside
    exact List.countP_pos_iff.mp inside
  · subst returns
    have inside : σ.body ≠ .outside := allowed.1
    exact Option.ne_none_iff_exists'.mp fun none => inside (suits.running.mp none)
  · cases ending with
    | normal => rfl
    | leave =>
      have inside : 0 < σ.around.countP Stmt.isLoop := allowed
      rw [← suits.around, alone] at inside
      exact absurd inside (Nat.lt_irrefl 0)
    | giveBack v => exact absurd (suits.running.mp outside) allowed.1

-- The statements of an accepted program run to the last one or to a fault.
theorem Chronicle.Sound.program_normal {c : Chronicle} (h : c.Sound) {fuel : Nat} {source : String}
    {program : List Stmt} {read : Session} {ending : Ending} {after : Machine}
    (given : Session.parse source c.session = (.done program, read))
    (clean : (resolveProgram program).faults = [])
    (ran : Stmt.executeAll fuel program
      (noting (resolveProgram program) read).2.machine = .ok ending after) : ending = .normal := by
  let root : Spot := ⟨.outermost, .stmts program⟩
  have rooted : (Inquiry.run fuel source).root c.session = (.done root, read) := by
    show (Session.parse source).andThen _ c.session = _
    unfold andThen
    rw [given]
    rfl
  have machine := (Inquiry.run fuel source).root_reads.machine c.session
  rw [rooted] at machine
  obtain ⟨-, -, accepted⟩ := h.ready rooted
  let ready := ({ c with nextRef := read.nextRef }.note root.code.resolution.notes).accept root
  have sound : ready.Sound := accepted clean
  have same : (noting (resolveProgram program) read).2.machine = ready.record.scene.machine := by
    show Machine.mk .. = _
    rw [show read.machine = c.record.scene.machine from machine]
    rfl
  have inside : ready.Lies root := ⟨root, List.mem_append_right _ List.mem_cons_self, .root⟩
  have meets : ready.record.scene.Meets .top .outermost := by
    refine ⟨?_, nofun, ⟨rfl, ⟨fun _ => rfl, fun _ => rfl⟩, nofun⟩⟩
    rw [sound.top]
    exact .top sound.record.scene.alone
  have upheld := (upholding ready.Lies fuel).stmts sound.record inside meets
  have erased := (erasing fuel).stmts program .top ready.record
  rw [same, ← erased] at ran
  unfold Upholds at upheld
  cases watched : Stmt.watchAll fuel program .top ready.record with
  | error halt last =>
    rw [watched] at ran
    cases ran
  | ok result last =>
    rw [watched] at ran upheld
    cases ran
    have allowed := upheld.2.2.1
    cases ending with
    | normal => rfl
    | leave => exact absurd allowed (Nat.lt_irrefl 0)
    | giveBack v => exact absurd rfl allowed.1

-- However the sources of a session were run or evaluated: no statement ends beyond the loop or body
-- around it, no body ends with a break, no initializer gives anything back but nil, and a
-- program that is accepted never stops early without a fault.
theorem endings_contained (sink : Sink) (clock : Nat) (qs : List Inquiry) :
    let c := (Chronicle.start sink clock).askAll qs
    c.session = qs.foldl (fun s q => (q.perform s).2) (.start sink clock) ∧
      (∀ m ∈ c.record.moments, ∀ s ending, m.event = .ends s ending → m.Contained ending) ∧
      (∀ m ∈ c.record.moments, ∀ callee ending, m.event = .returns callee ending →
        ending ≠ .leave ∧ (callee.initializes = true → ∀ v, ending = .giveBack v → v = .nil)) ∧
      ∀ fuel source program read ending after,
        Session.parse source c.session = (.done program, read) →
        (resolveProgram program).faults = [] →
        Stmt.executeAll fuel program (noting (resolveProgram program) read).2.machine = .ok ending after →
        ending = .normal := by
  intro c
  have sound : c.Sound := .from_start sink clock qs
  refine ⟨(Chronicle.start sink clock).session_askAll qs, fun m member s ending event => ?_,
    fun m member callee ending event => ?_, ?_⟩
  · obtain ⟨here, scene, _⟩ := m
    subst event
    obtain ⟨σ, _, suits, allowed⟩ := (sound.record.moments _ member).tells
    exact suits.contained allowed _
  · obtain ⟨here, scene, _⟩ := m
    subst event
    exact (sound.record.moments _ member).tells
  · intro fuel source program read ending after given clean ran
    exact sound.program_normal given clean ran

end ScopeScript
