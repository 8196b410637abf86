import ScopeScript.Proofs.Scoping.Place
import ScopeScript.Proofs.Running.Run
import ScopeScript.Proofs.Session.Read

namespace ScopeScript

open Request

theorem Code.resolve_grows (code : Code) (w : Walk) : w.Grows (code.resolve w) (refsOf code.mentions) := by
  cases code with
  | expr e => exact e.resolve_grows w
  | stmt s => exact s.resolve_grows w
  | stmts ss => exact Stmt.resolveAll_grows ss w
  | routine kind r => exact r.resolve_grows kind w

theorem Spot.Fresh.passed {root : Spot} (h : root.Fresh low high) :
    root.Passed (root.code.resolve .start) := by
  obtain ⟨outermost, ordered, _, _⟩ := h
  have follows : Walk.start.Follows root.setting := by
    rw [outermost]
    exact ⟨.nil, rfl, rfl, rfl⟩
  exact ⟨ordered, .start, [], follows, .refl _ _⟩

theorem Spot.Fresh.placed {root : Spot} (h : root.Fresh low high) : root.Placed := by
  unfold Spot.Placed
  rw [h.outermost]
  trivial

theorem Spot.Fresh.proper {root : Spot} (h : root.Fresh low high) : root.Proper := by
  obtain ⟨σ, code⟩ := root
  obtain ⟨rfl, _, spelled, _⟩ := h
  refine ⟨spelled, nofun, ?_⟩
  cases code with
  | routine kind r => exact .routine .nil
  | _ => exact .nil

theorem Spot.Fresh.notes {root : Spot} (h : root.Fresh low high) :
    Numbered low high (root.code.resolution.notes.map Note.id) := by
  obtain ⟨more, same, below⟩ := (root.code.resolve_grows .start).notes
  have given : root.code.resolution.notes = more := same
  rw [given]
  exact h.numbered.sublist below

-- Without a fault the notes of the walk make everything inside lawful.
theorem Spot.Fresh.lawful {root : Spot} (h : root.Fresh low high) (clean : root.code.resolution.faults = [])
    (depths : Depths) : Lawful root.Within (depths.record root.code.resolution.notes) := by
  have faultless : (root.code.resolve .start).faults = #[] := Array.toList_eq_nil_iff.mp clean
  exact h.passed.lawful faultless h.proper (Depths.record_exact depths _ h.notes.1)

theorem Lawful.of_each {roots : List Spot} (each : ∀ root ∈ roots, Lawful root.Within depths) :
    Lawful (fun S => ∃ root ∈ roots, root.Within S) depths where
  part := fun ⟨root, member, inside⟩ below => ⟨root, member, .part inside below⟩
  proper := fun ⟨root, member, inside⟩ => (each root member).proper inside
  refers := fun ⟨root, member, inside⟩ => (each root member).refers inside
  receives := fun ⟨root, member, inside⟩ => (each root member).receives inside
  leaves := fun ⟨root, member, inside⟩ => (each root member).leaves inside
  returns := fun ⟨root, member, inside⟩ => (each root member).returns inside
  returnsNone := fun ⟨root, member, inside⟩ => (each root member).returnsNone inside
  declares := fun ⟨root, member, inside⟩ => (each root member).declares inside
  branchYes := fun ⟨root, member, inside⟩ => (each root member).branchYes inside
  branchNo := fun ⟨root, member, inside⟩ => (each root member).branchNo inside
  turns := fun ⟨root, member, inside⟩ => (each root member).turns inside

namespace Chronicle

def Lies (c : Chronicle) (S : Spot) : Prop := ∃ root ∈ c.accepted, root.Within S

-- An accepted source keeps its ids, so what its walk noted stays.
structure Accepts (c : Chronicle) (root : Spot) : Prop where
  passed : ∃ final, root.Passed final
  placed : root.Placed
  lawful : Lawful root.Within c.record.scene.machine.depths
  old : ∀ i ∈ refsOf root.code.mentions, i < c.nextRef

structure Sound (c : Chronicle) : Prop where
  accepts : ∀ root ∈ c.accepted, c.Accepts root
  record : c.record.Sound c.Lies
  top : c.record.scene.machine.scope = c.record.scene.machine.globals

theorem start_sound (sink : Sink) (clock : Nat) : (start sink clock).Sound := by
  have first : (start sink clock).record.scene.machine.store =
      (Store.empty.openScope [] [("clock", .callee .clock)]).2 := rfl
  have globals : (start sink clock).record.scene.machine.globals = Store.empty.scopes.size := rfl
  have alone : (start sink clock).record.scene.machine.store.chain
      (start sink clock).record.scene.machine.globals = [(start sink clock).record.scene.machine.globals] := by
    rw [first, globals, Store.chain_openScope, if_pos rfl]
  have nothing : ∀ root ∈ (start sink clock).accepted, (start sink clock).Accepts root := by
    intro root member
    cases member
  have lawful : Lawful (start sink clock).Lies (start sink clock).record.scene.machine.depths :=
    .of_each fun root member => (nothing root member).lawful
  have unmarked : ∀ m, m ∉ (start sink clock).record.moments := fun m => List.not_mem_nil
  have unattached : ∀ f i, (f, i) ∉ (start sink clock).record.scene.attached := fun f i => List.not_mem_nil
  have receivers : (start sink clock).record.scene.Receivers := by
    refine ⟨fun f i member => absurd member (unattached f i), fun scope receives => ?_,
      fun f i _ _ member => absurd member (unattached f i), fun s t member => ?_,
      fun _ _ _ f i _ _ member => absurd member (unattached f i)⟩
    · obtain ⟨methods, label⟩ := receives
      have bare := List.mem_singleton.mp (List.mem_of_getElem? label)
      cases bare
    · rw [first, Store.chain_openScope] at member
      split at member
      · rw [List.mem_singleton.mp member, ‹s = _›]
        exact Nat.lt_succ_self _
      · cases member
  refine ⟨nothing, ⟨⟨lawful, alone, ?_, ?_, rfl, rfl, rfl, ?_, receivers, ?_⟩, fun m member => absurd member (unmarked m),
    fun m member => absurd member (unmarked m), .nil, fun m member => absurd member (unmarked m), .nil,
    fun s r label => ?_⟩, rfl⟩
  · intro s name v found
    rw [first, Store.own?_openScope] at found
    split at found
    · rw [Names.get?_cons] at found
      split at found
      · cases found
        trivial
      · cases found
    · cases found
  · intro i name v found
    cases found
  · intro s name begun
    cases begun
  · intro region label
    cases List.mem_singleton.mp label
  · cases List.mem_singleton.mp (List.mem_of_getElem? label)

-- Notes on new ids change nothing for code that was accepted before.
theorem Sound.note_sound {c : Chronicle} (h : c.Sound) {next : RefId} (later : c.nextRef ≤ next) (notes : List Note)
    (new : Numbered c.nextRef next (notes.map Note.id)) : ({ c with nextRef := next }.note notes).Sound := by
  have kept : ∀ i < c.nextRef, (c.record.scene.machine.depths.record notes)[i]? =
      c.record.scene.machine.depths[i]? := by
    intro i old
    refine Depths.record_other _ _ _ fun member => ?_
    exact absurd (new.2 i member).1 (Nat.not_le_of_lt old)
  have each : ∀ root ∈ c.accepted, Lawful root.Within (c.record.scene.machine.depths.record notes) := by
    intro root member
    have accepts := h.accepts root member
    refine { accepts.lawful with refers := fun inside refers => ?_ }
    rw [kept _ (accepts.old _ (inside.ref_mem refers))]
    exact accepts.lawful.refers inside refers
  have noted : c.record.scene.Leads c.Lies ({ c with nextRef := next }.note notes).record.scene :=
    { Scene.Leads.refl c.record.scene with }
  refine ⟨fun root member => ?_, ⟨?_, h.record.moments, h.record.attached, h.record.ordered,
    fun m member => (h.record.leads m member).trans noted, h.record.constant, h.record.furnished⟩, h.top⟩
  · have accepts := h.accepts root member
    exact ⟨accepts.passed, accepts.placed, each root member,
      fun i used => Nat.lt_of_lt_of_le (accepts.old i used) later⟩
  · exact h.record.scene.widen (fun _ inside => inside) (.of_each each)

theorem Sound.accept_sound {c : Chronicle} (h : c.Sound) {root : Spot} (accepts : c.Accepts root) :
    (c.accept root).Sound := by
  have each : ∀ other ∈ c.accepted ++ [root], c.Accepts other := by
    intro other member
    rcases List.mem_append.mp member with before | last
    · exact h.accepts other before
    · rw [List.mem_singleton.mp last]
      exact accepts
  have more : ∀ S, c.Lies S → (c.accept root).Lies S := fun S ⟨other, member, inside⟩ =>
    ⟨other, List.mem_append_left _ member, inside⟩
  refine ⟨fun other member => ?_, ⟨?_, fun m member => ?_, h.record.attached, h.record.ordered,
    fun m member => (h.record.leads m member).widen more, h.record.constant.imp fun leads => leads.widen more,
    h.record.furnished⟩, h.top⟩
  · have before := each other member
    exact ⟨before.passed, before.placed, before.lawful, before.old⟩
  · exact h.record.scene.widen more (.of_each fun other member => (each other member).lawful)
  · exact (h.record.moments m member).widen more

end Chronicle

theorem Upholds.after {lies : Spot → Prop} {good : α → Scene → Prop} {x : Watching α}
    (h : Upholds lies names good x here r) :
    r.scene.Steps lies names (Record.after (x here r)).scene ∧ (Record.after (x here r)).Sound lies := by
  unfold Upholds at h
  cases ran : x here r with
  | ok result after =>
    rw [ran] at h
    exact ⟨h.1, h.2.1⟩
  | error halt after =>
    rw [ran] at h
    exact ⟨h.1, h.2.1⟩

-- A run at the top keeps everything sound.
theorem Code.watch_upholds {lies : Spot → Prop} {r : Record} (sound : r.Sound lies)
    (inside : lies ⟨.outermost, code⟩) (top : r.scene.machine.scope = r.scene.machine.globals) (fuel : Nat) :
    Upholds lies code.declares (fun _ _ => True) (code.watch fuel) .top r := by
  have stands : r.scene.Stands .outermost Standpoint.top.display r.scene.machine.scope := by
    rw [top]
    exact .top sound.scene.alone
  have meets : r.scene.Meets .top .outermost := by
    refine ⟨stands, nofun, ⟨rfl, ⟨fun _ => rfl, fun _ => rfl⟩, nofun⟩⟩
  cases code with
  | stmts program =>
    have run := (upholding lies fuel).stmts sound inside meets
    exact run.bind fun _ after _ kept _ => .flush kept
  | expr e =>
    have run := (upholding lies fuel).expr sound inside stands
    exact run.bind fun _ after _ kept _ => .pure kept () trivial
  | stmt s => exact .pure sound () trivial
  | routine kind r => exact .pure sound () trivial

theorem Upholds.blames {lies : Spot → Prop} {good : α → Scene → Prop} {x : Watching α}
    {stop : Halt} {last : Record} (h : Upholds lies names good x here r)
    (ran : x here r = .error stop last) : last.Blames stop := by
  unfold Upholds at h
  rw [ran] at h
  exact h.2.2

namespace Chronicle

theorem Sound.upholds {c : Chronicle} (h : c.Sound) {root : Spot} (member : root ∈ c.accepted)
    (outermost : root.setting = .outermost) (fuel : Nat) :
    Upholds c.Lies root.code.declares (fun _ _ => True) (root.code.watch fuel) .top c.record := by
  refine Code.watch_upholds h.record ⟨root, member, ?_⟩ h.top fuel
  rw [← outermost]
  exact .root

theorem Sound.run_sound {c : Chronicle} (h : c.Sound) {root : Spot} (member : root ∈ c.accepted)
    (outermost : root.setting = .outermost) (fuel : Nat) : (c.run fuel root.code).Sound := by
  obtain ⟨grows, sound⟩ := (h.upholds member outermost fuel).after
  refine ⟨fun other known => ?_, sound, ?_⟩
  · have accepts := h.accepts other known
    have lawful : Lawful other.Within (c.run fuel root.code).record.scene.machine.depths := by
      rw [show (c.run fuel root.code).record.scene.machine.depths = _ from grows.depths]
      exact accepts.lawful
    exact ⟨accepts.passed, accepts.placed, lawful, accepts.old⟩
  · exact grows.scope.trans (h.top.trans grows.globals.symm)

-- What is read and resolved without a fault may run.
theorem Sound.ready {c : Chronicle} (h : c.Sound) {q : Inquiry} {root : Spot} {read : Session}
    (given : q.root c.session = (.done root, read)) :
    root.setting = .outermost ∧ ({ c with nextRef := read.nextRef }.note root.code.resolution.notes).Sound ∧
      (root.code.resolution.faults = [] →
        (({ c with nextRef := read.nextRef }.note root.code.resolution.notes).accept root).Sound) := by
  obtain ⟨later, fresh⟩ := q.root_fresh c.session
  rw [given] at later fresh
  have new := fresh root rfl
  have kept := h.note_sound later _ new.notes
  refine ⟨new.outermost, kept, fun clean => kept.accept_sound ?_⟩
  exact ⟨⟨_, new.passed⟩, new.placed, new.lawful clean c.record.scene.machine.depths,
    fun i used => (new.numbered.2 i used).2⟩

theorem Sound.ask_sound {c : Chronicle} (h : c.Sound) (q : Inquiry) : (c.ask q).Sound := by
  have later := (q.root_fresh c.session).1
  have nothing : Numbered c.nextRef (q.root c.session).2.nextRef (([] : List Note).map Note.id) :=
    ⟨.nil, nofun⟩
  have read_only := h.note_sound later [] nothing
  unfold ask
  cases given : q.root c.session with
  | mk answer read =>
    rw [given] at read_only
    cases answer with
    | rejected problems => exact read_only
    | unfinished => exact read_only
    | done root =>
      obtain ⟨outermost, noted, accepted⟩ := h.ready given
      dsimp only
      cases clean : root.code.resolution.faults with
      | cons fault rest => exact noted
      | nil =>
        exact (accepted clean).run_sound (List.mem_append_right _ List.mem_cons_self) outermost q.fuel

-- The fault that ends an inquiry is blamed on its last look-up.
theorem Sound.ask_blames {c : Chronicle} (h : c.Sound) {q : Inquiry} {f : RuntimeFault}
    (failed : (q.perform c.session).1 = .rejected [.runtime f]) : (c.ask q).record.Blames (.fault f) := by
  rw [q.perform_exact, andThen] at failed
  have reads := q.root_reads
  have kept := reads.machine c.session
  have others := reads.problems c.session [.runtime f] f
  unfold ask
  cases given : q.root c.session with
  | mk answer read =>
    rw [given] at failed kept others
    obtain ⟨machine, next⟩ := read
    cases kept
    cases answer with
    | rejected problems =>
      cases failed
      exact absurd List.mem_cons_self (others rfl)
    | unfinished => cases failed
    | done root =>
      obtain ⟨outermost, noted, accepted⟩ := h.ready given
      let ready := ({ c with nextRef := next }.note root.code.resolution.notes).accept root
      change ((accepting root.code.resolution).andThen (fun _ => running (root.code.run q.fuel))
        ready.session).1 = _ at failed
      unfold andThen accepting at failed
      dsimp only
      cases clean : root.code.resolution.faults with
      | cons fault rest =>
        rw [clean] at failed
        cases failed
      | nil =>
        rw [clean] at failed
        have upheld := (accepted clean).upholds (List.mem_append_right _ List.mem_cons_self) outermost q.fuel
        have erased := root.code.watch_erases q.fuel .top ready.record
        change (running (root.code.run q.fuel) ready.session).1 = _ at failed
        unfold running at failed
        rw [show ready.session.machine = ready.record.scene.machine from rfl, ← erased] at failed
        show (Record.after (root.code.watch q.fuel .top ready.record)).Blames (.fault f)
        cases ran : root.code.watch q.fuel .top ready.record with
        | ok result after =>
          rw [ran] at failed
          cases failed
        | error halt after =>
          rw [ran] at failed
          cases halt with
          | outOfFuel => cases failed
          | fault g =>
            cases failed
            exact upheld.blames ran

theorem askAll_sound (qs : List Inquiry) {c : Chronicle} (h : c.Sound) : (c.askAll qs).Sound := by
  induction qs generalizing c with
  | nil => exact h
  | cons q rest ih => exact ih (h.ask_sound q)

theorem Sound.from_start (sink : Sink) (clock : Nat) (qs : List Inquiry) :
    ((start sink clock).askAll qs).Sound :=
  askAll_sound qs (start_sound sink clock)

end Chronicle

end ScopeScript
