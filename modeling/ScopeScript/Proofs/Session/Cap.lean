import ScopeScript.Proofs.Running.Cap
import ScopeScript.Proofs.Session.Chronicle

namespace ScopeScript

open Request Watching

theorem Code.watch_capping (n fuel : Nat) (code : Code) : Capping n (code.watch fuel) := by
  cases code with
  | stmts program => exact .bind ((runs_cap n fuel).stmts program) fun _ => .flush
  | expr e => exact .bind ((runs_cap n fuel).expr e) fun _ => .pure _
  | stmt s => exact .pure _
  | routine kind r => exact .pure _

-- A record on which nothing has happened but that depths were noted.
def Record.fresh (sink : Sink) (clock : Nat) (depths : Depths) : Record :=
  ⟨⟨{ Machine.start sink clock with depths := depths }, [none], [], [], []⟩, []⟩

-- What a run replies after a program was accepted.
def Watching.replied (warnings : List Warning) : EStateM.Result Halt Record Unit → Reply (List Warning)
  | .ok _ _ => .done warnings
  | .error (.fault f) _ => .rejected [.runtime f]
  | .error .outOfFuel _ => .unfinished

theorem Watching.replied_capped (warnings : List Warning) (n : Nat) (result : EStateM.Result Halt Record Unit) :
    replied warnings (capped n result) = replied warnings result := by
  cases result with
  | ok _ r => rfl
  | error halt r => cases halt <;> rfl

theorem Record.fresh_capped (flushFails : Bool) (clock n : Nat) (depths : Depths) :
    (fresh ⟨.empty, none, flushFails⟩ clock depths).capped n = fresh ⟨.empty, some n, flushFails⟩ clock depths := by
  have nothing : ByteArray.empty.extract 0 n = .empty := extract_short (Nat.zero_le n)
  unfold fresh Record.capped Scene.capped Machine.capped Sink.capped
  dsimp only [Machine.start]
  rw [nothing]
  rfl

-- No sink changes what is read from a source.
theorem Session.parse_started (source : String) : ∃ next,
    (∃ problems, ∀ sink clock,
      Session.parse source (.start sink clock) = (.rejected problems, ⟨.start sink clock, next⟩)) ∨
    ∃ program, ∀ sink clock, Session.parse source (.start sink clock) = (.done program, ⟨.start sink clock, next⟩) := by
  unfold Session.parse andThen scanning
  cases tokens source with
  | error faults => exact ⟨0, .inl ⟨_, fun _ _ => rfl⟩⟩
  | ok ts =>
    dsimp only [Request.ofExcept, reply, reading, Session.start]
    cases readProgram ts 0 with
    | mk answer next =>
      cases answer with
      | error faults => exact ⟨next, .inl ⟨_, fun _ _ => rfl⟩⟩
      | ok program => exact ⟨next, .inr ⟨program, fun _ _ => rfl⟩⟩

-- A source is turned down, or it is a program that runs, whatever the sink is.
theorem Session.run_started (source : String) : ∃ depths,
    (∃ reply, ∀ fuel sink clock, (Session.run fuel source (.start sink clock)).1 = reply ∧
      ((Chronicle.start sink clock).ask (.run fuel source)).record = .fresh sink clock depths) ∨
    ∃ program warnings, ∀ fuel sink clock,
      (Session.run fuel source (.start sink clock)).1 =
        Watching.replied warnings ((Code.stmts program).watch fuel .top (.fresh sink clock depths)) ∧
      ((Chronicle.start sink clock).ask (.run fuel source)).record =
        .after ((Code.stmts program).watch fuel .top (.fresh sink clock depths)) := by
  obtain ⟨next, ⟨problems, parsed⟩ | ⟨program, parsed⟩⟩ := Session.parse_started source
  · refine ⟨{}, .inl ⟨.rejected problems, fun fuel sink clock => ⟨?_, ?_⟩⟩⟩
    · unfold Session.run
      rw [andThen, parsed]
    · have root : (Inquiry.run fuel source).root (Chronicle.start sink clock).session =
          (.rejected problems, ⟨.start sink clock, next⟩) := by
        show ((Session.parse source).andThen _) (.start sink clock) = _
        rw [andThen, parsed]
      unfold Chronicle.ask
      rw [root]
      rfl
  · have root : ∀ fuel sink clock, (Inquiry.run fuel source).root (Chronicle.start sink clock).session =
        (.done ⟨.outermost, .stmts program⟩, ⟨.start sink clock, next⟩) := by
      intro fuel sink clock
      show ((Session.parse source).andThen _) (.start sink clock) = _
      rw [andThen, parsed]
      rfl
    unfold Session.run Chronicle.ask Session.resolve
    simp only [root]
    refine ⟨Depths.record {} (resolveProgram program).notes, ?_⟩
    cases found : (resolveProgram program).faults with
    | cons fault rest =>
      refine .inl ⟨.rejected ((fault :: rest).map .static), fun fuel sink clock => ⟨?_, ?_⟩⟩
      · rw [andThen, parsed]
        unfold andThen noting accepting
        dsimp only
        rw [found]
        rfl
      · have turned : (Code.stmts program).resolution.faults = fault :: rest := found
        rw [turned]
        rfl
    | nil =>
      refine .inr ⟨program, (resolveProgram program).warnings, fun fuel sink clock => ⟨?_, ?_⟩⟩
      · have same : forget ((Code.stmts program).watch fuel .top
            (.fresh sink clock (Depths.record {} (resolveProgram program).notes))) =
            runProgram fuel program { Machine.start sink clock with
              depths := (Machine.start sink clock).depths.record (resolveProgram program).notes } :=
          (Code.stmts program).watch_erases fuel .top _
        rw [andThen, parsed]
        unfold andThen noting accepting Session.carryOut running
        dsimp only
        rw [found]
        dsimp only [reply]
        rw [← same]
        cases (Code.stmts program).watch fuel .top (.fresh sink clock (Depths.record {} (resolveProgram program).notes)) with
        | ok _ after => rfl
        | error halt after => cases halt <;> rfl
      · have accepted : (Code.stmts program).resolution.faults = [] := found
        rw [accepted]
        rfl

-- A run leaves the machine where its record ends.
theorem Session.run_recorded (fuel : Nat) (source : String) (sink : Sink) (clock : Nat) :
    (Session.run fuel source (.start sink clock)).2.machine =
      ((Chronicle.start sink clock).ask (.run fuel source)).record.scene.machine := by
  have told := congrArg Session.machine ((Chronicle.start sink clock).session_ask (.run fuel source))
  have still : ∀ s : Session, ((Session.run fuel source).void s).2 = (Session.run fuel source s).2 := by
    intro s
    unfold void andThen
    cases Session.run fuel source s with
    | mk answer after => cases answer <;> rfl
  exact (congrArg Session.machine (still _)).symm.trans told.symm

-- A sink that fails after some bytes cuts the output there and changes nothing before. The run ends
-- inside the print that went past them, and nothing comes after it.
theorem sink_truncates (fuel n : Nat) (source : String) (flushFails : Bool) (clock : Nat) :
    let free : Sink := ⟨.empty, none, flushFails⟩
    let tight : Sink := ⟨.empty, some n, flushFails⟩
    let whole := Session.run fuel source (.start free clock)
    let cut := Session.run fuel source (.start tight clock)
    let told := ((Chronicle.start free clock).ask (.run fuel source)).record
    let heard := ((Chronicle.start tight clock).ask (.run fuel source)).record
    let output := whole.2.machine.sink.written
    whole.2.machine = told.scene.machine ∧ cut.2.machine = heard.scene.machine ∧
      cut.2.machine.sink.written = output.extract 0 n ∧
      (output.size ≤ n → cut.1 = whole.1 ∧ heard = told.capped n) ∧
      (n < output.size → ∃ before m behind keyword, told.moments = before ++ m :: behind ∧
        (∀ p ∈ before, p.scene.written.size ≤ n) ∧ m.Overruns n keyword ∧
        (∃ more, output = m.scene.written ++ more) ∧
        cut.1 = .rejected [.runtime ⟨.output .full, keyword⟩] ∧
        heard = ⟨(m.scene.capped n).move heard.scene.machine.scope, before.map (Moment.capped n)⟩) := by
  intro free tight whole cut told heard output
  have follows : ∀ sink, _ := fun sink => Session.run_recorded fuel source sink clock
  have output_told : output = told.scene.written := congrArg (·.sink.written) (follows free)
  have cut_heard : cut.2.machine.sink.written = heard.scene.written := congrArg (·.sink.written) (follows tight)
  refine ⟨follows free, follows tight, ?_⟩
  rw [cut_heard, output_told]
  obtain ⟨depths, ⟨reply, idle⟩ | ⟨program, warnings, runs⟩⟩ := Session.run_started source
  · -- Nothing runs, and nothing is written.
    obtain ⟨replied, record⟩ := idle fuel free clock
    obtain ⟨replied', record'⟩ := idle fuel tight clock
    have capped : heard = told.capped n :=
      record'.trans ((congrArg (Record.capped n) record).trans (Record.fresh_capped flushFails clock n depths)).symm
    have nothing : told.scene.written.size = 0 := by rw [show told = _ from record]; rfl
    rw [capped]
    exact ⟨rfl, fun _ => ⟨replied'.trans replied.symm, rfl⟩, fun beyond => by omega⟩
  · obtain ⟨replied, record⟩ := runs fuel free clock
    obtain ⟨replied', record'⟩ := runs fuel tight clock
    have room : (Record.fresh free clock depths).Fits n := ⟨Nat.zero_le n, fun _ none => absurd none List.not_mem_nil⟩
    have both := ((Code.stmts program).watch_capping n fuel .top (.fresh free clock depths) rfl).2 room
    rw [Record.fresh_capped] at both
    cases both with
    | fits room same =>
      have small : told.scene.written.size ≤ n := by rw [show told = _ from record]; exact room.scene
      rw [same] at record' replied'
      have capped : heard = told.capped n := by
        rw [show heard = _ from record', show told = _ from record, Watching.after_capped]
      have answer : cut.1 = whole.1 := by
        rw [show cut.1 = _ from replied', show whole.1 = _ from replied, Watching.replied_capped]
      rw [capped]
      exact ⟨rfl, fun _ => ⟨answer, rfl⟩, fun beyond => by omega⟩
    | @overruns before behind m keyword scope moments earlier beyond more stopped =>
      rw [stopped] at record' replied'
      rw [← record] at moments more
      obtain ⟨more, written⟩ := more
      have past : n ≤ m.scene.written.size := Nat.le_of_lt beyond.past
      have same : heard = ⟨(m.scene.capped n).move heard.scene.machine.scope, before.map (Moment.capped n)⟩ := by
        rw [show heard = _ from record']
        rfl
      have cutting : heard.scene.written = told.scene.written.extract 0 n := by
        rw [show told.scene.written = _ from written, ByteArray.extract_append, Nat.sub_eq_zero_of_le past, same]
        simp [Scene.written, Scene.move, Scene.capped, Machine.capped, Sink.capped]
      refine ⟨cutting, fun small => ?_, fun _ =>
        ⟨before, m, behind, keyword, moments, earlier, beyond, ⟨more, written⟩, replied', same⟩⟩
      rw [show told.scene.written = _ from written, ByteArray.size_append] at small
      have := beyond.past
      omega

end ScopeScript
