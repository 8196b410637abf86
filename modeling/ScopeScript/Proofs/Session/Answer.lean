import ScopeScript.Proofs.Running.Alike
import ScopeScript.Proofs.Scoping.Nameless
import ScopeScript.Proofs.Session.Accept

namespace ScopeScript

open Request
open Running (Renames)

def Reply.map (f : α → β) : Reply α → Reply β
  | .done result => .done (f result)
  | .rejected problems => .rejected problems
  | .unfinished => .unfinished

theorem Reply.map_map (f : α → β) (g : β → γ) (r : Reply α) : (r.map f).map g = r.map fun a => g (f a) := by
  cases r <;> rfl

-- Two replies that become one are of one kind.
theorem Reply.of_map {f : α → γ} {g : β → γ} {r : Reply α} {r' : Reply β} (same : r.map f = r'.map g) :
    (∃ a b, r = .done a ∧ r' = .done b ∧ f a = g b) ∨
      (∃ problems, r = .rejected problems ∧ r' = .rejected problems) ∨ r = .unfinished ∧ r' = .unfinished := by
  cases r with
  | done a =>
    cases r' with
    | done b => exact .inl ⟨a, b, rfl, rfl, Reply.done.inj same⟩
    | rejected problems => cases same
    | unfinished => cases same
  | rejected problems =>
    cases r' with
    | rejected problems' => exact .inr (.inl ⟨problems, rfl, congrArg Reply.rejected (Reply.rejected.inj same).symm⟩)
    | done b => cases same
    | unfinished => cases same
  | unfinished =>
    cases r' with
    | unfinished => exact .inr (.inr ⟨rfl, rfl⟩)
    | done b => cases same
    | rejected problems => cases same

-- What an inquiry gives: the warnings of a program that ran to its end, or the value of an expression.
inductive Answer where
  | warnings (list : List Warning)
  | value (v : Value)

namespace Answer

def rename (ρ : Renaming) : Answer → Answer
  | warnings list => warnings list
  | value v => value (v.rename ρ)

theorem rename_rename (ρ τ : Renaming) (a : Answer) : (a.rename ρ).rename τ = a.rename (ρ.andThen τ) := by
  cases a with
  | warnings list => rfl
  | value v => exact congrArg value (v.rename_rename ρ τ)

end Answer

def Inquiry.answer : Inquiry → Request Answer
  | .run fuel source => (Session.run fuel source).andThen fun list => reply (.warnings list)
  | .evaluate fuel source => (Session.evaluate fuel source).andThen fun v => reply (.value v)

def Code.answer (fuel : Nat) (list : List Warning) : Code → Running Answer
  | .stmts program => do
    runProgram fuel program
    return .warnings list
  | .expr e => do
    let v ← e.evaluate fuel
    return .value v
  | _ => return .warnings list

theorem Inquiry.answer_exact (q : Inquiry) : q.answer = q.root.andThen fun root =>
    (noting root.code.resolution).andThen fun resolution =>
      (accepting resolution).andThen fun list => running (root.code.answer q.fuel list) := by
  cases q with
  | run fuel source =>
    unfold answer root Session.run Session.resolve
    simp only [andThen_assoc]
    exact congrArg _ (funext fun program => congrArg _ (funext fun resolution => congrArg _ (funext fun list =>
      running_andThen (runProgram fuel program) fun _ => Answer.warnings list)))
  | evaluate fuel source =>
    unfold answer root Session.evaluate
    simp only [andThen_assoc]
    exact congrArg _ (funext fun e => congrArg _ (funext fun resolution => congrArg _ (funext fun _ =>
      running_andThen (e.evaluate fuel) Answer.value)))

-- The answer changes nothing about what the inquiry does.
theorem Inquiry.answer_void (q : Inquiry) : q.answer.void = q.perform := by
  cases q with
  | run fuel source =>
    unfold answer void
    rw [andThen_assoc]
    rfl
  | evaluate fuel source =>
    unfold answer void
    rw [andThen_assoc]
    rfl

theorem Inquiry.answer_after (q : Inquiry) (s : Session) : (q.answer s).2 = (q.perform s).2 := by
  rw [← q.answer_void]
  unfold void andThen
  cases q.answer s with
  | mk given after => cases given <;> rfl

theorem Inquiry.answer_rejected {q : Inquiry} {s : Session} {problems : List Problem}
    (rejected : (q.perform s).1 = .rejected problems) : (q.answer s).1 = .rejected problems := by
  rw [← q.answer_void] at rejected
  unfold void andThen at rejected
  cases given : q.answer s with
  | mk answer after =>
    rw [given] at rejected
    cases answer with
    | done result => cases rejected
    | rejected others =>
      obtain rfl := Reply.rejected.inj rejected
      rfl
    | unfinished => cases rejected

theorem Code.answer_renames {ρ : Renaming} {old new : Depths} (agrees : ρ.Agrees old new)
    (front : ρ.place ⟨0, 0⟩ = ⟨0, 0⟩) (fuel : Nat) (list : List Warning) (code : Code) :
    Renames ρ old new (Answer.rename ρ) (code.answer fuel list) ((code.rename ρ).answer fuel list) := by
  cases code with
  | stmts program =>
    exact .bind (.bind ((commuting agrees fuel).stmts program) fun _ => .flush front) fun _ => .pure rfl
  | expr e => exact .bind ((commuting agrees fuel).expr e) fun _ => .pure rfl
  | stmt s => exact .pure rfl
  | routine kind r => exact .pure rfl

theorem Request.running_rejected {action : Running α} {s : Session} {problems : List Problem}
    (rejected : (running action s).1 = .rejected problems) : ∃ f, problems = [.runtime f] := by
  unfold running at rejected
  cases ran : action s.machine with
  | ok result after =>
    rw [ran] at rejected
    cases rejected
  | error halt after =>
    rw [ran] at rejected
    cases halt with
    | fault f => exact ⟨f, (Reply.rejected.inj rejected).symm⟩
    | outOfFuel => cases rejected

-- Two runs that come to the same, as requests.
theorem Twins.running {s t : Session} {f : α → γ} {g : β → γ} {x : Running α} {y : Running β}
    (h : Twins id f g (x s.machine) (y t.machine)) :
    (running x s).1.map f = (running y t).1.map g ∧ (running x s).2.machine.Alike id (running y t).2.machine := by
  unfold Request.running
  generalize x s.machine = ran at h
  generalize y t.machine = ran' at h
  cases h with
  | ok results alike => exact ⟨congrArg Reply.done results, alike⟩
  | @error halt halt' m n halts alike =>
    cases halt with
    | fault f =>
      cases halt' with
      | fault g =>
        obtain rfl : f = g := Halt.fault.inj halts
        exact ⟨rfl, alike⟩
      | outOfFuel => cases halts
    | outOfFuel =>
      cases halt' with
      | fault g => cases halts
      | outOfFuel => exact ⟨rfl, alike⟩

namespace Session

-- The session on which some code runs.
def note (s : Session) (code : Code) (next : RefId) : Session :=
  ⟨{ s.machine with depths := s.machine.depths.record code.resolution.notes }, next⟩

-- What an inquiry comes to, from what was read.
def conclude (s : Session) (fuel : Nat) (next : RefId) : Reply Spot → Reply Answer × Session
  | .done root =>
    match root.code.resolution.faults with
    | [] => Request.running (root.code.answer fuel root.code.resolution.warnings) (s.note root.code next)
    | faults => (.rejected (faults.map .static), s.note root.code next)
  | .rejected problems => (.rejected problems, ⟨s.machine, next⟩)
  | .unfinished => (.unfinished, ⟨s.machine, next⟩)

theorem concludes (s : Session) (q : Inquiry) : ∃ next, s.nextRef ≤ next ∧
    (∀ root, (q.root s).1 = .done root → root.Fresh s.nextRef next) ∧
      q.answer s = s.conclude q.fuel next (q.root s).1 := by
  obtain ⟨later, fresh⟩ := q.root_fresh s
  have kept := q.root_reads.machine s
  refine ⟨(q.root s).2.nextRef, later, fresh, ?_⟩
  rw [q.answer_exact, andThen]
  cases given : q.root s with
  | mk read after =>
    rw [given] at kept
    obtain ⟨machine, next⟩ := after
    obtain rfl : machine = s.machine := kept
    cases read with
    | rejected problems => rfl
    | unfinished => rfl
    | done root =>
      unfold andThen noting accepting conclude
      dsimp only
      cases root.code.resolution.faults with
      | nil => rfl
      | cons fault rest => rfl

end Session

end ScopeScript
