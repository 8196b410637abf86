import ScopeScript.Session
import ScopeScript.Proofs.Scoping.Descend
import ScopeScript.Proofs.Running.Erase

namespace ScopeScript

open Watching Request

namespace Request

def void (r : Request α) : Request Unit := r.andThen fun _ => reply ()

theorem andThen_assoc (r : Request α) (f : α → Request β) (g : β → Request γ) :
    (r.andThen f).andThen g = r.andThen fun result => (f result).andThen g := by
  funext s
  unfold andThen
  cases r s with
  | mk answer s =>
    cases answer with
    | done result => rfl
    | rejected problems => rfl
    | unfinished => rfl

theorem running_andThen (action : Running α) (f : α → β) :
    ((running action).andThen fun a => reply (f a)) = running (action >>= fun a => pure (f a)) := by
  funext s
  unfold andThen running
  have same : (action >>= fun a => pure (f a)) s.machine = EStateM.bind action (fun a => pure (f a)) s.machine :=
    rfl
  rw [same]
  unfold EStateM.bind
  cases action s.machine with
  | ok result machine => rfl
  | error halt machine =>
    cases halt with
    | fault f => rfl
    | outOfFuel => rfl

theorem running_void (action : Running α) :
    (running action).void = running (action >>= fun _ => pure ()) :=
  running_andThen action fun _ => ()

theorem void_void (r : Request Unit) : r.void = r := by
  funext s
  unfold void andThen
  cases r s with
  | mk answer s =>
    cases answer with
    | done result => rfl
    | rejected problems => rfl
    | unfinished => rfl

end Request

-- A source to run as a program or to evaluate as an expression.
inductive Inquiry where
  | run (fuel : Nat) (source : String)
  | evaluate (fuel : Nat) (source : String)

namespace Inquiry

def fuel : Inquiry → Nat
  | run fuel _ => fuel
  | evaluate fuel _ => fuel

def perform : Inquiry → Request Unit
  | run fuel source => (Session.run fuel source).void
  | evaluate fuel source => (Session.evaluate fuel source).void

-- What is read from the source, outside every region.
def root : Inquiry → Request Spot
  | run _ source => (Session.parse source).andThen fun program => reply ⟨.outermost, .stmts program⟩
  | evaluate _ source => (Session.parseExpression source).andThen fun e => reply ⟨.outermost, .expr e⟩

end Inquiry

def Code.resolution (code : Code) : Resolution := (code.resolve .start).resolution

def Code.run (fuel : Nat) : Code → Running Unit
  | .stmts program => runProgram fuel program
  | .expr e => do
    let _ ← e.evaluate fuel
  | _ => return

def Code.watch (fuel : Nat) : Code → Watching Unit
  | .stmts program => do
    let _ ← Stmt.watchAll fuel program
    lift Running.flush
  | .expr e => do
    let _ ← e.watch fuel
  | _ => return

-- Every inquiry goes the same way: its source is read and resolved, and runs if it is accepted.
theorem Inquiry.perform_exact (q : Inquiry) : q.perform = q.root.andThen fun root =>
    (noting root.code.resolution).andThen fun resolution =>
      (accepting resolution).andThen fun _ => running (root.code.run q.fuel) := by
  cases q with
  | run fuel source =>
    unfold perform root void Session.run Session.resolve
    simp only [andThen_assoc]
    exact congrArg _ (funext fun program => congrArg _ (funext fun resolution => congrArg _ (funext fun _ =>
      void_void (Session.carryOut fuel program))))
  | evaluate fuel source =>
    unfold perform root void Session.evaluate
    simp only [andThen_assoc]
    exact congrArg _ (funext fun e => congrArg _ (funext fun resolution => congrArg _ (funext fun _ =>
      running_void (e.evaluate fuel))))

theorem Code.watch_erases (fuel : Nat) (code : Code) : Erases (code.watch fuel) (code.run fuel) := by
  cases code with
  | expr e => exact .bind ((erasing fuel).expr e) fun _ => .pure _
  | stmt s => exact .pure _
  | stmts program => exact .bind ((erasing fuel).stmts program) fun _ => .lift _
  | routine kind r => exact .pure _

-- What happened on a session: the record of its runs, and the code that it accepted.
structure Chronicle where
  record : Record
  nextRef : RefId
  accepted : List Spot

namespace Chronicle

def session (c : Chronicle) : Session := ⟨c.record.scene.machine, c.nextRef⟩

def start (sink : Sink) (clock : Nat) : Chronicle := ⟨⟨⟨.start sink clock, [none], [], [], []⟩, []⟩, 0, []⟩

def note (c : Chronicle) (notes : List Note) : Chronicle :=
  let machine := c.record.scene.machine
  let noted := { machine with depths := machine.depths.record notes }
  { c with record := { c.record with scene := { c.record.scene with machine := noted } } }

def accept (c : Chronicle) (root : Spot) : Chronicle := { c with accepted := c.accepted ++ [root] }

def run (c : Chronicle) (fuel : Nat) (code : Code) : Chronicle :=
  { c with record := .after (code.watch fuel .top c.record) }

def ask (c : Chronicle) (q : Inquiry) : Chronicle :=
  match q.root c.session with
  | (.done root, read) =>
    let noted := { c with nextRef := read.nextRef }.note root.code.resolution.notes
    match root.code.resolution.faults with
    | [] => (noted.accept root).run q.fuel root.code
    | _ => noted
  | (_, read) => { c with nextRef := read.nextRef }

def askAll (c : Chronicle) (qs : List Inquiry) : Chronicle := qs.foldl ask c

end Chronicle

-- A request that runs nothing: the machine stays as it was, and no problem comes from a run.
structure Request.Reads (r : Request α) : Prop where
  machine : ∀ s, (r s).2.machine = s.machine
  problems : ∀ s problems f, (r s).1 = .rejected problems → .runtime f ∉ problems

namespace Request.Reads

theorem reply (result : α) : (Request.reply result).Reads := by
  refine ⟨fun _ => rfl, fun s problems f rejected => ?_⟩
  cases rejected

theorem andThen {r : Request α} {f : α → Request β} (first : r.Reads) (next : ∀ result, (f result).Reads) :
    (r.andThen f).Reads := by
  constructor
  · intro s
    have kept := first.machine s
    unfold Request.andThen
    cases given : r s with
    | mk answer read =>
      rw [given] at kept
      cases answer with
      | done result => exact ((next result).machine read).trans kept
      | rejected problems => exact kept
      | unfinished => exact kept
  · intro s problems fault rejected
    have others := first.problems s problems fault
    unfold Request.andThen at rejected
    cases given : r s with
    | mk answer read =>
      rw [given] at rejected others
      cases answer with
      | done result => exact (next result).problems read problems fault rejected
      | rejected given =>
        cases rejected
        exact others rfl
      | unfinished => cases rejected

theorem ofExcept (wrap : ε → Problem) (result : Except (List ε) α) (early : ∀ e f, wrap e ≠ .runtime f) :
    (Request.ofExcept wrap result).Reads := by
  cases result with
  | ok result => exact .reply result
  | error faults =>
    refine ⟨fun _ => rfl, fun s problems f rejected member => ?_⟩
    cases rejected
    obtain ⟨e, _, same⟩ := List.mem_map.mp member
    exact early e f same

theorem reading (reader : List Token → RefId → Except (List SyntaxFault) α × RefId) (ts : List Token) :
    (Request.reading reader ts).Reads := by
  have answered : ∀ s, (Request.ofExcept Problem.syntactic (reader ts s).1).Reads := fun s => by
    refine ofExcept _ _ fun e f same => ?_
    cases same
  exact ⟨fun s => (answered s.nextRef).machine _, fun s => (answered s.nextRef).problems _⟩

theorem scanning (source : String) : (Request.scanning source).Reads := by
  refine ofExcept _ _ fun e f same => ?_
  cases same

theorem parse (source : String) : (Session.parse source).Reads := .andThen (.scanning source) fun ts => .reading _ ts

theorem parseExpression (source : String) : (Session.parseExpression source).Reads :=
  .andThen (.scanning source) fun ts => .reading _ ts

end Request.Reads

theorem Inquiry.root_reads (q : Inquiry) : q.root.Reads := by
  cases q with
  | run fuel source => exact .andThen (.parse source) fun _ => .reply _
  | evaluate fuel source => exact .andThen (.parseExpression source) fun _ => .reply _

namespace Chronicle

theorem session_run (c : Chronicle) (fuel : Nat) (code : Code) :
    (c.run fuel code).session = (running (code.run fuel) c.session).2 := by
  have same := code.watch_erases fuel .top c.record
  unfold run session running
  dsimp only
  rw [← same]
  cases code.watch fuel .top c.record with
  | ok result r => rfl
  | error halt r =>
    cases halt with
    | fault f => rfl
    | outOfFuel => rfl

-- A chronicle goes along with its session.
theorem session_ask (c : Chronicle) (q : Inquiry) : (c.ask q).session = (q.perform c.session).2 := by
  rw [q.perform_exact]
  have kept := q.root_reads.machine c.session
  unfold ask
  rw [andThen]
  cases given : q.root c.session with
  | mk answer read =>
    rw [given] at kept
    obtain ⟨machine, next⟩ := read
    cases kept
    cases answer with
    | rejected problems => rfl
    | unfinished => rfl
    | done root =>
      let noted := { c with nextRef := next }.note root.code.resolution.notes
      show Chronicle.session (match root.code.resolution.faults with | [] => _ | _ => noted) =
        ((accepting root.code.resolution).andThen (fun _ => running (root.code.run q.fuel)) noted.session).2
      unfold andThen accepting
      cases root.code.resolution.faults with
      | nil => exact session_run (noted.accept root) q.fuel root.code
      | cons fault rest => rfl

theorem session_askAll (c : Chronicle) (qs : List Inquiry) :
    (c.askAll qs).session = qs.foldl (fun s q => (q.perform s).2) c.session := by
  induction qs generalizing c with
  | nil => rfl
  | cons q rest ih =>
    show ((c.ask q).askAll rest).session = rest.foldl _ (q.perform c.session).2
    rw [ih, c.session_ask]

end Chronicle

end ScopeScript
