import ScopeScript.Proofs.Running.Copy
import ScopeScript.Proofs.Session.Cite
import ScopeScript.Proofs.Session.Return
import ScopeScript.Proofs.Session.Sourced

namespace ScopeScript

open Request

def runProgramBy (M : Manner) (fuel : Nat) (program : List Stmt) : Running Unit := do
  let _ ← Stmt.executeAllBy M fuel program
  Running.flush

def executeDetachedBy (M : Manner) (fuel : Nat) (bindings : Names Value) (body : List Stmt) : Running Ending := do
  let scope ← Running.withStore fun s => s.openScope [] bindings
  Running.within scope (Stmt.executeAllBy M fuel body)

-- An errand with an evaluator of another manner. Reading and resolving do not depend on it.
def Errand.performBy (M : Manner) : Errand → Request Unit
  | run fuel source =>
    ((Session.parse source).andThen fun program => (Session.resolve program).andThen fun warnings =>
      (running (runProgramBy M fuel program)).andThen fun _ => reply warnings).void
  | evaluate fuel source =>
    ((Session.parseExpression source).andThen fun e => (noting (ScopeScript.resolveExpression e)).andThen fun resolution =>
      (accepting resolution).andThen fun _ => running (e.evaluateBy M fuel)).void
  | carryOut fuel program => (running (runProgramBy M fuel program)).void
  | evaluateExpression fuel e => (running (e.evaluateBy M fuel)).void
  | execute fuel s => (running (s.executeBy M fuel)).void
  | executeDetached fuel bindings body => (running (executeDetachedBy M fuel bindings body)).void
  | call fuel c arguments => (running (c.callBy M fuel arguments)).void
  | errand => errand.perform

theorem Errand.performBy_usual (errand : Errand) : errand.performBy .usual = errand.perform := by
  cases errand with
  | run fuel source | carryOut fuel program =>
    simp only [performBy, runProgramBy, (usually fuel).stmts]
    rfl
  | evaluate fuel source | evaluateExpression fuel e =>
    simp only [performBy, (usually fuel).expr]
    rfl
  | execute fuel s =>
    simp only [performBy, (usually fuel).stmt]
    rfl
  | executeDetached fuel bindings body =>
    simp only [performBy, executeDetachedBy, (usually fuel).stmts]
    rfl
  | call fuel c arguments =>
    simp only [performBy, (usually fuel).callee]
    rfl
  | parse | parseExpression | resolve | resolveExpression => rfl

-- What runs is owned, and a callee gets as many values as it takes.
def Errand.Draws (owned : Code → Prop) : Errand → Prop
  | carryOut _ program => owned (.stmts program)
  | evaluateExpression _ e => owned (.expr e)
  | execute _ s => owned (.stmt s)
  | executeDetached _ bindings body => (∀ row ∈ bindings, row.2.Bears owned) ∧ owned (.stmts body)
  | call _ c arguments => c.Bears owned ∧ (∀ v ∈ arguments, v.Bears owned) ∧ arguments.length = c.arity
  | _ => True

-- Each errand in turn: the replies, and the session at the end.
def Errand.series (perform : Errand → Request Unit) : List Errand → Session → List (Reply Unit) × Session
  | [], s => ([], s)
  | errand :: rest, s =>
    let (answer, s) := perform errand s
    let (answers, s) := series perform rest s
    (answer :: answers, s)

variable {owned : Code → Prop} {fine : RuntimeFault → Prop}

def Reply.Fine (fine : RuntimeFault → Prop) (p : α → Prop) : Reply α → Prop
  | .done result => p result
  | .rejected problems => ∀ f, .runtime f ∈ problems → fine f
  | .unfinished => True

-- On a session that bears owned code only, both requests come to the same and leave such a session.
def Request.Copies (owned : Code → Prop) (fine : RuntimeFault → Prop) (x y : Request α) (p : α → Prop) : Prop :=
  ∀ s : Session, s.machine.store.Bears owned →
    x s = y s ∧ (y s).2.machine.store.Bears owned ∧ (y s).1.Fine fine p

theorem Request.running_bind (x : Running α) (k : α → Running β) :
    running (x >>= k) = (running x).andThen fun a => running (k a) := by
  funext s
  unfold andThen running
  have same : (x >>= k) s.machine = EStateM.bind x k s.machine := rfl
  rw [same]
  unfold EStateM.bind
  cases x s.machine with
  | ok result machine => rfl
  | error halt machine =>
    cases halt with
    | fault f => rfl
    | outOfFuel => rfl

namespace Request.Copies

variable {p : α → Prop} {q : β → Prop}

theorem reply {a : α} (h : p a) : Copies owned fine (reply a) (Request.reply a) p := fun _ held => ⟨rfl, held, h⟩

theorem andThen {x y : Request α} {k l : α → Request β} (first : Copies owned fine x y p)
    (next : ∀ a, p a → Copies owned fine (k a) (l a) q) : Copies owned fine (x.andThen k) (y.andThen l) q := by
  intro s held
  obtain ⟨same, bears, given⟩ := first s held
  unfold Request.andThen
  rw [same]
  cases answered : y s with
  | mk answer after =>
    rw [answered] at bears given
    cases answer with
    | done a => exact next a given after bears
    | rejected problems => exact ⟨rfl, bears, given⟩
    | unfinished => exact ⟨rfl, bears, trivial⟩

theorem void {x y : Request α} (h : Copies owned fine x y p) : Copies owned fine x.void y.void fun _ => True :=
  h.andThen fun _ _ => .reply trivial

theorem reads {r : Request α} (h : r.Reads) : Copies owned fine r r fun a => ∃ s, (r s).1 = .done a := by
  intro s held
  refine ⟨rfl, by rwa [h.machine s], ?_⟩
  cases given : (r s).1 with
  | done a => exact ⟨s, given⟩
  | rejected problems => exact fun f member => absurd member (h.problems s problems f given)
  | unfinished => trivial

theorem noting (resolution : Resolution) :
    Copies owned fine (noting resolution) (Request.noting resolution) (· = resolution) :=
  fun _ held => ⟨rfl, held, rfl⟩

theorem accepting (resolution : Resolution) :
    Copies owned fine (accepting resolution) (Request.accepting resolution) fun _ => resolution.faults = [] := by
  unfold Request.accepting
  cases given : resolution.faults with
  | nil => exact .reply rfl
  | cons fault rest =>
    refine fun _ held => ⟨rfl, held, fun f member => ?_⟩
    obtain ⟨_, _, same⟩ := List.mem_map.mp member
    cases same

theorem running {x y : Running α} (same : Running.Copies owned x y) (bears : Running.Bears owned y p)
    (raises : ∀ {code f}, owned code → code.Raises f → fine f) : Copies owned fine (running x) (Request.running y) p := by
  intro s held
  have given := bears s.machine held
  unfold Request.running
  rw [same s.machine held]
  cases ran : y s.machine with
  | ok a after =>
    simp only [ran] at given
    exact ⟨rfl, given⟩
  | error halt after =>
    simp only [ran] at given
    cases halt with
    | outOfFuel => exact ⟨rfl, given.1, trivial⟩
    | fault f =>
      obtain ⟨bears, code, own, blamed⟩ := given
      refine ⟨rfl, bears, fun g member => ?_⟩
      cases List.mem_singleton.mp member
      exact raises own blamed

theorem flush (flushed : fine unflushed) :
    Copies owned fine (Request.running Running.flush) (Request.running Running.flush) fun _ => True := by
  intro s held
  refine ⟨rfl, ?_⟩
  unfold Request.running Running.flush Sink.flush
  cases s.machine.sink.flushFails with
  | false => exact ⟨held, trivial⟩
  | true =>
    refine ⟨held, fun f member => ?_⟩
    cases List.mem_singleton.mp member
    exact flushed

theorem resolve (program : List Stmt) : Copies owned fine (Session.resolve program) (Session.resolve program)
    fun _ => (resolveProgram program).faults = [] :=
  .andThen (.noting _) fun resolution same => same ▸ .accepting resolution

end Request.Copies

theorem Errand.series_copies {x y : Errand → Request Unit} {errands : List Errand}
    (each : ∀ errand ∈ errands, Request.Copies owned fine (x errand) (y errand) fun _ => True) (s : Session)
    (held : s.machine.store.Bears owned) : series x errands s = series y errands s ∧
      ∀ answer ∈ (series y errands s).1, answer.Fine fine fun _ => True := by
  induction errands generalizing s with
  | nil => exact ⟨rfl, nofun⟩
  | cons errand rest ih =>
    obtain ⟨first, others⟩ := List.forall_mem_cons.mp each
    obtain ⟨same, bears, given⟩ := first s held
    obtain ⟨later, answers⟩ := ih others _ bears
    constructor
    · unfold series
      dsimp only
      rw [same, later]
    · exact List.forall_mem_cons.mpr ⟨given, answers⟩

-- All that a manner and what is owned must give so that errands come to the same.
structure Manner.Serves (M : Manner) (owned : Code → Prop) (fine : RuntimeFault → Prop) : Prop where
  fits : M.Fits owned
  inherits : Code.Inherits owned
  raises : ∀ {code f}, owned code → code.Raises f → fine f
  flushed : fine unflushed
  cleared : ∀ {code : Code}, code.Cleared → owned code

namespace Manner.Serves

variable {M : Manner}

theorem expr (h : M.Serves owned fine) {e : Expr} (own : owned (.expr e)) (fuel : Nat) :
    Request.Copies owned fine (running (e.evaluateBy M fuel)) (running (e.evaluate fuel)) (·.Bears owned) :=
  .running ((runs_copy h.fits h.inherits fuel).expr own) ((runs_bear h.inherits fuel).expr own) h.raises

theorem program (h : M.Serves owned fine) {program : List Stmt} (own : owned (.stmts program)) (fuel : Nat) :
    Request.Copies owned fine (running (runProgramBy M fuel program)) (Session.carryOut fuel program) fun _ => True := by
  have runs : Request.Copies owned fine (running (Stmt.executeAllBy M fuel program))
      (running (Stmt.executeAll fuel program)) (·.Bears owned) :=
    .running ((runs_copy h.fits h.inherits fuel).stmts own) ((runs_bear h.inherits fuel).stmts own) h.raises
  unfold Session.carryOut runProgramBy runProgram
  rw [running_bind, running_bind]
  exact runs.andThen fun _ _ => .flush h.flushed

theorem detached (h : M.Serves owned fine) {bindings : Names Value} (held : ∀ row ∈ bindings, row.2.Bears owned)
    {body : List Stmt} (own : owned (.stmts body)) (fuel : Nat) :
    Request.Copies owned fine (running (executeDetachedBy M fuel bindings body))
      (running (executeDetached fuel bindings body)) (·.Bears owned) := by
  have entered : Running.Bears owned (Running.withStore fun s => s.openScope [] bindings) fun _ => True :=
    .withStore fun s bears => ⟨bears.openScope [] held, trivial⟩
  exact .running (.bind (.refl _) entered fun scope _ => .within ((runs_copy h.fits h.inherits fuel).stmts own) scope)
    (.bind entered fun scope _ => .within ((runs_bear h.inherits fuel).stmts own) scope) h.raises

theorem errand (h : M.Serves owned fine) (errand : Errand) (draws : errand.Draws owned) :
    Request.Copies owned fine (errand.performBy M) errand.perform fun _ => True := by
  cases errand with
  | run fuel source =>
    refine .void (p := fun _ => True) (.andThen (.reads (.parse source)) fun program parsed =>
      .andThen (.resolve program) fun warnings clean => ?_)
    obtain ⟨s, done⟩ := parsed
    have root := Session.parse_root (Prod.ext done rfl) fuel
    have own : owned (.stmts program) := h.cleared ⟨_, s, _, _, congrArg Prod.fst root, clean, .root, rfl⟩
    exact (h.program own fuel).andThen fun _ _ => .reply trivial
  | evaluate fuel source =>
    refine .void (p := (·.Bears owned)) (.andThen (.reads (.parseExpression source)) fun e parsed =>
      .andThen (.noting _) fun resolution same => .andThen (.accepting _) fun _ clean => ?_)
    subst same
    obtain ⟨s, done⟩ := parsed
    have root := Session.parseExpression_root (Prod.ext done rfl) fuel
    have own : owned (.expr e) := h.cleared ⟨_, s, _, _, congrArg Prod.fst root, clean, .root, rfl⟩
    exact h.expr own fuel
  | parse source => exact .void (.reads (.parse source))
  | parseExpression source => exact .void (.reads (.parseExpression source))
  | resolve program => exact .void (.resolve program)
  | resolveExpression e => exact .void (.noting _)
  | carryOut fuel program => exact .void (h.program draws fuel)
  | evaluateExpression fuel e => exact .void (h.expr draws fuel)
  | execute fuel s =>
    exact .void (.running ((runs_copy h.fits h.inherits fuel).stmt draws) ((runs_bear h.inherits fuel).stmt draws) h.raises)
  | executeDetached fuel bindings body => exact .void (h.detached draws.1 draws.2 fuel)
  | call fuel c arguments =>
    obtain ⟨bears, all, counted⟩ := draws
    exact .void (.running ((runs_copy h.fits h.inherits fuel).callee bears all counted)
      ((runs_bear h.inherits fuel).callee bears all) h.raises)

end Manner.Serves

end ScopeScript
