import ScopeScript.Proofs.Running.Alike
import ScopeScript.Proofs.Scoping.Nameless
import ScopeScript.Proofs.Session.Accept

namespace ScopeScript

open Request

-- Ids below a mark stay, and all others become one.
def Renaming.clamp (mark other : RefId) : Renaming := ⟨fun i => if i < mark then i else other, id⟩

theorem Renaming.clamp_below {mark i : RefId} (other : RefId) (below : i < mark) : (clamp mark other).ref i = i :=
  if_pos below

theorem Renaming.clamp_above {mark i : RefId} (other : RefId) (above : mark ≤ i) : (clamp mark other).ref i = other :=
  if_neg (Nat.not_lt_of_le above)

theorem Renaming.clamp_clamp {low high other : RefId} (higher : low ≤ high) (above : high ≤ other) :
    (clamp low other).andThen (clamp high other) = clamp low other := by
  refine congrArg (Renaming.mk · id) (funext fun i => ?_)
  show (clamp high other).ref ((clamp low other).ref i) = (clamp low other).ref i
  rcases Nat.lt_or_ge i low with below | beyond
  · rw [clamp_below other below, clamp_below other (Nat.lt_of_lt_of_le below higher)]
  · rw [clamp_above other beyond, clamp_above other above]

-- No id from the counter on is in use yet.
structure Session.Tidy (s : Session) : Prop where
  depths : ∀ i, s.nextRef ≤ i → s.machine.depths[i]? = none
  store : ∀ other, s.nextRef ≤ other → s.machine.store.rename (.clamp s.nextRef other) = s.machine.store

-- What is run comes to the same machine if all ids are below the mark.
def Code.Below (mark : RefId) (code : Code) : Prop := ∀ i ∈ refsOf code.mentions, i < mark

theorem Request.running_last (action : Running α) (s : Session) :
    (running action s).2 = { s with machine := Running.last (action s.machine) } := by
  unfold running
  cases action s.machine with
  | ok result after => rfl
  | error halt after => cases halt <;> rfl

-- Flushing at the end changes nothing about where a run leads.
theorem Code.run_renames {ρ : Renaming} {old new : Depths} (agrees : ρ.Agrees old new) (code : Code) (fuel : Nat)
    {m : Machine} (kept : m.depths = old) : m.Keeps (Running.last (code.run fuel m)) ∧
      Running.last ((code.rename ρ).run fuel (m.rename ρ new)) = (Running.last (code.run fuel m)).rename ρ new := by
  cases code with
  | stmts program =>
    have flushed : ∀ program m, Running.last (Code.run fuel (.stmts program) m) =
        Running.last (Stmt.executeAll fuel program m) :=
      fun program m => Running.last_bind _ (fun _ => Running.last_flush) m
    rw [Code.rename, flushed, flushed]
    exact ((commuting agrees fuel).stmts program).last kept
  | expr e =>
    have dropped : ∀ (e : Expr) m, Running.last (Code.run fuel (.expr e) m) = Running.last (e.evaluate fuel m) :=
      fun e m => Running.last_bind _ (fun _ _ => rfl) m
    rw [Code.rename, dropped, dropped]
    exact ((commuting agrees fuel).expr e).last kept
  | stmt s => exact ⟨.refl m, rfl⟩
  | routine kind r => exact ⟨.refl m, rfl⟩

theorem Code.run_fixed {mark other : RefId} {depths : Depths} {code : Code} (below : code.Below mark)
    (agrees : (Renaming.clamp mark other).Agrees depths depths) (fuel : Nat) {m : Machine} (kept : m.depths = depths)
    (fixed : m.rename (.clamp mark other) depths = m) :
    m.Keeps (Running.last (code.run fuel m)) ∧
      (Running.last (code.run fuel m)).rename (.clamp mark other) depths = Running.last (code.run fuel m) := by
  have stays : code.rename (.clamp mark other) = code :=
    code.rename_fixed fun i used => Renaming.clamp_below other (below i used)
  have ran := code.run_renames agrees fuel kept
  rw [fixed, stays] at ran
  exact ⟨ran.1, ran.2.symm⟩

-- At the start nothing but the clock is bound.
theorem Machine.start_rename (sink : Sink) (clock : Nat) (ρ : Renaming) :
    (Machine.start sink clock).store.rename ρ = (Machine.start sink clock).store := by
  have blank : Store.empty.rename ρ = Store.empty := by simp [Store.rename, Store.empty]
  have opened := Store.empty.rename_openScope ρ [] [("clock", .callee .clock)]
  rw [blank] at opened
  exact (congrArg Prod.snd opened).symm

namespace Session.Tidy

theorem start (sink : Sink) (clock : Nat) : (Session.start sink clock).Tidy where
  depths _ _ := Std.TreeMap.getElem?_emptyc
  store other _ := Machine.start_rename sink clock (.clamp 0 other)

variable {s : Session}

-- A reading moves the counter on, and what is noted lies in between.
theorem noted (h : s.Tidy) {next : RefId} (later : s.nextRef ≤ next) {notes : List Note}
    (new : Numbered s.nextRef next (notes.map Note.id)) :
    Tidy ⟨{ s.machine with depths := s.machine.depths.record notes }, next⟩ where
  depths i above := by
    refine (Depths.record_other _ _ _ fun member => ?_).trans (h.depths i (Nat.le_trans later above))
    exact absurd (new.2 i member).2 (Nat.not_lt_of_le above)
  store other above := by
    have before := h.store other (Nat.le_trans later above)
    show s.machine.store.rename (.clamp next other) = s.machine.store
    rw [← before, Store.rename_rename, Renaming.clamp_clamp later above]

-- Notes on new ids leave everything in the store with the depths it had.
theorem alike (h : s.Tidy) {next : RefId} (later : s.nextRef ≤ next) {notes : List Note}
    (new : Numbered s.nextRef next (notes.map Note.id)) (place : Position → Position) :
    s.machine.Alike place { s.machine with depths := s.machine.depths.record notes } := by
  refine ⟨?_, rfl, rfl, rfl, rfl⟩
  have fixed := h.store next later
  have codes : (Renaming.clamp s.nextRef next).andThen ⟨s.machine.depths.code, place⟩ =
      (Renaming.clamp s.nextRef next).andThen ⟨(s.machine.depths.record notes).code, place⟩ := by
    refine congrArg (Renaming.mk · _) (funext fun i => congrArg depthCode ?_)
    rcases Nat.lt_or_ge i s.nextRef with old | above
    · rw [Renaming.clamp_below next old]
      refine (Depths.record_other _ _ _ fun member => ?_).symm
      exact absurd (new.2 i member).1 (Nat.not_le_of_lt old)
    · rw [Renaming.clamp_above next above, h.depths next later]
      exact ((h.noted later new).depths next (Nat.le_refl _)).symm
  calc s.machine.store.rename ⟨s.machine.depths.code, place⟩
    _ = (s.machine.store.rename (.clamp s.nextRef next)).rename ⟨s.machine.depths.code, place⟩ := by rw [fixed]
    _ = (s.machine.store.rename (.clamp s.nextRef next)).rename ⟨(s.machine.depths.record notes).code, place⟩ := by
      rw [Store.rename_rename, codes, Store.rename_rename]
    _ = s.machine.store.rename ⟨(s.machine.depths.record notes).code, place⟩ := by rw [fixed]

theorem ran (h : s.Tidy) {code : Code} (below : code.Below s.nextRef) (fuel : Nat) :
    Tidy (running (code.run fuel) s).2 ∧ s.machine.Keeps (running (code.run fuel) s).2.machine := by
  have fixed : ∀ other, s.nextRef ≤ other → s.machine.Keeps (Running.last (code.run fuel s.machine)) ∧
      (Running.last (code.run fuel s.machine)).rename (.clamp s.nextRef other) s.machine.depths =
        Running.last (code.run fuel s.machine) := by
    intro other above
    refine Code.run_fixed below (fun i => ?_) fuel rfl ?_
    · rcases Nat.lt_or_ge i s.nextRef with old | new
      · rw [Renaming.clamp_below other old]
      · rw [Renaming.clamp_above other new, h.depths i new, h.depths other above]
    · unfold Machine.rename
      rw [h.store other above]
  have keeps := (fixed s.nextRef (Nat.le_refl _)).1
  rw [running_last]
  refine ⟨⟨fun i above => ?_, fun other above => congrArg Machine.store (fixed other above).2⟩, keeps⟩
  exact (congrArg (·[i]?) keeps.depths).trans (h.depths i above)

theorem perform (h : s.Tidy) (q : Inquiry) : (q.perform s).2.Tidy ∧
    (q.perform s).2.machine.sink.flushFails = s.machine.sink.flushFails := by
  have unchanged := q.root_reads.machine s
  obtain ⟨later, fresh⟩ := q.root_fresh s
  have read_only : Numbered s.nextRef (q.root s).2.nextRef (([] : List Note).map Note.id) := ⟨.nil, nofun⟩
  rw [q.perform_exact, andThen]
  cases given : q.root s with
  | mk answer read =>
    rw [given] at unchanged later fresh read_only
    obtain ⟨machine, next⟩ := read
    cases unchanged
    cases answer with
    | rejected problems => exact ⟨h.noted later read_only, rfl⟩
    | unfinished => exact ⟨h.noted later read_only, rfl⟩
    | done root =>
      have new := fresh root rfl
      have tidy := h.noted later new.notes
      let noted : Session := ⟨{ s.machine with depths := s.machine.depths.record root.code.resolution.notes }, next⟩
      have ran := tidy.ran (fun i used => (new.numbered.2 i used).2) q.fuel
      let rest := (accepting root.code.resolution).andThen fun _ => running (root.code.run q.fuel)
      show (rest noted).2.Tidy ∧ (rest noted).2.machine.sink.flushFails = noted.machine.sink.flushFails
      unfold rest andThen accepting
      cases root.code.resolution.faults with
      | nil => exact ⟨ran.1, ran.2.flushFails⟩
      | cons fault rest => exact ⟨tidy, rfl⟩

theorem performAll (h : s.Tidy) (qs : List Inquiry) : (qs.foldl (fun s q => (q.perform s).2) s).Tidy ∧
    (qs.foldl (fun s q => (q.perform s).2) s).machine.sink.flushFails = s.machine.sink.flushFails := by
  induction qs generalizing s with
  | nil => exact ⟨h, rfl⟩
  | cons q rest ih =>
    obtain ⟨tidy, same⟩ := h.perform q
    obtain ⟨all, kept⟩ := ih tidy
    exact ⟨all, kept.trans same⟩

end Session.Tidy

end ScopeScript
