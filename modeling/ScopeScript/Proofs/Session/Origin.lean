import ScopeScript.Proofs.Session.Answer
import ScopeScript.Proofs.Session.Split

namespace ScopeScript

open Request

-- All code in the store stands at some of these places: moving any other place changes nothing.
def Machine.From (places : Position → Prop) (m : Machine) : Prop := ∀ place place' : Position → Position,
  (∀ p, places p → place p = place' p) →
    m.store.rename ⟨m.depths.code, place⟩ = m.store.rename ⟨m.depths.code, place'⟩

def Code.From (places : Position → Prop) (depths : Depths) (code : Code) : Prop := ∀ place place' : Position → Position,
  (∀ p, places p → place p = place' p) → code.rename ⟨depths.code, place⟩ = code.rename ⟨depths.code, place'⟩

theorem Code.From.widen {places more : Position → Prop} {depths : Depths} {code : Code} (h : code.From places depths)
    (within : ∀ p, places p → more p) : code.From more depths :=
  fun place place' same => h place place' fun p inside => same p (within p inside)

namespace Machine.From

variable {places more : Position → Prop} {m n : Machine}

theorem widen (h : m.From places) (within : ∀ p, places p → more p) : m.From more :=
  fun place place' same => h place place' fun p inside => same p (within p inside)

theorem alike (h : m.From places) (same : ∀ place, m.Alike place n) : n.From places := by
  intro place place' agree
  rw [← (same place).store, ← (same place').store]
  exact h place place' agree

theorem renamed (h : m.From places) {place place' : Position → Position} (same : ∀ p, places p → place p = place' p)
    (table : Depths) : m.rename ⟨m.depths.code, place⟩ table = m.rename ⟨m.depths.code, place'⟩ table := by
  unfold Machine.rename
  rw [h place place' same]

-- What is run leaves nothing that stands elsewhere.
theorem ran (h : m.From places) {code : Code} (own : code.From places m.depths) (fuel : Nat) :
    (Running.last (code.run fuel m)).From places := by
  intro place place' same
  obtain ⟨table, agrees, -⟩ := m.depths.common m.depths place
  have agrees' : Renaming.Agrees ⟨m.depths.code, place'⟩ m.depths table := agrees
  obtain ⟨keeps, one⟩ := code.run_renames agrees fuel rfl
  obtain ⟨-, other⟩ := code.run_renames agrees' fuel rfl
  rw [h.renamed same, own place place' same, other] at one
  rw [keeps.depths]
  exact (congrArg Machine.store one).symm

end Machine.From

-- Where a source has its tokens.
def placesOf (source : String) (p : Position) : Prop :=
  ∃ ts t, tokens source = .ok ts ∧ t ∈ ts ∧ t.isStop = false ∧ t.position = p

-- Moving the tokens of a source moves its tree, and other places do not matter to it.
theorem Code.Derived.moved {code : Code} {w : List Token} (h : code.Derived w) (inner : ∀ t ∈ w, t.isStop = false)
    {ρ τ : Renaming} (same : ∀ t ∈ w, ρ.place t.position = τ.place t.position) :
    (code.rename ρ).rename .nameless = (code.rename τ).rename .nameless := by
  have words : w.map (Token.rename τ) = w.map (Token.rename ρ) :=
    List.map_congr_left fun t member => congrArg (Token.mk t.kind t.lexeme) (same t member).symm
  have within : ∀ t ∈ w.map (Token.rename ρ), t.isStop = false := by
    intro t member
    obtain ⟨t, inside, rfl⟩ := List.mem_map.mp member
    exact inner t inside
  cases h with
  | stmts h =>
    have other := h.rename τ
    rw [words] at other
    have unique := declarations_unique within (h.rename ρ) other
    rw [Stmt.anonymousAll_eq, Stmt.anonymousAll_eq] at unique
    exact congrArg Code.stmts unique
  | expr h =>
    have other := h.rename τ
    rw [words] at other
    have unique := expression_unique within (h.rename ρ) other
    rw [Expr.anonymous_eq, Expr.anonymous_eq] at unique
    exact congrArg Code.expr unique

theorem Code.Derived.from {code : Code} {w : List Token} (h : code.Derived w) (inner : ∀ t ∈ w, t.isStop = false)
    {depths : Depths} (lawful : Lawful (Spot.Within ⟨.outermost, code⟩) depths) :
    code.From (fun p => ∃ t ∈ w, t.position = p) depths := by
  intro place place' same
  have moved := h.moved inner (ρ := ⟨id, place⟩) (τ := ⟨id, place'⟩) fun t member => same _ ⟨t, member, rfl⟩
  have located := Code.locate_nameless moved id []
  rw [Code.locate_rename, Code.locate_rename] at located
  exact ((Code.rename_code lawful .root place).trans located).trans (Code.rename_code lawful .root place').symm

theorem Code.answer_last (fuel : Nat) (list : List Warning) (code : Code) (m : Machine) :
    Running.last (code.answer fuel list m) = Running.last (code.run fuel m) := by
  cases code with
  | stmts program => exact Running.last_bind _ (fun _ _ => rfl) m
  | expr e => exact (Running.last_bind _ (fun _ _ => rfl) m).trans (Running.last_bind _ (fun _ _ => rfl) m).symm
  | stmt s => rfl
  | routine kind r => rfl

theorem Code.run_keeps (code : Code) (fuel : Nat) (m : Machine) : m.Keeps (Running.last (code.run fuel m)) := by
  have agrees : Renaming.Agrees ⟨id, id⟩ m.depths m.depths := fun _ => rfl
  exact (code.run_renames agrees fuel rfl).1

namespace Session

-- After an inquiry everything stands in its source or where it stood before.
theorem Tidy.origin {s : Session} {places : Position → Prop} (h : s.Tidy) (stands : s.machine.From places)
    (q : Inquiry) : (q.perform s).2.machine.From (fun p => places p ∨ placesOf q.source p) ∧
      (q.perform s).2.machine.sink.limit = s.machine.sink.limit := by
  rw [← q.answer_after]
  obtain ⟨next, later, fresh, given⟩ := s.concludes q
  rw [given]
  have before : s.machine.From fun p => places p ∨ placesOf q.source p := stands.widen fun p inside => .inl inside
  cases read : (q.root s).1 with
  | rejected problems => exact ⟨before, rfl⟩
  | unfinished => exact ⟨before, rfl⟩
  | done root =>
    have new := fresh root read
    have noted := before.alike fun place => h.alike later new.notes place
    unfold conclude
    dsimp only
    cases clean : root.code.resolution.faults with
    | cons fault rest => exact ⟨noted, rfl⟩
    | nil =>
      obtain ⟨body, stop, scanned, inner, outermost, derived, -⟩ := Inquiry.root_done (Prod.ext read rfl)
      obtain ⟨σ, code⟩ := root
      obtain rfl : σ = .outermost := outermost
      have within : ∀ p, (∃ t ∈ body, t.position = p) → places p ∨ placesOf q.source p := fun p ⟨t, member, place⟩ =>
        .inr ⟨_, t, scanned, List.mem_append_left _ member, inner t member, place⟩
      have own := (derived.from inner (new.lawful clean s.machine.depths)).widen within
      dsimp only
      rw [running_last, Code.answer_last]
      exact ⟨noted.ran own q.fuel, (code.run_keeps q.fuel _).limit⟩

theorem start_from (sink : Sink) (clock : Nat) : (start sink clock).machine.From fun _ => False :=
  fun _ _ _ => (Machine.start_rename sink clock _).trans (Machine.start_rename sink clock _).symm

-- Whatever was asked, everything in the store stands in one of the sources.
theorem asked_from (sink : Sink) (clock : Nat) (qs : List Inquiry) :
    (asked sink clock qs).machine.From (fun p => ∃ q ∈ qs, placesOf q.source p) ∧
      (asked sink clock qs).machine.sink.limit = sink.limit := by
  suffices all : ∀ (s : Session) places, s.Tidy → s.machine.From places →
      (qs.foldl (fun s q => (q.perform s).2) s).machine.From (fun p => places p ∨ ∃ q ∈ qs, placesOf q.source p) ∧
        (qs.foldl (fun s q => (q.perform s).2) s).machine.sink.limit = s.machine.sink.limit by
    obtain ⟨stands, limit⟩ := all (start sink clock) _ (Tidy.start sink clock) (start_from sink clock)
    exact ⟨stands.widen fun p inside => inside.resolve_left id, limit⟩
  induction qs with
  | nil => exact fun s places tidy stands => ⟨stands.widen fun p inside => .inl inside, rfl⟩
  | cons q rest ih =>
    intro s places tidy stands
    obtain ⟨first, kept⟩ := tidy.origin stands q
    obtain ⟨later, limit⟩ := ih _ _ (tidy.perform q).1 first
    refine ⟨later.widen fun p inside => ?_, limit.trans kept⟩
    rcases inside with (before | own) | ⟨other, member, behind⟩
    · exact .inl before
    · exact .inr ⟨q, List.mem_cons_self, own⟩
    · exact .inr ⟨other, List.mem_cons_of_mem _ member, behind⟩

end Session

end ScopeScript
