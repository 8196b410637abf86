import ScopeScript.Proofs.Scoping.Setting
import ScopeScript.Proofs.Grammar.Spelling

namespace ScopeScript

-- A receiver's scope has only methods of its class right inside.
inductive Region.Nested : List Region → Prop
  | nil : Nested []
  | block {outer : List Region} {body : List Stmt} (h : Nested outer) : Nested (.block body :: outer)
  | routine {outer : List Region} {r : Routine} (h : Nested outer) : Nested (.routine r :: outer)
  | method {outer : List Region} {r : Routine} {methods : List Routine} (h : Nested outer)
      (member : r ∈ methods) : Nested (.routine r :: .receiver methods :: outer)

theorem Region.Nested.head {region : Region} {outer : List Region} (h : Nested (region :: outer)) : region.isReceiver = false := by
  cases h <;> rfl

-- What is around a class.
theorem Region.Nested.around {r : Routine} {methods : List Routine} {outer : List Region}
    (h : Nested (.routine r :: .receiver methods :: outer)) : Nested outer := by
  cases h with
  | routine h => cases h
  | method h _ => exact h

-- Around a receiver's region some method of the class stands right inside.
theorem Region.Nested.inside {regions : List Region} (h : Nested regions) {d : Nat} {methods : List Routine}
    (there : regions[d]? = some (.receiver methods)) :
    ∃ j r, d = j + 1 ∧ regions[j]? = some (.routine r) ∧ r ∈ methods := by
  induction h generalizing d with
  | nil => cases there
  | @block outer body h ih =>
    cases d with
    | zero => cases there
    | succ d =>
      obtain ⟨j, r, rfl, inner, member⟩ := ih there
      exact ⟨j + 1, r, rfl, inner, member⟩
  | @routine outer q h ih =>
    cases d with
    | zero => cases there
    | succ d =>
      obtain ⟨j, r, rfl, inner, member⟩ := ih there
      exact ⟨j + 1, r, rfl, inner, member⟩
  | @method outer q others h inClass ih =>
    match d with
    | 0 => cases there
    | 1 =>
      cases there
      exact ⟨0, _, rfl, rfl, inClass⟩
    | d + 2 =>
      obtain ⟨j, r, rfl, inner, member⟩ := ih there
      exact ⟨j + 2, r, rfl, inner, member⟩

theorem Region.Nested.declare {σ : Setting} (h : Nested σ.regions) (names : List Token) :
    Nested (σ.declare names).regions := by
  rw [Setting.regions_declare]
  exact h

theorem Region.Nested.initializing {σ : Setting} (h : Nested σ.regions) (name : Token) :
    Nested (σ.initializing name).regions := by
  rw [Setting.regions_initializing]
  exact h

def Code.Spelled : Code → Prop
  | .expr e => e.Spelled
  | .stmt s => s.Spelled
  | .stmts ss => Stmt.SpelledAll ss
  | .routine _ r => r.Spelled

-- The regions that the parts of some code stand in.
def Spot.regions : Spot → List Region
  | ⟨σ, .routine _ r⟩ => .routine r :: σ.regions
  | ⟨σ, _⟩ => σ.regions

structure Spot.Proper (S : Spot) : Prop where
  code : S.code.Spelled
  seen : ∀ f ∈ S.setting.frames, ∀ t ∈ f.seen, t.Free
  nested : Region.Nested S.regions

namespace Setting

def Free (σ : Setting) : Prop := ∀ f ∈ σ.frames, ∀ t ∈ f.seen, t.Free

variable {σ : Setting}

theorem Free.onInnermost (h : σ.Free) (change : Frame → Frame)
    (more : ∀ f, (∀ t ∈ f.seen, t.Free) → ∀ t ∈ (change f).seen, t.Free) : (σ.onInnermost change).Free := by
  obtain ⟨frames, body, around⟩ := σ
  cases frames with
  | nil => exact h
  | cons f outer =>
    intro g member
    rcases List.mem_cons.mp member with rfl | behind
    · exact more f (h f List.mem_cons_self)
    · exact h g (List.mem_cons_of_mem _ behind)

theorem Free.declare (h : σ.Free) {names : List Token} (free : ∀ t ∈ names, t.Free) :
    (σ.declare names).Free := by
  refine h.onInnermost _ fun f known t member => ?_
  simp only [Frame.seen, List.mem_append] at member known
  rcases member with (before | new) | begun
  · exact known t (.inl before)
  · exact free t new
  · exact known t (.inr begun)

theorem Free.initializing (h : σ.Free) {name : Token} (free : name.Free) : (σ.initializing name).Free := by
  refine h.onInnermost _ fun f known t member => ?_
  simp only [Frame.seen, List.mem_append, List.mem_cons] at member known
  rcases member with before | rfl | begun
  · exact known t (.inl before)
  · exact free
  · exact known t (.inr begun)

theorem Free.enter (h : σ.Free) (region : Region) : (σ.enter region).Free := by
  intro f member
  rcases List.mem_cons.mp member with rfl | behind
  · intro t inside
    cases inside
  · exact h f behind

theorem Free.enterRoutine (h : σ.Free) (kind : BodyKind) {r : Routine} (free : ∀ t ∈ r.parameters, t.Free) :
    (σ.enterRoutine kind r).Free := by
  intro f member
  rcases List.mem_cons.mp member with rfl | behind
  · intro t inside
    rcases List.mem_append.mp inside with given | none
    · exact free t given
    · cases none
  · exact h f behind

end Setting

theorem Stmt.Spelled.declares {s : Stmt} (h : s.Spelled) : ∀ t ∈ s.declares, t.Free := by
  intro t member
  cases s with
  | var name initial =>
    rw [List.mem_singleton.mp member]
    cases initial with
    | none => exact h
    | some e => exact h.1
  | function routine =>
    rw [List.mem_singleton.mp member]
    exact h.1
  | classes name methods =>
    rw [List.mem_singleton.mp member]
    exact h.1
  | _ => cases member

theorem Expr.Spelled.parts {e : Expr} (h : e.Spelled) : ∀ code ∈ e.parts, code.Spelled := by
  cases e with
  | call callee close arguments =>
    intro code member
    rcases List.mem_cons.mp member with rfl | given
    · exact h.1
    · obtain ⟨e, inside, rfl⟩ := List.mem_map.mp given
      exact (Expr.spelledAll_iff arguments).mp h.2 e inside
  | assign i name value => simpa [Expr.parts, Code.Spelled] using h.2
  | grouping | unary | binary | logical | lambda | get | set =>
    simpa [Expr.parts, Expr.Spelled, Code.Spelled] using h
  -- Literals and names have no parts.
  | _ => simp [Expr.parts]

theorem Spot.Proper.expr {σ : Setting} {e : Expr} (h : Proper ⟨σ, .expr e⟩) : ∀ code ∈ e.parts, Proper ⟨σ, code⟩ := by
  intro code member
  refine ⟨Expr.Spelled.parts h.code code member, h.seen, ?_⟩
  have nested : Region.Nested σ.regions := h.nested
  cases code with
  | routine kind r => exact .routine nested
  | _ => exact nested

theorem Spot.Proper.stmt {σ : Setting} {s : Stmt} (h : Proper ⟨σ, .stmt s⟩) : ∀ T ∈ s.parts σ, T.Proper := by
  obtain ⟨code, seen, nested⟩ := h
  have nested : Region.Nested σ.regions := nested
  intro T member
  cases s with
  | var name initial =>
    cases initial with
    | none => cases member
    | some e =>
      rw [List.mem_singleton.mp member]
      exact ⟨code.2, Setting.Free.initializing seen code.1, nested.initializing name⟩
  | block body =>
    rw [List.mem_singleton.mp member]
    exact ⟨code, Setting.Free.enter seen _, .block nested⟩
  | function routine =>
    rw [List.mem_singleton.mp member]
    refine ⟨code.2, Setting.Free.declare seen fun t inside => ?_, .routine (nested.declare _)⟩
    rw [List.mem_singleton.mp inside]
    exact code.1
  | classes name methods =>
    obtain ⟨r, inside, rfl⟩ := List.mem_map.mp member
    refine ⟨(Routine.spelledAll_iff methods).mp code.2 r inside, ?_, .method (nested.declare _) inside⟩
    refine Setting.Free.enter (Setting.Free.declare seen fun t named => ?_) _
    rw [List.mem_singleton.mp named]
    exact code.1
  | branch condition yes no =>
    cases no with
    | none =>
      rcases List.mem_cons.mp member with rfl | member
      · exact ⟨code.1, seen, nested⟩
      · rw [List.mem_singleton.mp member]
        exact ⟨code.2, seen, nested⟩
    | some no =>
      rcases List.mem_cons.mp member with rfl | member
      · exact ⟨code.1, seen, nested⟩
      rcases List.mem_cons.mp member with rfl | member
      · exact ⟨code.2.1, seen, nested⟩
      · rw [List.mem_singleton.mp member]
        exact ⟨code.2.2, seen, nested⟩
  | loop condition body =>
    rcases List.mem_cons.mp member with rfl | member
    · exact ⟨code.1, seen, nested⟩
    · rw [List.mem_singleton.mp member]
      exact ⟨code.2, seen, nested⟩
  | giveBack keyword value =>
    cases value with
    | none => cases member
    | some e =>
      rw [List.mem_singleton.mp member]
      exact ⟨code, seen, nested⟩
  | expression value | print keyword value =>
    rw [List.mem_singleton.mp member]
    exact ⟨code, seen, nested⟩
  | leave keyword => cases member

theorem Spot.Proper.part {S T : Spot} (h : S.Proper) (member : T ∈ S.parts) : T.Proper := by
  obtain ⟨σ, code⟩ := S
  cases code with
  | expr e =>
    obtain ⟨code, inside, rfl⟩ := List.mem_map.mp member
    exact h.expr code inside
  | stmt s => exact h.stmt T member
  | stmts ss =>
    obtain ⟨code, seen, nested⟩ := h
    cases ss with
    | nil => cases member
    | cons s rest =>
      simp only [Spot.parts, List.mem_cons, List.not_mem_nil, or_false] at member
      rcases member with rfl | rfl
      · exact ⟨code.1, seen, nested⟩
      · exact ⟨code.2, Setting.Free.declare seen code.1.declares, Region.Nested.declare nested _⟩
  | routine kind r =>
    obtain ⟨code, seen, nested⟩ := h
    rw [List.mem_singleton.mp member]
    obtain ⟨head, ps, body⟩ := r
    exact ⟨code.2, Setting.Free.enterRoutine seen kind code.1, nested⟩

theorem Spot.Within.proper {root S : Spot} (inside : root.Within S) (h : root.Proper) : S.Proper := by
  induction inside with
  | root => exact h
  | part _ member ih => exact ih.part member

end ScopeScript
