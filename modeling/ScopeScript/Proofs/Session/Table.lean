import ScopeScript.Proofs.Scoping.Look
import ScopeScript.Proofs.Session.Joined

namespace ScopeScript

open Request

-- A region has what a reference asks for: a name that it declares earlier in the source, or a receiver.
def Region.Answers (region : Region) : Expr → Prop
  | .variable _ name => ∃ d ∈ region.declares, d.lexeme = name.lexeme ∧ d.Earlier name
  | .assign _ name _ => ∃ d ∈ region.declares, d.lexeme = name.lexeme ∧ d.Earlier name
  | .this _ _ => region.isReceiver = true
  | _ => False

-- So many regions lie between a reference and the innermost one that answers it.
structure Region.Innermost (regions : List Region) (e : Expr) (depth : Nat) : Prop where
  answers : ∃ region, regions[depth]? = some region ∧ region.Answers e
  nearer : ∀ d < depth, ∀ region, regions[d]? = some region → ¬region.Answers e

section

variable {σ : Setting} {e : Expr}

theorem Setting.depth_iff {name : String} {d : Nat}
    (exact : ∀ f ∈ σ.frames, f.declares name = true ↔ f.region.Answers e) :
    σ.depth name = some d ↔ Region.Innermost σ.regions e d := by
  have at_frame : ∀ (j : Nat) (inside : j < σ.frames.length) (region : Region), σ.regions[j]? = some region →
      region = σ.frames[j].region := by
    intro j inside region there
    simpa [Setting.regions, List.getElem?_eq_getElem inside] using there.symm
  unfold Setting.depth
  rw [List.findIdx?_eq_some_iff_getElem]
  constructor
  · rintro ⟨inside, declares, before⟩
    refine ⟨⟨σ.frames[d].region, ?_, (exact _ (List.getElem_mem inside)).mp declares⟩, fun j nearer region there => ?_⟩
    · simp [Setting.regions, List.getElem?_eq_getElem inside]
    · have within := Nat.lt_trans nearer inside
      rw [at_frame j within region there]
      exact fun answers => before j nearer ((exact _ (List.getElem_mem within)).mpr answers)
  · rintro ⟨⟨region, there, answers⟩, nearer⟩
    have inside : d < σ.frames.length := by
      simpa [Setting.regions] using (List.getElem?_eq_some_iff.mp there).1
    rw [at_frame d inside region there] at answers
    refine ⟨inside, (exact _ (List.getElem_mem inside)).mpr answers, fun j before declares => ?_⟩
    have within := Nat.lt_trans before inside
    refine nearer j before σ.frames[j].region ?_ ((exact _ (List.getElem_mem within)).mp declares)
    simp [Setting.regions, List.getElem?_eq_getElem within]

-- Only a receiver outside every class is not looked up.
theorem Expr.Refers.looks (refers : e.Refers i name) (σ : Setting) : e.looks σ = [⟨i, σ.depth name.lexeme⟩] ∨
    (e.looks σ = [] ∧ ∀ region ∈ σ.regions, ¬region.Answers e) := by
  cases refers with
  | look => exact .inl rfl
  | assign => exact .inl rfl
  | this =>
    cases inClass : σ.inClass with
    | true => exact .inl (if_pos inClass)
    | false =>
      refine .inr ⟨if_neg (Bool.eq_false_iff.mp inClass), fun region member answers => ?_⟩
      exact Bool.eq_false_iff.mp inClass (List.any_eq_true.mpr ⟨region, member, answers⟩)

-- A frame knows a name at a reference exactly when its region answers the reference.
theorem Spot.Within.answers_iff {root : Spot} {low high : RefId} (inside : root.Within ⟨σ, .expr e⟩)
    (fresh : root.Fresh low high) (refers : e.Refers i name) :
    ∀ f ∈ σ.frames, f.declares name.lexeme = true ↔ f.region.Answers e := by
  intro f member
  have proper := inside.proper fresh.proper
  have known := inside.declares_iff fresh.passed fresh.placed refers name.lexeme f member
  have spelled := proper.code
  -- Names are spelled otherwise than the receiver.
  have named : name.Free → (f.declares name.lexeme = true ↔
      ∃ d ∈ f.region.declares, d.lexeme = name.lexeme ∧ d.Earlier name) := by
    intro free
    rw [known]
    exact or_iff_left fun receiver => free receiver.2
  cases refers with
  | look => exact named spelled
  | assign => exact named spelled.1
  | this =>
    have free := proper.seen f member
    have unnamed : f.seen.any (·.lexeme == receiverName) = false := by
      simpa [Token.Free] using free
    rw [show name.lexeme = receiverName from spelled]
    simp [Frame.declares, unnamed, Region.Answers]

end

theorem Code.resolve_looks {code : Code} (ordered : code.Ordered) {w : Walk} {σ : Setting} (h : w.Follows σ) :
    w.Notes (code.resolve w) (Spot.lookings ⟨σ, code⟩) := by
  cases code with
  | expr e => exact e.resolve_looks (Expr.Ordered.formed ordered) h
  | stmt s => exact s.resolve_looks (Stmt.Ordered.formed ordered) h
  | stmts ss => exact Stmt.resolveAll_looks ss (Stmt.OrderedAll.formed ordered) h
  | routine kind r => exact r.resolve_looks kind (Routine.Ordered.formed ordered) h

namespace Spot.Fresh

variable {root : Spot} {low high : RefId}

theorem looked (fresh : root.Fresh low high) (note : Note) :
    note ∈ root.code.resolution.notes ↔ ∃ T, root.Within T ∧ note ∈ T.looks := by
  obtain ⟨σ, code⟩ := root
  obtain ⟨rfl, ordered, -, -⟩ := fresh
  have looks := Code.resolve_looks ordered (σ := .outermost) (w := .start) ⟨.nil, rfl, rfl, rfl⟩
  refine (List.Perm.mem_iff looks).trans ?_
  simp [Walk.start, Spot.lookings, List.mem_flatMap, Spot.mem_everywhere]

-- What the table says of a reference, whether or not the source is accepted.
theorem table (fresh : root.Fresh low high) {σ : Setting} {e : Expr} (inside : root.Within ⟨σ, .expr e⟩)
    (refers : e.Refers i name) {depths : Depths} (bare : depths[i]? = none) (d : Nat) :
    (depths.record root.code.resolution.notes)[i]? = some d ↔ Region.Innermost σ.regions e d := by
  have recorded := Depths.record_exact depths _ fresh.notes.1
  rcases refers.looks σ with looked | ⟨nothing, unanswered⟩
  · have here : ⟨i, σ.depth name.lexeme⟩ ∈ Spot.looks ⟨σ, .expr e⟩ := by
      show _ ∈ e.looks σ
      rw [looked]
      exact List.mem_singleton_self _
    have noted := (fresh.looked _).mpr ⟨_, inside, here⟩
    rw [recorded _ noted]
    exact Setting.depth_iff (inside.answers_iff fresh refers)
  · have alone : i ∉ root.code.resolution.notes.map Note.id := by
      intro member
      obtain ⟨note, noted, rfl⟩ := List.mem_map.mp member
      obtain ⟨T, there, looks⟩ := (fresh.looked note).mp noted
      have same := Spot.ref_unique fresh.numbered.1 (Spot.mem_everywhere.mpr inside) (Spot.mem_everywhere.mpr there)
        (Spot.ref?_eq.mpr ⟨name, refers⟩) (Spot.ref_looks looks)
      rw [← same, show Spot.looks ⟨σ, .expr e⟩ = [] from nothing] at looks
      cases looks
    rw [Depths.record_other _ _ _ alone, bare]
    refine ⟨nofun, fun innermost => ?_⟩
    obtain ⟨region, there, answered⟩ := innermost.answers
    exact absurd answered (unanswered region (List.mem_of_getElem? there))

theorem others (fresh : root.Fresh low high) (depths : Depths) {i : RefId}
    (foreign : ∀ σ e name, root.Within ⟨σ, .expr e⟩ → ¬e.Refers i name) :
    (depths.record root.code.resolution.notes)[i]? = depths[i]? := by
  refine Depths.record_other _ _ _ fun member => ?_
  obtain ⟨note, noted, rfl⟩ := List.mem_map.mp member
  obtain ⟨⟨σ, code⟩, there, looks⟩ := (fresh.looked note).mp noted
  cases code with
  | expr e =>
    obtain ⟨name, refers⟩ := Spot.ref?_eq.mp (Spot.ref_looks looks)
    exact foreign σ e name there refers
  | _ => cases looks

end Spot.Fresh

namespace Session

theorem resolve_depths (program : List Stmt) (t : Session) : (resolve program t).2.machine.depths =
    t.machine.depths.record (resolveProgram program).notes := by
  unfold resolve andThen noting accepting
  dsimp only
  cases (resolveProgram program).faults <;> rfl

-- The table that the resolution of a program leaves: each of its references has the number of local
-- scopes up to the innermost one that answers it and no entry where there is none. All other entries stay.
theorem table_exact (source : String) (s read t : Session) (program : List Stmt)
    (parsed : parse source s = (.done program, read))
    (bare : ∀ σ e i name, Spot.Within ⟨.outermost, .stmts program⟩ ⟨σ, .expr e⟩ → e.Refers i name →
      t.machine.depths[i]? = none) :
    let table := (resolve program t).2.machine.depths
    (∀ σ e i name, Spot.Within ⟨.outermost, .stmts program⟩ ⟨σ, .expr e⟩ → e.Refers i name →
      ∀ d, table[i]? = some d ↔ Region.Innermost σ.regions e d) ∧
    ∀ i, (∀ σ e name, Spot.Within ⟨.outermost, .stmts program⟩ ⟨σ, .expr e⟩ → ¬e.Refers i name) →
      table[i]? = t.machine.depths[i]? := by
  intro table
  have fresh := parse_fresh parsed
  have recorded : table = t.machine.depths.record (Code.stmts program).resolution.notes := resolve_depths program t
  rw [recorded]
  exact ⟨fun σ e i name inside refers d => fresh.table inside refers (bare σ e i name inside refers) d,
    fun i foreign => fresh.others t.machine.depths foreign⟩

-- The first reference is in a function in a block; the second one is outside every class, so that the
-- program is rejected.
section

def lookSource : String := "\x7b var a = true; fun f() \x7b print a; \x7d this; \x7d"

def lookProgram : List Stmt :=
  match (parse lookSource (.start .unlimited 0)).1 with
  | .done program => program
  | _ => []

theorem table_exact_rejected :
    let s := start .unlimited 0
    let table := (resolve lookProgram s).2.machine.depths
    (parse lookSource s).1 = .done lookProgram ∧
      (resolve lookProgram s).1 = .rejected [.static ⟨.thisOutsideClass, .keyword .thisWord, "this", 1, 38⟩] ∧
      table[1]? = none ∧ ∀ σ e name, Spot.Within ⟨.outermost, .stmts lookProgram⟩ ⟨σ, .expr e⟩ → e.Refers 0 name →
        Region.Innermost σ.regions e 1 := by
  intro s table
  have parsed : (parse lookSource s).1 = .done lookProgram := by
    have accepted : (match (parse lookSource s).1 with | .done _ => true | _ => false) = true := by decide +kernel
    unfold lookProgram
    cases read : (parse lookSource s).1 with
    | done program => rfl
    | rejected problems =>
      rw [read] at accepted
      cases accepted
    | unfinished =>
      rw [read] at accepted
      cases accepted
  have rejected : (resolve lookProgram s).1 =
      .rejected [.static ⟨.thisOutsideClass, .keyword .thisWord, "this", 1, 38⟩] := by decide +kernel
  have near : table[0]? = some 1 := by decide +kernel
  have far : table[1]? = none := by decide +kernel
  have exact := (table_exact lookSource s (parse lookSource s).2 s lookProgram (Prod.ext parsed rfl)
    fun _ _ _ _ _ _ => Std.TreeMap.getElem?_emptyc).1
  exact ⟨parsed, rejected, far, fun σ e name inside refers => (exact σ e 0 name inside refers 1).mp near⟩

end

end Session

end ScopeScript
