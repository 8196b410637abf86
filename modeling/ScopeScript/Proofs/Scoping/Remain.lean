import ScopeScript.Proofs.Scoping.Lawful
import ScopeScript.Proofs.Scoping.Revise

namespace ScopeScript

-- A stricter test that the first hit of a test passes has the same first hit.
theorem List.find?_stricter {p q : α → Bool} {xs : List α} (fewer : ∀ x ∈ xs, q x = true → p x = true)
    (first : ∀ x, xs.find? p = some x → q x = true) :
    xs.find? q = xs.find? p ∧ xs.findIdx? q = xs.findIdx? p := by
  induction xs with
  | nil => exact ⟨rfl, rfl⟩
  | cons x rest ih =>
    rw [List.find?_cons, List.find?_cons, List.findIdx?_cons, List.findIdx?_cons]
    cases hit : p x with
    | true =>
      have also := first x (by rw [List.find?_cons, hit])
      rw [also]
      exact ⟨rfl, rfl⟩
    | false =>
      have missed : q x = false := Bool.eq_false_iff.mpr fun found => by
        rw [fewer x List.mem_cons_self found] at hit
        cases hit
      rw [missed]
      obtain ⟨same, index⟩ := ih (fun y later => fewer y (List.mem_cons_of_mem _ later)) fun y found =>
        first y (by rw [List.find?_cons, hit]; exact found)
      exact ⟨same, by simp [index]⟩

section

variable {V : Revision} {keyword : Token}

theorem Stmt.revise_giveBack {s : Stmt} {value : Option Expr}
    (same : s.revise V = .giveBack keyword value) :
    ∃ before, s = .giveBack keyword before ∧ value = before.map (Expr.revise V) := by
  cases s with
  | giveBack other before =>
    cases before <;> cases same <;> exact ⟨_, rfl, rfl⟩
  | var name initial => cases initial <;> cases same
  | branch condition yes no => cases no <;> cases same
  | _ => cases same

theorem Stmt.revise_leave {s : Stmt} (same : s.revise V = .leave keyword) : s = .leave keyword := by
  cases s with
  | leave other =>
    cases same
    rfl
  | var name initial => cases initial <;> cases same
  | branch condition yes no => cases no <;> cases same
  | giveBack other value => cases value <;> cases same
  | _ => cases same

end

namespace Revision.Respects

variable {V : Revision} {root : Spot} {σ : Setting}

theorem seen_named (outermost : root.setting = .outermost) {S : Spot} (inside : root.Within S)
    (seen : t ∈ S.setting.seen) : t ∈ root.code.names := by
  have counted := inside.seen t
  have none : root.setting.seen.count t = 0 := by
    rw [outermost]
    rfl
  have there := List.count_pos_iff.mpr seen
  exact List.count_pos_iff.mp (by omega)

theorem declares_named {s : Stmt} (inside : root.Within ⟨σ, .stmt s⟩) (member : t ∈ s.declares) :
    t ∈ root.code.names :=
  root.everywhere_names.mem_iff.mpr (List.mem_flatMap.mpr ⟨_, Spot.mem_everywhere.mpr inside, member⟩)

section

variable {e : Expr} {i : RefId} {name : Token}

-- The innermost region with the name of a reference has its new name, and no region before it has.
theorem declares_stricter (h : V.Respects root) (outermost : root.setting = .outermost)
    (inside : root.Within ⟨σ, .expr e⟩) (refers : e.Refers i name) :
    (∀ f ∈ σ.frames, (f.revise V).declares (V.refer i name).lexeme = true → f.declares name.lexeme = true) ∧
      ∀ f, σ.frames.find? (·.declares name.lexeme) = some f → (f.revise V).declares (V.refer i name).lexeme = true := by
  have receivers := h.receivers inside refers
  constructor
  · intro f member declared
    rcases Bool.or_eq_true_iff.mp declared with seen | own
    · obtain ⟨t, known, same⟩ := List.any_eq_true.mp seen
      rw [Frame.revise_seen] at known
      obtain ⟨u, before, -, rfl⟩ := Revision.mem_tokens.mp known
      have named := seen_named outermost inside (List.mem_flatMap.mpr ⟨f, member, before⟩)
      have spelled := h.meets inside refers u named (beq_iff_eq.mp same)
      exact Bool.or_eq_true_iff.mpr (.inl (List.any_eq_true.mpr ⟨u, before, beq_iff_eq.mpr spelled⟩))
    · obtain ⟨receiver, same⟩ := Bool.and_eq_true_iff.mp own
      change (f.region.revise V).isReceiver = true at receiver
      rw [Region.revise_isReceiver] at receiver
      have spelled := receivers.mp (beq_iff_eq.mp same).symm
      exact Bool.or_eq_true_iff.mpr (.inr (Bool.and_eq_true_iff.mpr ⟨receiver, beq_iff_eq.mpr spelled.symm⟩))
  · intro f first
    have binder : σ.binder? name.lexeme = f.binder? name.lexeme := by
      unfold Setting.binder?
      rw [first]
      rfl
    cases found : f.binder? name.lexeme with
    | some t =>
      obtain ⟨kept, same⟩ := h.follows inside refers t (binder.trans found)
      refine Bool.or_eq_true_iff.mpr (.inl (List.any_eq_true.mpr ⟨V.declare t, ?_, beq_iff_eq.mpr same.symm⟩))
      rw [Frame.revise_seen]
      exact Revision.mem_tokens.mpr ⟨t, List.mem_of_find?_eq_some found, kept, rfl⟩
    | none =>
      have declared := List.find?_some first
      have unseen : f.seen.any (·.lexeme == name.lexeme) = false := by
        refine Bool.eq_false_iff.mpr fun seen => ?_
        obtain ⟨t, member, same⟩ := List.any_eq_true.mp seen
        exact List.find?_eq_none.mp found t member same
      change (_ || _) = true at declared
      rw [unseen, Bool.false_or] at declared
      obtain ⟨receiver, same⟩ := Bool.and_eq_true_iff.mp declared
      have spelled := receivers.mpr (beq_iff_eq.mp same).symm
      refine Bool.or_eq_true_iff.mpr (.inr (Bool.and_eq_true_iff.mpr ⟨?_, beq_iff_eq.mpr spelled.symm⟩))
      exact (Region.revise_isReceiver _).trans receiver

-- Every reference finds its name as far out as before.
theorem depth (h : V.Respects root) (outermost : root.setting = .outermost) (inside : root.Within ⟨σ, .expr e⟩)
    (refers : e.Refers i name) : (σ.revise V).depth (V.refer i name).lexeme = σ.depth name.lexeme := by
  obtain ⟨fewer, first⟩ := h.declares_stricter outermost inside refers
  unfold Setting.depth Setting.revise
  rw [List.findIdx?_map]
  exact (List.find?_stricter fewer first).2

-- It leads to the new declaration.
theorem binder? (h : V.Respects root) (whole : V.Whole) (outermost : root.setting = .outermost)
    (inside : root.Within ⟨σ, .expr e⟩) (refers : e.Refers i name) :
    (σ.revise V).binder? (V.refer i name).lexeme = (σ.binder? name.lexeme).map V.declare := by
  obtain ⟨fewer, first⟩ := h.declares_stricter outermost inside refers
  have frames : (σ.revise V).frames.find? (·.declares (V.refer i name).lexeme) =
      (σ.frames.find? (·.declares name.lexeme)).map (Frame.revise V) := by
    unfold Setting.revise
    rw [List.find?_map]
    exact congrArg _ (List.find?_stricter fewer first).1
  unfold Setting.binder?
  rw [frames]
  cases found : σ.frames.find? (·.declares name.lexeme) with
  | none => rfl
  | some f =>
    show (f.revise V).seen.find? _ = (f.seen.find? _).map _
    rw [Frame.revise_seen, whole.tokens, List.find?_map]
    refine congrArg _ (List.find?_stricter (fun t member same => ?_) fun t given => ?_).1
    · have named := seen_named outermost inside
        (List.mem_flatMap.mpr ⟨f, List.mem_of_find?_eq_some found, member⟩)
      exact beq_iff_eq.mpr (h.meets inside refers t named (beq_iff_eq.mp same))
    · have binder : σ.binder? name.lexeme = some t := by
        unfold Setting.binder?
        rw [found]
        exact given
      exact beq_iff_eq.mpr (h.follows inside refers t binder).2.symm

end

-- The changed program keeps the rules.
theorem obeys (h : V.Respects root) (obeys : root.Obeys) (outermost : root.setting = .outermost)
    (ordered : ∀ {S}, root.Within S → S.code.Ordered) (kept : root.Kept V) : (root.revise V).Obeys := by
  have origin : ∀ {σ : Setting} {code : Code}, (root.revise V).Within ⟨σ, code⟩ → code ≠ .stmts [] →
      ∃ τ before, root.Within ⟨τ, before⟩ ∧ σ = τ.revise V ∧ code = before.revise V := by
    intro σ code inside other
    rcases h.remains ordered kept inside with empty | ⟨⟨τ, before⟩, within, -, same⟩
    · exact absurd empty other
    · cases same
      exact ⟨τ, before, within, rfl, rfl⟩
  have statement : ∀ {σ : Setting} {s : Stmt}, (root.revise V).Within ⟨σ, .stmt s⟩ →
      ∃ τ before, root.Within ⟨τ, .stmt before⟩ ∧ σ = τ.revise V ∧ s = before.revise V := by
    intro σ s inside
    obtain ⟨τ, before, within, rfl, same⟩ := origin inside nofun
    cases before with
    | stmt before =>
      cases same
      exact ⟨τ, before, within, rfl, rfl⟩
    | expr | stmts | routine => cases same
  have expression : ∀ {σ : Setting} {e : Expr}, (root.revise V).Within ⟨σ, .expr e⟩ →
      ∃ τ before, root.Within ⟨τ, .expr before⟩ ∧ σ = τ.revise V ∧ e = before.revise V := by
    intro σ e inside
    obtain ⟨τ, before, within, rfl, same⟩ := origin inside nofun
    cases before with
    | expr before =>
      cases same
      exact ⟨τ, before, within, rfl, rfl⟩
    | stmt | stmts | routine => cases same
  refine ⟨?_, ?_, ?_, ?_, ?_, ?_, ?_⟩
  · intro σ s inside t member d declared
    obtain ⟨τ, before, within, rfl, rfl⟩ := statement inside
    rw [Stmt.revise_declares] at member
    obtain ⟨u, mine, rfl⟩ := List.mem_map.mp member
    obtain ⟨frames, body, around⟩ := τ
    cases frames with
    | nil => cases declared
    | cons f outer =>
      change d ∈ V.tokens f.declared at declared
      obtain ⟨v, known, -, rfl⟩ := Revision.mem_tokens.mp declared
      have named := seen_named outermost within
        (List.mem_flatMap.mpr ⟨f, List.mem_cons_self, List.mem_append_left _ known⟩)
      exact fun same => obeys.declarations within u mine v known (h.apart v named u (declares_named within mine) same)
  · intro σ kind r inside
    obtain ⟨τ, before, within, rfl, same⟩ := origin inside nofun
    cases before with
    | routine kind r =>
      cases same
      rw [Routine.revise_parameters, List.map_map]
      have single := obeys.parameters within
      rw [List.Nodup, List.pairwise_map] at single ⊢
      have named : ∀ t ∈ r.parameters, t ∈ root.code.names := fun t member =>
        root.everywhere_names.mem_iff.mpr (List.mem_flatMap.mpr ⟨_, Spot.mem_everywhere.mpr within, member⟩)
      exact single.imp_of_mem fun first second apart same => apart (h.apart _ (named _ first) _ (named _ second) same)
    | expr | stmt | stmts => cases same
  · intro σ i name inside
    obtain ⟨τ, before, within, rfl, same⟩ := expression inside
    cases before with
    | literal | grouping | unary | binary | logical | assign | call | lambda | get | set | this => cases same
    | _ i before =>
      cases same
      refine Bool.eq_false_iff.mpr fun begun => ?_
      have still := obeys.initializers within
      obtain ⟨frames, body, around⟩ := τ
      cases frames with
      | nil => cases begun
      | cons f outer =>
        obtain ⟨t, known, spelled⟩ := List.any_eq_true.mp begun
        change t ∈ V.tokens f.initializing at known
        obtain ⟨u, mine, -, rfl⟩ := Revision.mem_tokens.mp known
        have named := seen_named outermost within
          (List.mem_flatMap.mpr ⟨f, List.mem_cons_self, List.mem_append_right _ mine⟩)
        have met := h.meets within .look u named (beq_iff_eq.mp spelled)
        have starts : f.initializing.any (·.lexeme == before.lexeme) = true :=
          List.any_eq_true.mpr ⟨u, mine, beq_iff_eq.mpr met⟩
        rw [show f.initializing.any (·.lexeme == before.lexeme) = false from still] at starts
        cases starts
  · intro σ keyword value inside
    obtain ⟨τ, before, within, rfl, same⟩ := statement inside
    obtain ⟨given, rfl, -⟩ := Stmt.revise_giveBack same.symm
    have inside : τ.body ≠ .outside := obeys.returns within
    exact inside
  · intro σ keyword value inside
    obtain ⟨τ, before, within, rfl, same⟩ := statement inside
    obtain ⟨given, rfl, held⟩ := Stmt.revise_giveBack same.symm
    cases given with
    | none => cases held
    | some e =>
      have plain : τ.body ≠ .initializer := obeys.results within
      exact plain
  · intro σ keyword inside
    obtain ⟨τ, before, within, rfl, same⟩ := statement inside
    cases Stmt.revise_leave same.symm
    rw [Setting.revise_loops]
    exact obeys.breaks within
  · intro σ i keyword inside
    obtain ⟨τ, before, within, rfl, same⟩ := expression inside
    cases before with
    | this j before =>
      cases same
      rw [Setting.revise_inClass]
      exact obeys.receivers within
    | literal | grouping | unary | binary | logical | assign | call | lambda | get | set => cases same
    | _ => cases same

end Revision.Respects

theorem Expr.revise_refers {V : Revision} {e : Expr} {i : RefId} {name : Token} (refers : (e.revise V).Refers i name) :
    ∃ before, e.Refers i before ∧ name = V.refer i before := by
  cases e with
  | assign j before value =>
    cases refers
    exact ⟨before, .assign, rfl⟩
  | this j keyword =>
    cases refers
    exact ⟨keyword, .this, rfl⟩
  | literal | grouping | unary | binary | logical | call | lambda | get | set => cases refers
  | _ j before =>
    cases refers
    exact ⟨before, .look, rfl⟩

-- What the walk over a program notes of its references.

def Stmt.root (program : List Stmt) : Spot := ⟨.outermost, .stmts program⟩

section

variable {program : List Stmt}

theorem resolveProgram_finds (formed : Stmt.FormedAll program) :
    (resolveProgram program).faults = (Stmt.root program).findings :=
  Stmt.resolveAll_finds program formed nofun ⟨.nil, rfl, rfl, rfl⟩ .nil

theorem resolveProgram_accepts (formed : Stmt.FormedAll program) :
    (resolveProgram program).faults = [] ↔ (Stmt.root program).Obeys := by
  rw [resolveProgram_finds formed, Spot.findings_nil_iff]

theorem resolveProgram_looks (formed : Stmt.FormedAll program) :
    (resolveProgram program).notes.Perm (Stmt.root program).lookings :=
  Stmt.resolveAll_looks program formed ⟨.nil, rfl, rfl, rfl⟩

theorem resolveProgram_ids (program : List Stmt) :
    ((resolveProgram program).notes.map Note.id).Sublist (refsOf (Stmt.mentionsAll program)) := by
  obtain ⟨more, same, below⟩ := (Stmt.resolveAll_grows program .start).notes
  have given : (resolveProgram program).notes = more := same
  rwa [given]

variable (depths : Depths)

-- In a clean program every reference is noted with its depth.
theorem recorded (formed : Stmt.FormedAll program) (obeys : (Stmt.root program).Obeys)
    (single : (refsOf (Stmt.mentionsAll program)).Nodup) {σ : Setting} {e : Expr} {i : RefId} {name : Token}
    (inside : (Stmt.root program).Within ⟨σ, .expr e⟩) (refers : e.Refers i name) :
    (depths.record (resolveProgram program).notes)[i]? = σ.depth name.lexeme := by
  refine Depths.record_exact depths _ (single.sublist (resolveProgram_ids program)) ⟨i, σ.depth name.lexeme⟩ ?_
  refine (resolveProgram_looks formed).mem_iff.mpr (List.mem_flatMap.mpr ⟨_, Spot.mem_everywhere.mpr inside, ?_⟩)
  cases refers with
  | look | assign => exact List.mem_singleton_self _
  | this =>
    show _ ∈ Expr.looks σ (.this i name)
    rw [Expr.looks, obeys.receivers inside]
    exact List.mem_singleton_self _

theorem recorded_other {i : RefId} (other : i ∉ refsOf (Stmt.mentionsAll program)) :
    (depths.record (resolveProgram program).notes)[i]? = depths[i]? :=
  Depths.record_other _ _ _ fun noted => other ((resolveProgram_ids program).subset noted)

end

section

variable {V : Revision} {program : List Stmt}

theorem Mention.revise_refs (ms : List Mention) : refsOf (ms.map (Mention.revise V)) = refsOf ms := by
  unfold refsOf
  rw [List.filterMap_map]
  refine List.filterMap_congr fun m _ => ?_
  obtain ⟨t, ref⟩ := m
  cases ref <;> rfl

theorem Stmt.reviseAll_refs (V : Revision) (program : List Stmt) :
    (refsOf (Stmt.mentionsAll (Stmt.reviseAll V program))).Sublist (refsOf (Stmt.mentionsAll program)) := by
  have fewer := (Stmt.reviseAll_mentions V program).filterMap (·.ref)
  change (refsOf _).Sublist (refsOf _) at fewer
  rwa [Mention.revise_refs] at fewer

namespace Revision.Respects

-- The references that remain keep their depths.
theorem recorded (h : V.Respects (Stmt.root program)) (formed : Stmt.FormedAll program)
    (clean : (Stmt.root program).Obeys) (ordered : ∀ {S}, (Stmt.root program).Within S → S.code.Ordered)
    (single : (refsOf (Stmt.mentionsAll program)).Nodup) (depths : Depths)
    {i : RefId} (remains : i ∈ refsOf (Stmt.mentionsAll (Stmt.reviseAll V program))) :
    (depths.record (resolveProgram (Stmt.reviseAll V program)).notes)[i]? =
      (depths.record (resolveProgram program).notes)[i]? := by
  obtain ⟨T, inside, own⟩ := List.mem_flatMap.mp
    ((Spot.everywhere_refs (Stmt.root (Stmt.reviseAll V program))).mem_iff.mp remains)
  have within : ((Stmt.root program).revise V).Within T := Spot.mem_everywhere.mp inside
  rcases h.remains ordered nofun within with empty | ⟨⟨σ, code⟩, before, -, same⟩
  · obtain ⟨τ, code⟩ := T
    cases empty
    cases own
  · cases code with
    | expr e =>
      subst same
      obtain ⟨name, refers⟩ := Spot.ref?_eq.mp (Option.mem_toList.mp own)
      obtain ⟨old, refers', rfl⟩ := Expr.revise_refers refers
      have now := ScopeScript.recorded depths (Stmt.reviseAll_formed V program formed)
        (h.obeys clean rfl ordered nofun) (single.sublist (Stmt.reviseAll_refs V program)) within refers
      rw [now, ScopeScript.recorded depths formed clean single before refers']
      exact h.depth rfl before refers'
    | stmt | stmts | routine =>
      subst same
      cases own

end Revision.Respects

end

end ScopeScript
