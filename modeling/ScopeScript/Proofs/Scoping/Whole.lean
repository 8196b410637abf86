import ScopeScript.Proofs.Scoping.Caution

namespace ScopeScript

def Link.revise (V : Revision) (link : Link) : Link := ⟨link.ref, V.refer link.ref link.name, V.declare link.declared⟩

-- A warning of a name is one of its new name.
def Warning.revise (V : Revision) (w : Warning) : Warning :=
  match w.cause with
  | .unusedVariable => ⟨.unusedVariable, V.declare w.token⟩
  | .unreachableCode => w

section

variable {V : Revision}

theorem Stmt.reviseAll_whole (whole : V.Whole) (ss : List Stmt) : Stmt.reviseAll V ss = ss.map (Stmt.revise V) := by
  induction ss with
  | nil => rfl
  | cons s rest ih => rw [Stmt.reviseAll_kept (whole.drops s) (whole.stops s), ih, List.map_cons]

theorem Stmt.declares_whole (whole : V.Whole) (ss : List Stmt) :
    (Stmt.reviseAll V ss).flatMap Stmt.declares = (ss.flatMap Stmt.declares).map V.declare := by
  rw [Stmt.reviseAll_whole whole, List.flatMap_map, List.map_flatMap]
  exact congrArg (List.flatMap · ss) (funext (Stmt.revise_declares V))

theorem cutShort_whole (whole : V.Whole) (ss : List Stmt) : cutShort (Stmt.reviseAll V ss) = cutShort ss := by
  rw [Stmt.reviseAll_whole whole]
  induction ss with
  | nil => rfl
  | cons s rest ih =>
    cases s with
    | giveBack keyword value =>
      cases rest with
      | nil => cases value <;> rfl
      | cons next rest =>
        rw [cutShort, ← ih]
        cases value <;> rfl
    | var name initial => cases initial <;> exact ih
    | branch condition yes no => cases no <;> exact ih
    | _ => exact ih

theorem Spot.opens_whole (whole : V.Whole) (S : Spot) : (S.revise V).opens = S.opens.map V.declare := by
  obtain ⟨σ, code⟩ := S
  cases code with
  | expr e => rfl
  | stmts ss => rfl
  | routine kind r =>
    show (r.revise V).parameters ++ (r.revise V).body.flatMap Stmt.declares = List.map V.declare (_ ++ _)
    rw [Routine.revise_parameters, Routine.revise_body, Stmt.declares_whole whole, List.map_append]
  | stmt s =>
    cases s with
    | block body => exact Stmt.declares_whole whole body
    | var name initial => cases initial <;> rfl
    | branch condition yes no => cases no <;> rfl
    | giveBack keyword value => cases value <;> rfl
    | _ => rfl

theorem Spot.shortened_whole (whole : V.Whole) (S : Spot) : (S.revise V).shortened = S.shortened := by
  obtain ⟨σ, code⟩ := S
  cases code with
  | routine kind r =>
    show cutShort (r.revise V).body = cutShort r.body
    rw [Routine.revise_body, cutShort_whole whole]
  | _ => rfl

end

-- Names that stay apart and where they are stay spare.
theorem spare_map {V : Revision} {used ts : List Token} (placed : ∀ t, (V.declare t).position = t.position)
    (apart : ∀ t ∈ ts, ∀ u ∈ used, V.declare t = V.declare u → t = u) :
    spare (used.map V.declare) (ts.map V.declare) = (spare used ts).map V.declare := by
  have kept : (ts.map V.declare).filter (fun t => decide (t ∉ used.map V.declare)) =
      (ts.filter fun t => decide (t ∉ used)).map V.declare := by
    rw [List.filter_map]
    refine congrArg _ (List.filter_congr fun t member => decide_eq_decide.mpr (not_congr ⟨fun there => ?_, fun there => ?_⟩))
    · obtain ⟨u, known, same⟩ := List.mem_map.mp there
      rwa [apart t member u known same.symm]
    · exact List.mem_map_of_mem there
  unfold spare
  rw [kept]
  refine (List.map_mergeSort fun a _ b _ => ?_).symm
  rw [placed, placed]

namespace Revision.Respects

variable {V : Revision} {root S : Spot}

theorem parts_whole (h : V.Respects root) (whole : V.Whole) (inside : root.Within S) : (S.revise V).parts = S.parts.map (Spot.revise V) :=
  h.parts inside (fun s _ => whole.drops s) fun _ _ => whole

theorem everywhere_whole (h : V.Respects root) (whole : V.Whole) (inside : root.Within S) : (S.revise V).everywhere = S.everywhere.map (Spot.revise V) := by
  induction S using Spot.induct with
  | step S ih =>
    rw [Spot.everywhere_eq, S.everywhere_eq, h.parts_whole whole inside, List.map_cons, List.flatMap_map, List.map_flatMap]
    exact congrArg _ (List.flatMap_congr fun T member => ih T member (.part inside member))

theorem closing_whole (h : V.Respects root) (whole : V.Whole) (inside : root.Within S) : (S.revise V).closing = S.closing.map (Spot.revise V) := by
  induction S using Spot.induct with
  | step S ih =>
    rw [Spot.closing_eq, S.closing_eq, h.parts_whole whole inside, List.map_append, List.flatMap_map, List.map_flatMap]
    exact congrArg (· ++ _) (List.flatMap_congr fun T member => ih T member (.part inside member))

theorem links_whole (h : V.Respects root) (whole : V.Whole) (outermost : root.setting = .outermost)
    (inside : root.Within S) :
    (S.revise V).links = S.links.map (Link.revise V) := by
  obtain ⟨σ, code⟩ := S
  cases code with
  | expr e =>
    have revised : (e.revise V).reference? = e.reference?.map fun r => (r.1, V.refer r.1 r.2) := by
      cases e <;> rfl
    show (((e.revise V).reference?.bind _).toList) = ((e.reference?.bind _).toList).map _
    rw [revised]
    cases found : e.reference? with
    | none => rfl
    | some r =>
      have refers : e.Refers r.1 r.2 := Expr.reference?_eq.mp found
      rw [Option.map_some, Option.bind_some, Option.bind_some]
      show Option.toList (((σ.revise V).binder? (V.refer r.1 r.2).lexeme).map _) = _
      rw [h.binder? whole outermost inside refers]
      cases σ.binder? r.2.lexeme <;> rfl
  | _ => rfl

theorem bound_whole (h : V.Respects root) (whole : V.Whole) (outermost : root.setting = .outermost)
    (inside : root.Within S) :
    (S.revise V).bound = S.bound.map V.declare := by
  unfold Spot.bound Spot.linking
  rw [h.everywhere_whole whole inside, List.flatMap_map, List.map_flatMap, List.map_flatMap, List.map_flatMap]
  refine List.flatMap_congr fun T member => ?_
  rw [h.links_whole whole outermost (inside.inside (Spot.mem_everywhere.mp member)), List.map_map, List.map_map]
  rfl

-- The ids of the references stay.
theorem refs_whole (h : V.Respects root) (whole : V.Whole) (inside : root.Within S) :
    ∀ i, i ∈ refsOf (S.revise V).code.mentions ↔ i ∈ refsOf S.code.mentions := by
  have same : ∀ T : Spot, (T.revise V).ref? = T.ref? := by
    rintro ⟨σ, code⟩
    cases code with
    | expr e => cases e <;> rfl
    | _ => rfl
  intro i
  rw [(S.revise V).everywhere_refs.mem_iff, S.everywhere_refs.mem_iff, h.everywhere_whole whole inside, List.flatMap_map]
  exact iff_of_eq (congrArg (i ∈ List.flatMap · S.everywhere) (funext fun T => congrArg _ (same T)))

-- The warnings of the changed program are those of the program with the new names.
theorem alerts_whole (h : V.Respects root) (whole : V.Whole) (outermost : root.setting = .outermost)
    (placed : ∀ t, (V.declare t).position = t.position)
    (apart : ∀ t ∈ root.code.names, ∀ u ∈ root.code.names, V.declare t = V.declare u → t = u) :
    (root.revise V).alerts = root.alerts.map (Warning.revise V) := by
  have bound : ∀ {S}, root.Within S → ∀ t ∈ S.bound, t ∈ root.code.names := by
    intro S inside t member
    obtain ⟨link, linked, rfl⟩ := List.mem_map.mp member
    obtain ⟨σ, e, within, -, binder⟩ := Spot.mem_linking.mp linked
    exact seen_named outermost (inside.inside within) (Setting.binder?_seen binder)
  have opened : ∀ {S}, root.Within S → ∀ t ∈ S.opens, t ∈ root.code.names := by
    intro S inside t member
    obtain ⟨m, mentioned, given⟩ := List.mem_filterMap.mp (S.opens_names t member)
    exact List.mem_filterMap.mpr ⟨m, inside.mentions m mentioned, given⟩
  unfold Spot.alerts
  rw [h.closing_whole whole .root, List.flatMap_map, List.map_flatMap]
  refine List.flatMap_congr fun S member => ?_
  have inside : root.Within S := Spot.mem_everywhere.mp (root.closing_perm.mem_iff.mp member)
  unfold Spot.cautions
  rw [S.shortened_whole whole, S.opens_whole whole, h.bound_whole whole outermost inside,
    spare_map placed fun t known u used => apart t (opened inside t known) u (bound inside u used),
    List.map_append, List.map_map, List.map_map, List.map_map]
  rfl

end Revision.Respects

section

variable {V : Revision} {program : List Stmt}

theorem Mention.revise_names (ms : List Mention) : namesOf (ms.map (Mention.revise V)) = (namesOf ms).map V.declare := by
  induction ms with
  | nil => rfl
  | cons m rest ih =>
    obtain ⟨t, _ | i⟩ := m
    · exact congrArg (V.declare t :: ·) ih
    · exact ih

theorem Stmt.reviseAll_names (apart : ∀ t ∈ (Stmt.root program).code.names, ∀ u ∈ (Stmt.root program).code.names,
    V.declare t = V.declare u → t = u) (single : (Stmt.root program).code.names.Nodup) :
    (Stmt.root (Stmt.reviseAll V program)).code.names.Nodup := by
  have fewer : (namesOf (Stmt.mentionsAll (Stmt.reviseAll V program))).Sublist
      (namesOf ((Stmt.mentionsAll program).map (Mention.revise V))) :=
    (Stmt.reviseAll_mentions V program).filterMap _
  rw [Mention.revise_names] at fewer
  exact (single.map_on apart).sublist fewer

theorem Revision.Respects.warnings_whole (h : V.Respects (Stmt.root program)) (whole : V.Whole)
    (obeys : (Stmt.root program).Obeys) (ordered : ∀ {S}, (Stmt.root program).Within S → S.code.Ordered)
    (formed : Stmt.FormedAll program) (single : (Stmt.root program).code.names.Nodup)
    (placed : ∀ t, (V.declare t).position = t.position)
    (apart : ∀ t ∈ (Stmt.root program).code.names, ∀ u ∈ (Stmt.root program).code.names,
      V.declare t = V.declare u → t = u) :
    (resolveProgram (Stmt.reviseAll V program)).warnings = (resolveProgram program).warnings.map (Warning.revise V) := by
  have kept : (Stmt.root (Stmt.reviseAll V program)).Obeys := h.obeys obeys rfl ordered nofun
  rw [resolveProgram_warns kept (Stmt.reviseAll_formed V program formed) (Stmt.reviseAll_names apart single),
    resolveProgram_warns obeys formed single,
    show (Stmt.root (Stmt.reviseAll V program)).alerts = _ from h.alerts_whole whole rfl placed apart]
  -- The new names stand where the old ones do.
  have position : ∀ w : Warning, (w.revise V).token.position = w.token.position := by
    intro w
    unfold Warning.revise
    split
    · exact placed w.token
    · rfl
  refine (List.map_mergeSort fun a _ b _ => ?_).symm
  rw [position, position]

end

end ScopeScript
