import ScopeScript.Proofs.Scoping.Binder
import ScopeScript.Proofs.Scoping.Rename

namespace ScopeScript

namespace Names

theorem put_new {names : Names α} (new : names.get? name = none) (x : α) : put name x names = names ++ [(name, x)] := by
  induction names with
  | nil => rfl
  | cons row rest ih =>
    obtain ⟨other, old⟩ := row
    rw [get?_cons] at new
    unfold put
    split at new
    · cases new
    · rw [if_neg ‹_›, ih new]
      rfl

theorem put_same {names : Names α} (found : names.get? name = some x) : put name x names = names := by
  induction names with
  | nil => cases found
  | cons row rest ih =>
    obtain ⟨other, old⟩ := row
    rw [get?_cons] at found
    unfold put
    split at found
    · cases found
      subst_vars
      rw [if_pos rfl]
    · rw [if_neg ‹_›, ih found]

-- Rows for tokens.

def ofTokens (entry : Token → α) (ts : List Token) : Names α := ts.map fun t => (t.lexeme, entry t)

variable {entry entry' : Token → α} {ts : List Token}

theorem get?_ofTokens (name : String) :
    (ofTokens entry ts).get? name = (ts.find? (·.lexeme == name)).map entry := by
  induction ts with
  | nil => rfl
  | cons t rest ih =>
    show get? ((t.lexeme, entry t) :: ofTokens entry rest) name = _
    rw [get?_cons, List.find?_cons, ih]
    by_cases same : name = t.lexeme
    · rw [if_pos same, same, beq_self_eq_true]
      rfl
    · rw [if_neg same, beq_eq_false_iff_ne.mpr (Ne.symm same)]

-- A new entry for a name is one for its first token.
theorem put_ofTokens (first : ts.find? (·.lexeme == name) = some t) (single : ts.Nodup)
    (others : ∀ u ∈ ts, u ≠ t → entry u = entry' u) :
    (ofTokens entry ts).put name (entry' t) = ofTokens entry' ts := by
  induction ts with
  | nil => cases first
  | cons u rest ih =>
    obtain ⟨apart, later⟩ := List.nodup_cons.mp single
    rw [List.find?_cons] at first
    show put name (entry' t) ((u.lexeme, entry u) :: ofTokens entry rest) = (u.lexeme, entry' u) :: ofTokens entry' rest
    unfold put
    by_cases same : name = u.lexeme
    · rw [same, beq_self_eq_true] at first
      cases first
      rw [if_pos same, same]
      refine congrArg _ (List.map_congr_left fun v further => ?_)
      rw [others v (List.mem_cons_of_mem _ further) fun here => apart (here ▸ further)]
    · rw [beq_eq_false_iff_ne.mpr (Ne.symm same)] at first
      have found : t ∈ rest := List.mem_of_find?_eq_some first
      rw [if_neg same, ih first later fun v further => others v (List.mem_cons_of_mem _ further),
        others u List.mem_cons_self fun here => apart (here ▸ found)]

end Names

-- What a scope of the walk knows of a name, apart from whether it has its value.
def Declared.use (entry : Declared) : Option Token × Bool := (entry.token, entry.used)

-- What it knows of all its names when these are the ones used so far.
def Frame.rows (used : List Token) (f : Frame) : Names (Option Token × Bool) :=
  if f.region.isReceiver then [(receiverName, none, true)]
  else Names.ofTokens (fun t => (some t, decide (t ∈ used))) f.seen

structure Frame.Knows (used : List Token) (f : Frame) (names : Names Declared) : Prop where
  rows : names.mapThings Declared.use = f.rows used
  bare : f.region.isReceiver = true → f.seen = []

namespace Frame

variable {f : Frame} {used used' : List Token} {names : Names Declared}

theorem get?_rows (bare : f.region.isReceiver = true → f.seen = []) (name : String) :
    ((f.rows used).get? name).isSome = f.declares name := by
  unfold rows declares
  split
  · rename_i receiver
    rw [bare receiver, receiver, Names.get?_cons, BEq.comm]
    by_cases same : name = receiverName
    · simp [same]
    · simp [same, Names.get?_nil]
  · rename_i plain
    rw [Bool.eq_false_iff.mpr plain, Names.get?_ofTokens, Option.isSome_map, Bool.eq_iff_iff, List.find?_isSome]
    simp

theorem Knows.binds (h : f.Knows used names) (name : String) : names.binds name = f.declares name := by
  have known : ((f.rows used).get? name).isSome = f.declares name := get?_rows h.bare name
  rw [← known, ← h.rows, Names.get?_mapThings, Option.isSome_map]
  rfl

theorem Knows.recast (h : f.Knows used names) (same : ∀ t ∈ f.seen, t ∈ used ↔ t ∈ used') : f.Knows used' names := by
  refine ⟨h.rows.trans ?_, h.bare⟩
  unfold Frame.rows
  split
  · rfl
  · refine List.map_congr_left fun t member => ?_
    dsimp only
    rw [decide_eq_decide.mpr (same t member)]

-- A look-up that ends in a scope marks the token it leads to there.
theorem Knows.mark (h : f.Knows used names) (single : f.seen.Nodup) {entry : Declared}
    (found : names.get? name = some entry) :
    f.Knows (used ++ (f.binder? name).toList) (names.put name { entry with used := true }) := by
  refine ⟨?_, h.bare⟩
  have known : (f.rows used).get? name = some (entry.token, entry.used) := by
    rw [← h.rows, Names.get?_mapThings, found]
    rfl
  rw [← Names.put_mapThings, h.rows]
  unfold Frame.rows at known ⊢
  split at known
  · rename_i receiver
    rw [if_pos receiver, if_pos receiver]
    rw [Names.get?_cons] at known
    split at known
    · obtain ⟨token, -⟩ := Prod.mk.inj (Option.some.inj known)
      refine Names.put_same ?_
      rw [Names.get?_cons, if_pos ‹_›, token]
      rfl
    · cases known
  · rename_i plain
    rw [if_neg plain, if_neg plain]
    rw [Names.get?_ofTokens] at known
    obtain ⟨t, first, same⟩ := Option.map_eq_some_iff.mp known
    have binder : f.binder? name = some t := first
    have token : entry.token = some t := (Prod.mk.inj same).1.symm
    rw [binder]
    have marked : Declared.use { entry with used := true } = (some t, decide (t ∈ used ++ [t])) := by
      unfold Declared.use
      rw [token]
      simp
    rw [marked]
    have same : ∀ u ∈ f.seen, u ≠ t → (some u, decide (u ∈ used)) = (some u, decide (u ∈ used ++ [t])) := by
      intro u _ other
      simp [other]
    exact Names.put_ofTokens first single same

theorem Knows.recastAll {frames : List Frame} {scopes : List (Names Declared)}
    (h : List.Forall₂ (Frame.Knows used) frames scopes)
    (same : ∀ t ∈ frames.flatMap Frame.seen, t ∈ used ↔ t ∈ used') : List.Forall₂ (Frame.Knows used') frames scopes := by
  induction h with
  | nil => exact .nil
  | @cons f names frames scopes inner rest ih =>
    rw [List.flatMap_cons] at same
    exact .cons (inner.recast fun t seen => same t (List.mem_append_left _ seen))
      (ih fun t seen => same t (List.mem_append_right _ seen))

end Frame

-- What the walk knows where code stands: of the names around which are used so far, and that these
-- names are still to come.
structure Walk.Knows (w : Walk) (used : List Token) (frames : List Frame) (later : List Token) : Prop where
  rows : List.Forall₂ (Frame.Knows used) frames w.scopes
  single : (frames.flatMap Frame.seen ++ later).Nodup
  fresh : ∀ t ∈ later, t ∉ used
  inClass : w.inClass = frames.any (·.region.isReceiver)

namespace Walk

variable {w : Walk} {used later : List Token} {frames outer : List Frame} {f : Frame} {σ : Setting}

theorem findFrom_knows (name : String) (start : Nat) {scopes : List (Names Declared)}
    (h : List.Forall₂ (Frame.Knows used) frames scopes) (single : (frames.flatMap Frame.seen).Nodup) :
    match findFrom name start scopes with
    | some (_, found) => List.Forall₂ (Frame.Knows
        (used ++ ((frames.find? (·.declares name)).bind (·.binder? name)).toList)) frames found
    | none => frames.find? (·.declares name) = none := by
  induction h generalizing start with
  | nil => rfl
  | @cons f names frames outer inner rest ih =>
    rw [List.flatMap_cons, List.nodup_append] at single
    obtain ⟨own, others, apart⟩ := single
    have binds := inner.binds name
    unfold findFrom
    cases found : names.get? name with
    | some entry =>
      have declared : f.declares name = true := by
        rw [← binds, Names.binds, found]
        rfl
      rw [List.find?_cons, declared]
      refine .cons (inner.mark own found) (Frame.Knows.recastAll rest fun t seen => ?_)
      have elsewhere : t ∉ (f.binder? name).toList := fun here =>
        apart t (List.mem_of_find?_eq_some (Option.mem_toList.mp here)) t seen rfl
      simp [elsewhere]
    | none =>
      have undeclared : f.declares name = false := by
        rw [← binds, Names.binds, found]
        rfl
      rw [List.find?_cons, undeclared]
      have deeper := ih (start + 1) others
      cases further : findFrom name (start + 1) outer with
      | none =>
        rw [further] at deeper
        exact deeper
      | some result =>
        obtain ⟨depth, scopes⟩ := result
        rw [further] at deeper
        refine .cons (inner.recast fun t seen => ?_) deeper
        have elsewhere : t ∉ ((frames.find? (·.declares name)).bind (·.binder? name)).toList := fun here => by
          obtain ⟨g, first, given⟩ := Option.bind_eq_some_iff.mp (Option.mem_toList.mp here)
          exact apart t seen t (List.mem_flatMap.mpr ⟨g, List.mem_of_find?_eq_some first,
            List.mem_of_find?_eq_some given⟩) rfl
        simp [elsewhere]

theorem Knows.frames_nil (h : w.Knows used [] later) : w.scopes = [] := List.forall₂_nil_left_iff.mp h.rows

-- Only which names are used and which are to come matters, not their order.
theorem Knows.recast {used' later' : List Token} (h : w.Knows used frames later) (same : ∀ t, t ∈ used ↔ t ∈ used')
    (order : later.Perm later') : w.Knows used' frames later' :=
  ⟨Frame.Knows.recastAll h.rows fun t _ => same t, (order.append_left _).nodup_iff.mp h.single,
    fun t member known => h.fresh t (order.mem_iff.mpr member) ((same t).mpr known), h.inClass⟩

theorem Knows.fewer {fewer : List Token} (h : w.Knows used frames later) (sub : fewer.Sublist later) :
    w.Knows used frames fewer :=
  ⟨h.rows, h.single.sublist (sub.append_left _), fun t member => h.fresh t (sub.subset member), h.inClass⟩

theorem Knows.refer (h : w.Knows used σ.frames later) (i : RefId) (name : Token) :
    (w.refer i name).Knows (used ++ (σ.binder? name.lexeme).toList) σ.frames later := by
  have known := findFrom_knows name.lexeme 0 h.rows (List.Nodup.of_append_left h.single)
  unfold Walk.refer
  cases found : findFrom name.lexeme 0 w.scopes with
  | some result =>
    obtain ⟨depth, scopes⟩ := result
    rw [found] at known
    refine ⟨known, h.single, fun t member marked => ?_, h.inClass⟩
    rcases List.mem_append.mp marked with before | here
    · exact h.fresh t member before
    · have seen : t ∈ σ.seen := Setting.binder?_seen (Option.mem_toList.mp here)
      exact (List.nodup_append.mp h.single).2.2 t seen t member rfl
  | none =>
    rw [found] at known
    have missing : σ.binder? name.lexeme = none := by
      unfold Setting.binder?
      rw [known]
      rfl
    rw [missing, Option.toList_none, List.append_nil]
    exact ⟨h.rows, h.single, h.fresh, h.inClass⟩

theorem refer_warnings (w : Walk) (i : RefId) (name : Token) : (w.refer i name).warnings = w.warnings := by
  unfold refer
  split <;> rfl

theorem declare_warnings (w : Walk) (t : Token) : (w.declare t).warnings = w.warnings := by
  unfold declare
  split
  · rfl
  · dsimp only
    split <;> rfl

theorem settle_warnings (w : Walk) (t : Token) : (w.settle t).warnings = w.warnings := by
  unfold settle
  split
  · rfl
  · split <;> rfl

theorem declare_inClass (w : Walk) (t : Token) : (w.declare t).inClass = w.inClass := by
  unfold declare
  split
  · rfl
  · dsimp only
    split <;> rfl

-- A name that is new in its scope gets a row behind the others.
theorem Knows.declare (h : w.Knows used σ.frames (t :: later)) (settled : σ.Settled)
    (apart : ∀ d ∈ σ.declared, d.lexeme ≠ t.lexeme) : (w.declare t).Knows used (σ.initializing t).frames later := by
  obtain ⟨frames, body, around⟩ := σ
  have rows := h.rows
  have single := h.single
  have fresh := fun u member => h.fresh u (List.mem_cons_of_mem _ member)
  cases frames with
  | nil =>
    have global : w.declare t = w := by
      unfold Walk.declare
      rw [h.frames_nil]
    rw [global]
    exact ⟨h.rows, (List.nodup_cons.mp single).2, fresh, h.inClass⟩
  | cons f outer =>
    obtain ⟨idle, plain⟩ := settled f outer rfl
    have seen : f.seen = f.declared := by rw [Frame.seen, idle, List.append_nil]
    have order : Frame.seen { f with initializing := t :: f.initializing } = f.seen ++ [t] := by
      simp [Frame.seen, idle]
    refine ⟨?_, ?_, fresh, (w.declare_inClass t).trans h.inClass⟩
    · rw [declare_scopes]
      generalize w.scopes = given at rows
      cases rows with
      | @cons _ names _ scopes inner rest =>
        refine .cons ⟨?_, fun receiver => ?_⟩ rest
        · have undeclared : f.declares t.lexeme = false := by
            refine Bool.eq_false_iff.mpr fun declared => ?_
            change (_ || _) = true at declared
            rw [plain, Bool.false_and, Bool.or_false, List.any_eq_true, seen] at declared
            obtain ⟨d, member, same⟩ := declared
            exact apart d member (beq_iff_eq.mp same)
          have new : names.get? t.lexeme = none := by
            have unbound := inner.binds t.lexeme
            rw [undeclared] at unbound
            exact Option.isSome_eq_false_iff.mp unbound |> Option.isNone_iff_eq_none.mp
          have row : Declared.use ⟨false, false, some t⟩ = (some t, decide (t ∈ used)) := by
            rw [decide_eq_false (h.fresh t List.mem_cons_self)]
            rfl
          have known := inner.rows
          unfold Frame.rows at known ⊢
          dsimp only
          rw [if_neg (Bool.eq_false_iff.mp plain)] at known ⊢
          rw [Names.put_new new, order]
          unfold Names.mapThings Names.ofTokens at known ⊢
          rw [List.map_append, List.map_append, known, List.map_singleton, List.map_singleton, row]
        · rw [plain] at receiver
          cases receiver
    · show ((Frame.seen _ ++ outer.flatMap Frame.seen) ++ later).Nodup
      rw [order]
      refine List.Perm.nodup_iff ?_ |>.mp single
      simp only [List.flatMap_cons, List.append_assoc, List.singleton_append]
      exact List.Perm.append_left _ List.perm_middle

-- That a name has its value changes no row.
theorem Knows.settle (h : w.Knows used frames later) (t : Token) : (w.settle t).Knows used frames later := by
  obtain ⟨rows, single, fresh, inClass⟩ := h
  unfold Walk.settle
  split
  · exact ⟨rows, single, fresh, inClass⟩
  · rename_i names scopes given
    rw [given] at rows
    split
    · exact ⟨given ▸ rows, single, fresh, inClass⟩
    · rename_i entry found
      cases rows with
      | cons inner rest =>
        refine ⟨.cons ⟨?_, inner.bare⟩ rest, single, fresh, inClass⟩
        have known : (names.mapThings Declared.use).get? t.lexeme = some (Declared.use entry) := by
          rw [Names.get?_mapThings, found]
          rfl
        rw [← Names.put_mapThings, ← inner.rows]
        exact Names.put_same known

-- Behind its initializer a variable is one of the declared names.
theorem Knows.declared (h : w.Knows used (σ.initializing t).frames later) (settled : σ.Settled) :
    w.Knows used (σ.declare [t]).frames later := by
  obtain ⟨frames, body, around⟩ := σ
  cases frames with
  | nil => exact h
  | cons f outer =>
    obtain ⟨idle, -⟩ := settled f outer rfl
    have order : Frame.seen { f with initializing := t :: f.initializing } =
        Frame.seen { f with declared := f.declared ++ [t] } := by
      simp [Frame.seen, idle]
    obtain ⟨rows, single, fresh, inClass⟩ := h
    refine ⟨?_, ?_, fresh, inClass⟩
    · generalize w.scopes = given at rows
      cases rows with
      | cons inner rest =>
        refine .cons ⟨inner.rows.trans ?_, fun receiver => order ▸ inner.bare receiver⟩ rest
        unfold Frame.rows
        rw [order]
    · show ((Frame.seen { f with declared := f.declared ++ [t] } ++ outer.flatMap Frame.seen) ++ later).Nodup
      rw [← order]
      exact single

theorem Knows.introduce (h : w.Knows used σ.frames (t :: later)) (settled : σ.Settled)
    (apart : ∀ d ∈ σ.declared, d.lexeme ≠ t.lexeme) : (w.introduce t).Knows used (σ.declare [t]).frames later :=
  ((h.declare settled apart).settle t).declared settled

theorem introduce_warnings (w : Walk) (t : Token) : (w.introduce t).warnings = w.warnings :=
  (settle_warnings _ t).trans (declare_warnings w t)

theorem Knows.introduceAll {ts : List Token} (h : w.Knows used σ.frames (ts ++ later)) (settled : σ.Settled)
    (apart : ((σ.declared ++ ts).map (·.lexeme)).Nodup) (framed : σ.frames ≠ []) :
    (ts.foldl Walk.introduce w).Knows used (σ.declare ts).frames later ∧
      (ts.foldl Walk.introduce w).warnings = w.warnings := by
  induction ts generalizing w σ with
  | nil =>
    rw [Setting.declare_nil]
    exact ⟨h, rfl⟩
  | cons t rest ih =>
    obtain ⟨frames, body, around⟩ := σ
    cases frames with
    | nil => exact absurd rfl framed
    | cons f outer =>
      have new : ∀ d ∈ f.declared, d.lexeme ≠ t.lexeme := by
        intro d member same
        rw [List.map_append, List.nodup_append] at apart
        exact apart.2.2 _ (List.mem_map_of_mem member) _ (List.mem_map_of_mem List.mem_cons_self) same
      have one := h.introduce settled new
      obtain ⟨knows, warned⟩ := ih one (settled.declare [t]) (by
        show (((f.declared ++ [t]) ++ rest).map _).Nodup
        rw [List.append_assoc]
        exact apart) nofun
      rw [← Setting.declare_append] at knows
      exact ⟨knows, warned.trans (w.introduce_warnings t)⟩

-- A new scope, and the way back out of it.

theorem Knows.enter (h : w.Knows used frames later) (region : Region) (plain : region.isReceiver = false) :
    (w.enter []).Knows used (⟨region, [], []⟩ :: frames) later := by
  refine ⟨.cons ⟨?_, fun _ => rfl⟩ h.rows, h.single, h.fresh, h.inClass.trans ?_⟩
  · unfold Frame.rows
    rw [if_neg (Bool.eq_false_iff.mp plain)]
    rfl
  · rw [List.any_cons, plain, Bool.false_or]

theorem Knows.enterReceiver (h : w.Knows used frames later) (methods : List Routine) :
    (Walk.enter { w with inClass := true } [(receiverName, ⟨true, true, none⟩)]).Knows used
      (⟨.receiver methods, [], []⟩ :: frames) later :=
  ⟨.cons ⟨rfl, fun _ => rfl⟩ h.rows, h.single, h.fresh, rfl⟩

end Walk

-- Names that nothing uses, in reading order.
def spare (used ts : List Token) : List Token :=
  (ts.filter fun t => decide (t ∉ used)).mergeSort fun a b => a.position.before b.position

namespace Walk

variable {w : Walk} {used later : List Token} {frames outer : List Frame} {f : Frame}

theorem unused_spare {names : Names Declared} (h : f.Knows used names) : unused names = spare used f.seen := by
  have given : (names.filterMap fun row => if row.2.used then none else row.2.token) =
      (names.mapThings Declared.use).filterMap fun row => if row.2.2 then none else row.2.1 := by
    unfold Names.mapThings
    rw [List.filterMap_map]
    rfl
  unfold unused spare
  dsimp only
  rw [given, h.rows]
  congr 1
  unfold Frame.rows
  split
  · rename_i receiver
    rw [h.bare receiver]
    rfl
  · unfold Names.ofTokens
    rw [List.filterMap_map, ← List.filterMap_eq_filter]
    refine List.filterMap_congr fun t _ => ?_
    by_cases known : t ∈ used <;> simp [known, Option.guard]

theorem warnAll_exact (cause : WarningCause) (tokens : List Token) (w : Walk) :
    tokens.foldl (fun w t => w.warn cause t) w =
      { w with warnings := w.warnings ++ (tokens.map (Warning.mk cause)).toArray } := by
  induction tokens generalizing w with
  | nil => simp
  | cons t rest ih =>
    rw [List.foldl_cons, ih]
    simp [warn]

theorem Knows.leave (h : w.Knows used (f :: frames) later) :
    List.Forall₂ (Frame.Knows used) frames w.leave.scopes ∧ w.leave.inClass = w.inClass ∧
      w.leave.warnings.toList = w.warnings.toList ++ (spare used f.seen).map (Warning.mk .unusedVariable) := by
  have rows := h.rows
  unfold Walk.leave
  cases given : w.scopes with
  | nil =>
    rw [given] at rows
    cases rows
  | cons names outer =>
    rw [given] at rows
    cases rows with
    | cons inner rest =>
      dsimp only
      rw [warnAll_exact, unused_spare inner]
      exact ⟨rest, rfl, by simp⟩

end Walk

-- The returns that more statements of their list stand behind.
def cutShort : List Stmt → List Token
  | .giveBack keyword _ :: next :: rest => keyword :: cutShort (next :: rest)
  | _ :: rest => cutShort rest
  | [] => []

theorem Walk.flagUnreachable_exact (w : Walk) (ss : List Stmt) : w.flagUnreachable ss =
    { w with warnings := w.warnings ++ ((cutShort ss).map (Warning.mk .unreachableCode)).toArray } := by
  fun_induction flagUnreachable w ss with
  | case1 w keyword value next rest ih =>
    rw [ih, cutShort]
    simp [warn]
  | case2 w s rest other ih =>
    rw [ih, cutShort.eq_2 s rest other]
  | case3 w => simp [cutShort]

end ScopeScript
