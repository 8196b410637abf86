import Mathlib.Data.List.Forall2
import ScopeScript.Scoping.Resolve
import ScopeScript.Proofs.Grammar.Order
import ScopeScript.Proofs.Scoping.Setting

namespace ScopeScript

-- The names of a scope of the walk are those its frame declares.
def Frame.Matches (f : Frame) (names : Names Declared) : Prop :=
  ∀ name, names.binds name = f.declares name

theorem Frame.Matches.put {f g : Frame} (h : f.Matches names) (t : Token) (entry : Declared)
    (adds : ∀ name, g.declares name = (t.lexeme == name || f.declares name)) :
    g.Matches (names.put t.lexeme entry) := by
  intro name
  rw [Names.binds_put, h name, adds name, BEq.comm]

-- The walk stands where the setting says.
structure Walk.Follows (w : Walk) (σ : Setting) : Prop where
  scopes : List.Forall₂ Frame.Matches σ.frames w.scopes
  body : w.body = σ.body
  loops : w.loops = σ.loops
  inClass : w.inClass = σ.inClass

-- Faults and notes are only added, the notes on some of the given references in their order.
structure Walk.Grows (w later : Walk) (refs : List RefId) : Prop where
  faults : w.faults.toList <+: later.faults.toList
  notes : ∃ more, later.notes.toList = w.notes.toList ++ more ∧ (more.map Note.id).Sublist refs

namespace Walk

theorem Grows.refl (w : Walk) (refs : List RefId) : w.Grows w refs :=
  ⟨List.prefix_rfl, [], by simp, List.nil_sublist _⟩

theorem Grows.trans (first : Grows w middle a) (second : Grows middle later b) :
    Grows w later (a ++ b) := by
  obtain ⟨faults, more, notes, below⟩ := first
  obtain ⟨faults', more', notes', below'⟩ := second
  refine ⟨faults.trans faults', more ++ more', ?_, ?_⟩
  · rw [notes', notes, List.append_assoc]
  · rw [List.map_append]
    exact below.append below'

theorem Grows.mono (h : Grows w later a) (wider : a.Sublist b) : Grows w later b := by
  obtain ⟨faults, more, notes, below⟩ := h
  exact ⟨faults, more, notes, below.trans wider⟩

-- A step that notes nothing.
theorem Grows.quiet (faults : w.faults.toList <+: later.faults.toList) (notes : later.notes = w.notes) :
    Grows w later [] :=
  ⟨faults, [], by simp [notes], .slnil⟩

theorem grows_fault (w : Walk) (cause : StaticCause) (t : Token) : w.Grows (w.fault cause t) [] :=
  .quiet (by simp [fault]) rfl

theorem grows_note (w : Walk) (i : RefId) (depth : Option Nat) : w.Grows (w.note i depth) [i] :=
  ⟨List.prefix_rfl, [⟨i, depth⟩], by simp [note], by simp⟩

-- Warnings change nothing else.

theorem warnAll (cause : WarningCause) (tokens : List Token) (w : Walk) :
    ∃ warnings, tokens.foldl (fun w t => w.warn cause t) w = { w with warnings := warnings } := by
  induction tokens generalizing w with
  | nil => exact ⟨w.warnings, rfl⟩
  | cons t rest ih => exact ih (w.warn cause t)

theorem flagUnreachable_warns (w : Walk) (ss : List Stmt) :
    ∃ warnings, w.flagUnreachable ss = { w with warnings := warnings } := by
  fun_induction flagUnreachable w ss with
  | case1 w keyword value next rest ih => exact ih
  | case2 w s rest _ ih => exact ih
  | case3 w => exact ⟨w.warnings, rfl⟩

theorem leave_warns (w : Walk) : ∃ warnings, w.leave =
    { w with scopes := w.scopes.tail, warnings := warnings } := by
  unfold leave
  split
  · rename_i empty
    exact ⟨w.warnings, by rw [empty, List.tail_nil, ← empty]⟩
  · rename_i names outer found
    rw [found]
    exact warnAll .unusedVariable _ _

theorem grows_leave (w : Walk) : w.Grows w.leave [] := by
  obtain ⟨warnings, same⟩ := w.leave_warns
  exact .quiet (same ▸ List.prefix_rfl) (by rw [same])

theorem grows_flag (w : Walk) (ss : List Stmt) : w.Grows (w.flagUnreachable ss) [] := by
  obtain ⟨warnings, same⟩ := w.flagUnreachable_warns ss
  exact .quiet (same ▸ List.prefix_rfl) (by rw [same])

theorem grows_declare (w : Walk) (t : Token) : w.Grows (w.declare t) [] := by
  unfold declare
  split
  · exact .refl _ _
  · dsimp only
    split
    · exact .quiet (by simp [fault]) rfl
    · exact .quiet List.prefix_rfl rfl

theorem grows_settle (w : Walk) (t : Token) : w.Grows (w.settle t) [] := by
  unfold settle
  split
  · exact .refl _ _
  · split
    · exact .refl _ _
    · exact .quiet List.prefix_rfl rfl

theorem grows_introduce (w : Walk) (t : Token) : w.Grows (w.introduce t) [] :=
  (w.grows_declare t).trans ((w.declare t).grows_settle t)

theorem grows_introduceAll (w : Walk) (names : List Token) : w.Grows (names.foldl introduce w) [] := by
  induction names generalizing w with
  | nil => exact .refl _ _
  | cons t rest ih => exact (w.grows_introduce t).trans (ih (w.introduce t))

theorem grows_refer (w : Walk) (i : RefId) (t : Token) : w.Grows (w.refer i t) [i] := by
  unfold refer
  split
  · rename_i depth scopes found
    exact ⟨List.prefix_rfl, [⟨i, some depth⟩], by simp [note], by simp⟩
  · exact w.grows_note i none


-- What the steps do to the setting.

section

variable {w : Walk} {σ : Setting}

theorem Follows.faulted (h : w.Follows σ) (cause : StaticCause) (t : Token) :
    (w.fault cause t).Follows σ :=
  ⟨h.scopes, h.body, h.loops, h.inClass⟩

-- Both innermost scopes change in step.
theorem Follows.changed (h : w.Follows σ) (step : Names Declared → Names Declared)
    (change : Frame → Frame) (kept : ∀ f names, f.Matches names → (change f).Matches (step names))
    (same : ∀ f, (change f).region = f.region) :
    Follows { w with scopes := match w.scopes with
      | [] => []
      | names :: outer => step names :: outer } (σ.onInnermost change) := by
  have regions := σ.regions_onInnermost change same
  obtain ⟨frames, body, around⟩ := σ
  obtain ⟨scopes, bodySame, loopsSame, classSame⟩ := h
  have classKept : w.inClass = (Setting.onInnermost ⟨frames, body, around⟩ change).inClass := by
    rw [classSame, Setting.inClass, Setting.inClass, regions]
  cases frames with
  | nil =>
    cases given : w.scopes with
    | cons names outer => rw [given] at scopes; cases scopes
    | nil => exact ⟨.nil, bodySame, loopsSame, classKept⟩
  | cons f outer =>
    cases given : w.scopes with
    | nil => rw [given] at scopes; cases scopes
    | cons names others =>
      rw [given] at scopes
      cases scopes with
      | cons inner rest => exact ⟨.cons (kept f names inner) rest, bodySame, loopsSame, classKept⟩

theorem Follows.declare (h : w.Follows σ) (t : Token) (change : Frame → Frame)
    (adds : ∀ f name, (change f).declares name = (t.lexeme == name || f.declares name))
    (same : ∀ f, (change f).region = f.region) : (w.declare t).Follows (σ.onInnermost change) := by
  have changed := h.changed (fun names => names.put t.lexeme ⟨false, false, some t⟩) change
    (fun f names matched => matched.put t _ (adds f)) same
  unfold Walk.declare
  cases given : w.scopes with
  | nil =>
    rw [given] at changed
    dsimp only at changed ⊢
    rwa [← given] at changed
  | cons names outer =>
    rw [given] at changed
    dsimp only at changed ⊢
    split
    · exact changed.faulted _ _
    · exact changed

-- A name that is there is settled without changing which names are there.
theorem Follows.settle (h : w.Follows σ) (t : Token) : (w.settle t).Follows σ := by
  obtain ⟨frames, body, around⟩ := σ
  obtain ⟨scopes, bodySame, loopsSame, classSame⟩ := h
  unfold Walk.settle
  split
  · exact ⟨scopes, bodySame, loopsSame, classSame⟩
  · rename_i names outer given
    split
    · exact ⟨scopes, bodySame, loopsSame, classSame⟩
    · rename_i entry found
      rw [given] at scopes
      cases scopes with
      | @cons f _ frames _ inner rest =>
        refine ⟨.cons (fun name => ?_) rest, bodySame, loopsSame, classSame⟩
        rw [Names.binds_put, ← inner name]
        by_cases same : name = t.lexeme
        · simp [same, Names.binds, found]
        · simp [same]

-- It only matters which names a frame declares, not as what.
theorem Follows.recast {a b : Frame → Frame} (h : w.Follows (σ.onInnermost a))
    (names : ∀ f name, (b f).declares name = (a f).declares name)
    (same : ∀ f, (b f).region = (a f).region) : w.Follows (σ.onInnermost b) := by
  obtain ⟨frames, body, around⟩ := σ
  cases frames with
  | nil => exact h
  | cons f outer =>
    obtain ⟨scopes, bodySame, loopsSame, classSame⟩ := h
    refine ⟨?_, bodySame, loopsSame, classSame.trans ?_⟩
    · generalize w.scopes = given at scopes
      cases scopes with
      | cons inner rest => exact .cons (fun name => (inner name).trans (names f name).symm) rest
    · simp [Setting.inClass, Setting.regions, Setting.onInnermost, same]

theorem Follows.initializing (h : w.Follows σ) (t : Token) :
    (w.declare t).Follows (σ.initializing t) :=
  h.declare t _ (fun f name => f.declares_initializing t name) fun _ => rfl

theorem Follows.introduce (h : w.Follows σ) (t : Token) : (w.introduce t).Follows (σ.declare [t]) := by
  refine (h.declare t (fun f => { f with declared := f.declared ++ [t] }) (fun f name => ?_)
    fun _ => rfl).settle t
  rw [f.declares_declared [t] name, List.any_cons, List.any_nil, Bool.or_false]

theorem Follows.introduceAll (h : w.Follows σ) (names : List Token) :
    (names.foldl Walk.introduce w).Follows (σ.declare names) := by
  induction names generalizing w σ with
  | nil => rwa [Setting.declare_nil]
  | cons t rest ih =>
    have later := ih (h.introduce t)
    rwa [← Setting.declare_append] at later

theorem Follows.enter (h : w.Follows σ) (region : Region) (names : Names Declared)
    (matched : Frame.Matches ⟨region, [], []⟩ names) (inClass : Bool)
    (same : inClass = (region.isReceiver || w.inClass)) :
    Follows ({ w with inClass := inClass }.enter names) (σ.enter region) := by
  refine ⟨.cons matched h.scopes, h.body, h.loops, ?_⟩
  show inClass = (σ.enter region).inClass
  rw [same, h.inClass]
  rfl

theorem Follows.leave (h : w.Follows σ) {f : Frame} {outer : List Frame}
    (inside : σ.frames = f :: outer) :
    List.Forall₂ Frame.Matches outer w.leave.scopes ∧ w.leave.body = σ.body ∧
      w.leave.loops = σ.loops ∧ w.leave.inClass = σ.inClass := by
  obtain ⟨warnings, left⟩ := w.leave_warns
  rw [left]
  refine ⟨?_, h.body, h.loops, h.inClass⟩
  have scopes := h.scopes
  rw [inside] at scopes
  cases given : w.scopes with
  | nil => rw [given] at scopes; cases scopes
  | cons names rest =>
    rw [given] at scopes
    cases scopes with
    | cons _ others => exact others

-- The depth of a name is the walk's, and the look-up leaves the names as they are.
theorem findFrom_exact (name : String) (start : Nat) {frames : List Frame}
    {scopes : List (Names Declared)} (h : List.Forall₂ Frame.Matches frames scopes) :
    match findFrom name start scopes with
    | some (depth, found) => List.Forall₂ Frame.Matches frames found ∧
        (frames.findIdx? (·.declares name)).map (start + ·) = some depth
    | none => frames.findIdx? (·.declares name) = none := by
  induction h generalizing start with
  | nil => rfl
  | @cons f names frames outer inner rest ih =>
    unfold findFrom
    rw [List.findIdx?_cons, ← inner name]
    cases found : names.get? name with
    | some entry =>
      have bound : names.binds name = true := by simp [Names.binds, found]
      refine ⟨.cons (fun other => ?_) rest, by simp [bound]⟩
      rw [Names.binds_put, ← inner other]
      by_cases same : other = name
      · simp [same, bound]
      · simp [same]
    | none =>
      have unbound : names.binds name = false := by simp [Names.binds, found]
      have later := ih (start + 1)
      cases deeper : findFrom name (start + 1) outer with
      | none =>
        rw [deeper] at later
        simpa [unbound] using later
      | some result =>
        obtain ⟨depth, scopes⟩ := result
        rw [deeper] at later
        obtain ⟨matched, index⟩ := later
        refine ⟨.cons inner matched, ?_⟩
        rw [← index]
        simp [unbound, Function.comp_def, Nat.add_assoc, Nat.add_comm 1]

theorem Follows.refer (h : w.Follows σ) (i : RefId) (t : Token) :
    (w.refer i t).Follows σ ∧ (w.refer i t).notes = w.notes.push ⟨i, σ.depth t.lexeme⟩ := by
  have known := findFrom_exact t.lexeme 0 h.scopes
  unfold Walk.refer Setting.depth
  cases found : findFrom t.lexeme 0 w.scopes with
  | none =>
    rw [found] at known
    exact ⟨⟨h.scopes, h.body, h.loops, h.inClass⟩, by simp [note, known]⟩
  | some result =>
    obtain ⟨depth, scopes⟩ := result
    rw [found] at known
    obtain ⟨matched, index⟩ := known
    simp only [Nat.zero_add, Option.map_id'] at index
    exact ⟨⟨matched, h.body, h.loops, h.inClass⟩, by simp [note, index]⟩

end

end Walk

end ScopeScript
