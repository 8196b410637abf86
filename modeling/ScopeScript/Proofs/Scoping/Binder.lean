import ScopeScript.Proofs.Scoping.Breach
import ScopeScript.Proofs.Scoping.Enclose
import ScopeScript.Proofs.Scoping.Single

namespace ScopeScript

def Setting.seen (σ : Setting) : List Token := σ.frames.flatMap Frame.seen

def Frame.binder? (f : Frame) (name : String) : Option Token := f.seen.find? (·.lexeme == name)

-- The declaration that a name leads to, in the innermost region that has the name. The receiver has none.
def Setting.binder? (σ : Setting) (name : String) : Option Token :=
  (σ.frames.find? (·.declares name)).bind (·.binder? name)

def Expr.reference? : Expr → Option (RefId × Token)
  | .variable i name => some (i, name)
  | .assign i name _ => some (i, name)
  | .this i keyword => some (i, keyword)
  | _ => none

theorem Expr.reference?_eq {e : Expr} : e.reference? = some (i, name) ↔ e.Refers i name := by
  constructor
  · intro found
    cases e with
    | assign | this =>
      cases found
      constructor
    | literal | grouping | unary | binary | logical | call | lambda | get | set => cases found
    | _ =>
      cases found
      constructor
  · rintro ⟨⟩ <;> rfl

-- A reference with the declaration that it leads to.
structure Link where
  ref : RefId
  name : Token
  declared : Token
  deriving DecidableEq

def Spot.links : Spot → List Link
  | ⟨σ, .expr e⟩ =>
    (e.reference?.bind fun r => (σ.binder? r.2.lexeme).map fun t => ⟨r.1, r.2, t⟩).toList
  | _ => []

-- All links of some code.
def Spot.linking (S : Spot) : List Link := S.everywhere.flatMap Spot.links

theorem Spot.linking_eq (S : Spot) : S.linking = S.links ++ S.parts.flatMap Spot.linking :=
  S.everywhere_flatMap Spot.links

-- The declarations that some code refers to.
def Spot.bound (S : Spot) : List Token := S.linking.map Link.declared

section

variable {σ : Setting} {name : String} {t : Token}

theorem Setting.binder?_some (found : σ.binder? name = some t) :
    ∃ f ∈ σ.frames, σ.frames.find? (·.declares name) = some f ∧ f.seen.find? (·.lexeme == name) = some t ∧
      t ∈ f.seen ∧ t.lexeme = name := by
  obtain ⟨f, first, given⟩ := Option.bind_eq_some_iff.mp found
  change f.seen.find? (·.lexeme == name) = some t at given
  exact ⟨f, List.mem_of_find?_eq_some first, first, given, List.mem_of_find?_eq_some given,
    beq_iff_eq.mp (List.find?_some (p := fun t : Token => t.lexeme == name) given)⟩

theorem Setting.binder?_seen (found : σ.binder? name = some t) : t ∈ σ.seen := by
  obtain ⟨f, member, _, _, seen, _⟩ := Setting.binder?_some found
  exact List.mem_flatMap.mpr ⟨f, member, seen⟩

end

theorem Spot.mem_links {S : Spot} {link : Link} : link ∈ S.links ↔
    ∃ σ e, S = ⟨σ, .expr e⟩ ∧ e.Refers link.ref link.name ∧ σ.binder? link.name.lexeme = some link.declared := by
  obtain ⟨i, name, t⟩ := link
  constructor
  · intro member
    obtain ⟨σ, code⟩ := S
    cases code with
    | expr e =>
      obtain ⟨⟨j, other⟩, refers, found⟩ := Option.bind_eq_some_iff.mp (Option.mem_toList.mp member)
      obtain ⟨u, binder, same⟩ := Option.map_eq_some_iff.mp found
      cases same
      exact ⟨σ, e, rfl, Expr.reference?_eq.mp refers, binder⟩
    | _ => cases member
  · rintro ⟨σ, e, rfl, refers, binder⟩
    refine Option.mem_toList.mpr (Option.bind_eq_some_iff.mpr ⟨(i, name), Expr.reference?_eq.mpr refers, ?_⟩)
    exact Option.map_eq_some_iff.mpr ⟨t, binder, rfl⟩

theorem Spot.mem_linking {root : Spot} {link : Link} : link ∈ root.linking ↔
    ∃ σ e, root.Within ⟨σ, .expr e⟩ ∧ e.Refers link.ref link.name ∧ σ.binder? link.name.lexeme = some link.declared := by
  unfold Spot.linking
  rw [List.mem_flatMap]
  constructor
  · rintro ⟨S, inside, member⟩
    obtain ⟨σ, e, rfl, given⟩ := Spot.mem_links.mp member
    exact ⟨σ, e, Spot.mem_everywhere.mp inside, given⟩
  · rintro ⟨σ, e, inside, given⟩
    exact ⟨_, Spot.mem_everywhere.mpr inside, Spot.mem_links.mpr ⟨σ, e, rfl, given⟩⟩

-- With ids of their own a reference leads to one declaration.
theorem Spot.linking_unique {root : Spot} (single : (refsOf root.code.mentions).Nodup) {σ : Setting} {e : Expr}
    (inside : root.Within ⟨σ, .expr e⟩) (refers : e.Refers i name) {link : Link} (member : link ∈ root.linking)
    (same : link.ref = i) : link.name = name ∧ σ.binder? name.lexeme = some link.declared := by
  obtain ⟨τ, e', within, refers', binder⟩ := Spot.mem_linking.mp member
  rw [same] at refers'
  have one := Spot.ref_unique single (Spot.mem_everywhere.mpr inside) (Spot.mem_everywhere.mpr within)
    (Spot.ref?_eq.mpr ⟨name, refers⟩) (Spot.ref?_eq.mpr ⟨_, refers'⟩)
  cases one
  have named := (Expr.reference?_eq.mpr refers).symm.trans (Expr.reference?_eq.mpr refers')
  obtain ⟨-, known⟩ := Prod.mk.inj (Option.some.inj named)
  rw [known]
  exact ⟨rfl, binder⟩

-- Code has seen names of the code around it, each in one place.

theorem Setting.count_declare (σ : Setting) (names : List Token) (t : Token) :
    (σ.declare names).seen.count t ≤ σ.seen.count t + names.count t := by
  obtain ⟨frames, body, around⟩ := σ
  cases frames with
  | nil => exact Nat.le_add_right _ _
  | cons f outer =>
    simp only [Setting.declare, Setting.onInnermost, Setting.seen, List.flatMap_cons, Frame.seen, List.count_append]
    omega

theorem Setting.count_initializing (σ : Setting) (name t : Token) :
    (σ.initializing name).seen.count t ≤ σ.seen.count t + [name].count t := by
  obtain ⟨frames, body, around⟩ := σ
  cases frames with
  | nil => exact Nat.le_add_right _ _
  | cons f outer =>
    simp only [Setting.initializing, Setting.onInnermost, Setting.seen, List.flatMap_cons, Frame.seen, List.count_append,
      List.count_cons, List.count_nil]
    omega

theorem Spot.part_names {S T : Spot} (member : T ∈ S.parts) (t : Token) :
    S.named.count t + T.code.names.count t ≤ S.code.names.count t := by
  rw [S.parts_names.count_eq, List.count_append]
  have inside : T.code.names.Sublist (S.parts.flatMap fun part => part.code.names) :=
    List.sublist_flatten_of_mem (List.mem_map_of_mem (f := fun part : Spot => part.code.names) member)
  exact Nat.add_le_add_left (inside.count_le t) _

theorem Stmt.parts_seen {σ : Setting} {s : Stmt} {T : Spot} (member : T ∈ s.parts σ) (t : Token) :
    T.setting.seen.count t ≤ σ.seen.count t + s.declares.count t := by
  have same : T.setting.frames = σ.frames → T.setting.seen.count t ≤ σ.seen.count t + s.declares.count t := by
    intro frames
    unfold Setting.seen
    rw [frames]
    exact Nat.le_add_right _ _
  cases s with
  | expression value | print keyword value =>
    cases List.mem_singleton.mp member
    exact same rfl
  | var name initial =>
    cases initial with
    | none => cases member
    | some e =>
      cases List.mem_singleton.mp member
      exact σ.count_initializing name t
  | giveBack keyword value =>
    cases value with
    | none => cases member
    | some e =>
      cases List.mem_singleton.mp member
      exact same rfl
  | leave keyword => cases member
  | function routine =>
    cases List.mem_singleton.mp member
    exact σ.count_declare [routine.head] t
  | loop condition body =>
    rcases List.mem_cons.mp member with rfl | later
    · exact same rfl
    · cases List.mem_singleton.mp later
      exact same rfl
  | branch condition yes no =>
    refine same ?_
    cases no with
    | none =>
      simp only [Stmt.parts, List.mem_cons, List.not_mem_nil, or_false] at member
      rcases member with rfl | rfl <;> rfl
    | some no =>
      simp only [Stmt.parts, List.mem_cons, List.not_mem_nil, or_false] at member
      rcases member with rfl | rfl | rfl <;> rfl
  | block body =>
    cases List.mem_singleton.mp member
    exact Nat.le_add_right _ _
  | classes name methods =>
    obtain ⟨r, inside, rfl⟩ := List.mem_map.mp member
    exact σ.count_declare [name] t

theorem Spot.parts_seen {S T : Spot} (member : T ∈ S.parts) (t : Token) :
    T.setting.seen.count t + T.code.names.count t ≤ S.setting.seen.count t + S.code.names.count t := by
  have names := Spot.part_names member t
  have through : T.setting.seen.count t ≤ S.setting.seen.count t + S.named.count t →
      T.setting.seen.count t + T.code.names.count t ≤ S.setting.seen.count t + S.code.names.count t := by omega
  obtain ⟨σ, code⟩ := S
  cases code with
  | expr e =>
    obtain ⟨part, _, rfl⟩ := List.mem_map.mp member
    exact through (Nat.le_add_right _ _)
  | routine kind r =>
    cases List.mem_singleton.mp member
    refine through ?_
    simp [Setting.enterRoutine, Setting.seen, Frame.seen, Spot.named, Nat.add_comm]
  | stmts ss =>
    cases ss with
    | nil => cases member
    | cons s rest =>
      rcases List.mem_cons.mp member with rfl | later
      · exact through (Nat.le_add_right _ _)
      · cases List.mem_singleton.mp later
        have seen := σ.count_declare s.declares t
        have own := Spot.everywhere_opens t ⟨σ, .stmt s⟩
        have all : (Code.stmts (s :: rest)).names = (Code.stmt s).names ++ (Code.stmts rest).names :=
          namesOf_append _ _
        rw [List.count_append] at own
        change s.declares.count t + _ ≤ (Code.stmt s).names.count t at own
        show (σ.declare s.declares).seen.count t + (Code.stmts rest).names.count t ≤
          σ.seen.count t + (Code.stmts (s :: rest)).names.count t
        rw [all, List.count_append]
        omega
  | stmt s => exact through (Stmt.parts_seen member t)

theorem Spot.Within.seen {root S : Spot} (inside : root.Within S) (t : Token) :
    S.setting.seen.count t + S.code.names.count t ≤ root.setting.seen.count t + root.code.names.count t := by
  induction inside with
  | root => exact Nat.le_refl _
  | part _ member ih => exact Nat.le_trans (Spot.parts_seen member t) ih

-- No region of a clean program has two names of one spelling.

namespace Spot.Obeys

variable {root : Spot}

theorem stmts_distinct (obeys : root.Obeys) {σ : Setting} {ss : List Stmt} (inside : root.Within ⟨σ, .stmts ss⟩)
    (framed : σ.frames ≠ []) (before : (σ.declared.map (·.lexeme)).Nodup) :
    ((σ.declared ++ ss.flatMap Stmt.declares).map (·.lexeme)).Nodup := by
  induction ss generalizing σ with
  | nil => simpa using before
  | cons s rest ih =>
    have apart := obeys.declarations (.part inside List.mem_cons_self)
    have later : root.Within ⟨σ.declare s.declares, .stmts rest⟩ := .part inside (by simp [Spot.parts])
    obtain ⟨frames, body, around⟩ := σ
    cases frames with
    | nil => exact absurd rfl framed
    | cons f outer =>
      have now : ((f.declared ++ s.declares).map (·.lexeme)).Nodup := by
        rw [List.map_append, List.nodup_append]
        refine ⟨before, by cases s <;> simp [Stmt.declares], fun a first b second same => ?_⟩
        obtain ⟨d, known, rfl⟩ := List.mem_map.mp first
        obtain ⟨t, new, rfl⟩ := List.mem_map.mp second
        exact apart t new d known same
      have all := ih later nofun now
      rwa [List.flatMap_cons, ← List.append_assoc]

theorem distinct (obeys : root.Obeys) (outermost : root.setting = .outermost) {S : Spot} (inside : root.Within S)
    {region : Region} (around : region ∈ S.setting.regions) : (region.declares.map (·.lexeme)).Nodup := by
  obtain ⟨O, within, opener, -⟩ := inside.opener around (by rw [outermost]; nofun)
  cases opener with
  | @block σ body =>
    exact obeys.stmts_distinct (σ := (σ.nest (.block body)).enter (.block body))
      (.part within (List.mem_singleton_self _)) nofun .nil
  | @routine σ kind r =>
    exact obeys.stmts_distinct (σ := σ.enterRoutine kind r) (.part within (List.mem_singleton_self _)) nofun
      (obeys.parameters within)
  | receiver => exact .nil

end Spot.Obeys

-- Of things with different keys the first one with a key is the only one.
theorem List.find?_distinct [BEq β] [LawfulBEq β] {key : α → β} {xs : List α} (single : (xs.map key).Nodup)
    (member : x ∈ xs) : xs.find? (key · == key x) = some x := by
  induction xs with
  | nil => cases member
  | cons y rest ih =>
    obtain ⟨apart, later⟩ := List.nodup_cons.mp single
    rw [List.find?_cons]
    rcases List.mem_cons.mp member with rfl | further
    · rw [beq_self_eq_true]
    · have other : (key y == key x) = false := beq_eq_false_iff_ne.mpr fun same =>
        apart (same ▸ List.mem_map_of_mem further)
      rw [other]
      exact ih later further

-- What a clean walk leaves of a root.
structure Spot.Clean (root : Spot) : Prop where
  outermost : root.setting = .outermost
  obeys : root.Obeys
  ordered : ∀ {S}, root.Within S → S.code.Ordered
  placed : ∀ {S}, root.Within S → S.Placed

namespace Spot.Clean

variable {root S : Spot} {region : Region}

theorem find (clean : root.Clean) (inside : root.Within S) (around : region ∈ S.setting.regions)
    (declared : t ∈ region.declares) : region.declares.find? (·.lexeme == t.lexeme) = some t :=
  List.find?_distinct (clean.obeys.distinct clean.outermost inside around) declared

-- What a frame has seen its region declares, and so do the statements right in it.
theorem seen (clean : root.Clean) (inside : root.Within S) {f : Frame} (member : f ∈ S.setting.frames)
    (seen : t ∈ f.seen) : t ∈ f.region.declares := by
  have placed := clean.placed inside
  obtain ⟨⟨frames, body, around⟩, code⟩ := S
  cases frames with
  | nil => cases member
  | cons first outer =>
    rcases List.mem_cons.mp member with rfl | further
    · exact (placed.1.seen t seen).1
    · exact ((placed.2 f further).seen t seen).1

theorem mine (clean : root.Clean) (inside : root.Within S) {f : Frame} {outer : List Frame}
    (frames : S.setting.frames = f :: outer) (declared : t ∈ S.code.declares) : t ∈ f.region.declares := by
  have placed := clean.placed inside
  obtain ⟨⟨all, body, around⟩, code⟩ := S
  cases frames
  exact placed.1.mine t declared

end Spot.Clean

end ScopeScript
