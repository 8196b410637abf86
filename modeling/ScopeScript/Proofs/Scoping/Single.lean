import ScopeScript.Proofs.Scoping.Look

namespace ScopeScript

-- The names that are declared, not referred to.
def namesOf (mentions : List Mention) : List Token :=
  mentions.filterMap fun m => if m.ref.isNone then some m.token else none

@[simp] theorem namesOf_nil : namesOf [] = [] := rfl

@[simp] theorem namesOf_append (a b : List Mention) : namesOf (a ++ b) = namesOf a ++ namesOf b :=
  List.filterMap_append

@[simp] theorem namesOf_declared (name : Token) (rest : List Mention) :
    namesOf (⟨name, none⟩ :: rest) = name :: namesOf rest := rfl

@[simp] theorem namesOf_reference (name : Token) (i : RefId) (rest : List Mention) :
    namesOf (⟨name, some i⟩ :: rest) = namesOf rest := rfl

@[simp] theorem namesOf_declaredAll (names : List Token) : namesOf (names.map (⟨·, none⟩)) = names := by
  induction names with
  | nil => rfl
  | cons name rest ih => exact congrArg (name :: ·) ih

theorem namesOf_sublist (ms : List Mention) : (namesOf ms).Sublist (tokensOf ms) := by
  induction ms with
  | nil => exact .slnil
  | cons m rest ih =>
    obtain ⟨token, ref⟩ := m
    cases ref with
    | none => exact ih.cons_cons token
    | some i => exact ih.cons token

theorem Expr.namesOf_mentionsAll (es : List Expr) :
    namesOf (Expr.mentionsAll es) = es.flatMap fun e => namesOf e.mentions := by
  induction es with
  | nil => rfl
  | cons e rest ih => rw [Expr.mentionsAll, namesOf_append, ih, List.flatMap_cons]

theorem Routine.namesOf_mentionsAll (rs : List Routine) :
    namesOf (Routine.mentionsAll rs) = rs.flatMap fun r => namesOf r.mentions := by
  induction rs with
  | nil => rfl
  | cons r rest ih => rw [Routine.mentionsAll, namesOf_append, ih, List.flatMap_cons]

def Code.names (code : Code) : List Token := namesOf code.mentions

-- The names that a single piece of code declares.
def Spot.named : Spot → List Token
  | ⟨_, .stmt s⟩ => s.declares
  | ⟨_, .routine _ r⟩ => r.parameters
  | _ => []

theorem Spot.parts_names (S : Spot) :
    S.code.names.Perm (S.named ++ S.parts.flatMap fun part => part.code.names) := by
  obtain ⟨σ, code⟩ := S
  cases code with
  | expr e =>
    cases e with
    | call callee close arguments =>
      simp [Spot.named, Spot.parts, Expr.parts, Code.names, Code.mentions, Expr.mentions, Expr.namesOf_mentionsAll,
        List.flatMap_map]
    | _ => simp [Spot.named, Spot.parts, Expr.parts, Code.names, Code.mentions, Expr.mentions]
  | stmt s =>
    cases s with
    | classes name methods =>
      simp [Spot.named, Spot.parts, Stmt.parts, Stmt.declares, Code.names, Code.mentions, Stmt.mentions,
        Routine.namesOf_mentionsAll, List.flatMap_map]
    | var name initial | giveBack name initial =>
      cases initial <;> simp [Spot.named, Spot.parts, Stmt.parts, Stmt.declares, Code.names, Code.mentions, Stmt.mentions]
    | branch condition yes no =>
      cases no <;> simp [Spot.named, Spot.parts, Stmt.parts, Stmt.declares, Code.names, Code.mentions, Stmt.mentions]
    | _ => simp [Spot.named, Spot.parts, Stmt.parts, Stmt.declares, Code.names, Code.mentions, Stmt.mentions]
  | stmts ss =>
    cases ss <;> simp [Spot.named, Spot.parts, Code.names, Code.mentions, Stmt.mentionsAll]
  | routine kind r =>
    obtain ⟨head, parameters, body⟩ := r
    simp [Spot.named, Spot.parts, Code.names, Code.mentions, Routine.mentions, Routine.body, Routine.parameters]

-- What holds of some code as it does of its parts holds of the code everywhere inside it.
theorem Spot.induct {P : Spot → Prop} (step : ∀ S, (∀ T ∈ S.parts, P T) → P S) (S : Spot) : P S := by
  induction small : S.code.size using Nat.strongRecOn generalizing S with
  | _ size ih => exact step S fun T member => ih _ (small ▸ Spot.parts_smaller member) T rfl

theorem Spot.everywhere_names (S : Spot) : S.code.names.Perm (S.everywhere.flatMap Spot.named) := by
  induction S using Spot.induct with
  | step S ih =>
    rw [S.everywhere_flatMap]
    exact S.parts_names.trans (List.Perm.append_left _ (List.Perm.flatMap_left _ ih))

-- Pieces of code that have something of their own in common are the same.
theorem List.flatMap_single {collect : α → List β} {xs : List α} (single : (xs.flatMap collect).Nodup) {x y : α}
    (here : x ∈ xs) (there : y ∈ xs) {t : β} (first : t ∈ collect x) (second : t ∈ collect y) : x = y := by
  have each := (List.nodup_flatMap.mp single).2
  have symmetric : Std.Symm (Function.onFun List.Disjoint collect) :=
    ⟨fun _ _ apart _ first second => apart second first⟩
  by_contra differ
  exact each.forall here there differ first second

-- A name is declared in one place.
theorem Spot.named_unique {root S T : Spot} (single : root.code.names.Nodup) (here : root.Within S)
    (there : root.Within T) (first : t ∈ S.named) (second : t ∈ T.named) : S = T :=
  List.flatMap_single (root.everywhere_names.nodup_iff.mp single) (Spot.mem_everywhere.mpr here)
    (Spot.mem_everywhere.mpr there) first second

-- The names of the region that some code opens.
def Spot.opens : Spot → List Token
  | ⟨_, .stmt (.block body)⟩ => (Region.block body).declares
  | ⟨_, .routine _ r⟩ => (Region.routine r).declares
  | _ => []

theorem Spot.parts_declares (S : Spot) :
    (S.code.declares ++ S.opens).Sublist (S.named ++ S.parts.flatMap fun part => part.code.declares) := by
  obtain ⟨σ, code⟩ := S
  cases code with
  | expr e => exact List.nil_sublist _
  | stmt s =>
    cases s with
    | block body => simp [Code.declares, Stmt.declares, Spot.opens, Region.declares, Spot.named, Spot.parts, Stmt.parts]
    | _ => exact .append (.refl _) (List.nil_sublist _)
  | stmts ss => cases ss <;> simp [Code.declares, Spot.opens, Spot.named, Spot.parts]
  | routine kind r => simp [Code.declares, Spot.opens, Region.declares, Spot.named, Spot.parts]

theorem List.count_flatMap_le [BEq β] {f g : α → List β} {xs : List α} {t : β}
    (each : ∀ x ∈ xs, (f x).count t ≤ (g x).count t) : (xs.flatMap f).count t ≤ (xs.flatMap g).count t := by
  induction xs with
  | nil => exact Nat.le_refl _
  | cons x rest ih =>
    rw [List.flatMap_cons, List.flatMap_cons, List.count_append, List.count_append]
    exact Nat.add_le_add (each x List.mem_cons_self) (ih fun y later => each y (List.mem_cons_of_mem _ later))

-- Where pieces of code hold things back for the code around them, and take what their parts hold back: what is
-- taken everywhere inside some code comes from that code, and from a place of its own.
theorem Spot.everywhere_taken {all held : Code → List Token} {direct taken : Spot → List Token}
    (parts_all : ∀ S : Spot, (all S.code).Perm (direct S ++ S.parts.flatMap fun part => all part.code))
    (parts_held : ∀ S : Spot, (held S.code ++ taken S).Sublist (direct S ++ S.parts.flatMap fun part => held part.code))
    (t : Token) (S : Spot) : (held S.code ++ S.everywhere.flatMap taken).count t ≤ (all S.code).count t := by
  induction S using Spot.induct with
  | step S ih =>
    have below := List.count_flatMap_le ih
    have own := (parts_held S).count_le t
    rw [← (List.flatMap_append_perm S.parts _ _).count_eq, List.count_append] at below
    rw [List.count_append, List.count_append] at own
    rw [(parts_all S).count_eq, S.everywhere_flatMap, List.count_append, List.count_append, List.count_append]
    omega

-- Every region inside some code has its names from that code, and from a place of its own.
theorem Spot.everywhere_opens (t : Token) (S : Spot) :
    (S.code.declares ++ S.everywhere.flatMap Spot.opens).count t ≤ S.code.names.count t :=
  Spot.everywhere_taken Spot.parts_names Spot.parts_declares t S

theorem Spot.opens_unique {root S T : Spot} (single : root.code.names.Nodup) (here : root.Within S)
    (there : root.Within T) (first : t ∈ S.opens) (second : t ∈ T.opens) : S = T := by
  have each : (root.everywhere.flatMap Spot.opens).Nodup := by
    refine List.nodup_iff_count.mpr fun u => ?_
    have counted := root.everywhere_opens u
    rw [List.count_append] at counted
    exact Nat.le_trans (Nat.le_of_add_left_le counted) (List.nodup_iff_count.mp single u)
  exact List.flatMap_single each (Spot.mem_everywhere.mpr here) (Spot.mem_everywhere.mpr there) first second

end ScopeScript
