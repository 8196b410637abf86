import ScopeScript.Proofs.Scoping.Place

namespace ScopeScript

noncomputable def Code.size : Code → Nat
  | .expr e => sizeOf e
  | .stmt s => sizeOf s
  | .stmts ss => sizeOf ss
  | .routine _ r => sizeOf r

theorem Expr.parts_smaller {e : Expr} {part : Code} (member : part ∈ e.parts) :
    part.size < sizeOf e := by
  cases e with
  | call callee close arguments =>
    rcases List.mem_cons.mp member with rfl | later
    · simp +arith [Code.size]
    · obtain ⟨argument, inside, rfl⟩ := List.mem_map.mp later
      have smaller := List.sizeOf_lt_of_mem inside
      simp only [Code.size, Expr.call.sizeOf_spec]
      omega
  | binary left operator right | logical left operator right | set left name right =>
    rcases List.mem_cons.mp member with rfl | later
    · simp +arith [Code.size]
    · rw [List.mem_singleton.mp later]
      simp +arith [Code.size]
  | grouping inner | unary operator inner | lambda inner | get inner name | assign i name inner =>
    rw [List.mem_singleton.mp member]
    simp +arith [Code.size]
  -- Literals and names have no parts.
  | _ => cases member

theorem Stmt.parts_smaller {s : Stmt} {σ : Setting} {T : Spot} (member : T ∈ s.parts σ) :
    T.code.size < sizeOf s := by
  cases s with
  | classes name methods =>
    obtain ⟨r, inside, rfl⟩ := List.mem_map.mp member
    have smaller := List.sizeOf_lt_of_mem inside
    simp only [Code.size, Stmt.classes.sizeOf_spec]
    omega
  | expression value | print keyword value | block body | function routine =>
    rw [List.mem_singleton.mp member]
    simp +arith [Code.size]
  | var name initial | giveBack name initial =>
    cases initial with
    | none => cases member
    | some e =>
      rw [List.mem_singleton.mp member]
      simp +arith [Code.size]
  | loop condition body =>
    rcases List.mem_cons.mp member with rfl | later
    · simp +arith [Code.size]
    · rw [List.mem_singleton.mp later]
      simp +arith [Code.size]
  | branch condition yes no =>
    cases no with
    | none =>
      rcases List.mem_cons.mp member with rfl | later
      · simp +arith [Code.size]
      · rw [List.mem_singleton.mp later]
        simp +arith [Code.size]
    | some no =>
      rcases List.mem_cons.mp member with rfl | later
      · simp +arith [Code.size]
      · rcases List.mem_cons.mp later with rfl | last
        · simp +arith [Code.size]
        · rw [List.mem_singleton.mp last]
          simp +arith [Code.size]
  | leave keyword => cases member

theorem Spot.parts_smaller {S T : Spot} (member : T ∈ S.parts) : T.code.size < S.code.size := by
  obtain ⟨σ, code⟩ := S
  cases code with
  | expr e =>
    obtain ⟨part, inside, rfl⟩ := List.mem_map.mp member
    exact Expr.parts_smaller inside
  | stmt s => exact Stmt.parts_smaller member
  | stmts ss =>
    cases ss with
    | nil => cases member
    | cons s rest =>
      rcases List.mem_cons.mp member with rfl | later
      · simp +arith [Code.size]
      · rw [List.mem_singleton.mp later]
        simp +arith [Code.size]
  | routine kind r =>
    rw [List.mem_singleton.mp member]
    obtain ⟨head, parameters, body⟩ := r
    simp +arith [Code.size, Routine.body]

-- Some code and all code inside it, each in front of its own parts.
def Spot.everywhere (S : Spot) : List Spot :=
  S :: S.parts.attach.flatMap fun part => part.1.everywhere
termination_by S.code.size
decreasing_by exact Spot.parts_smaller part.2

theorem Spot.everywhere_eq (S : Spot) : S.everywhere = S :: S.parts.flatMap Spot.everywhere := by
  rw [Spot.everywhere]
  simp

theorem Spot.everywhere_flatMap (collect : Spot → List α) (S : Spot) : S.everywhere.flatMap collect =
    collect S ++ S.parts.flatMap fun part => part.everywhere.flatMap collect := by
  rw [S.everywhere_eq, List.flatMap_cons, List.flatMap_assoc]

theorem Spot.Within.inside {S T U : Spot} (outer : S.Within T) (inner : T.Within U) : S.Within U := by
  induction inner with
  | root => exact outer
  | part _ member ih => exact .part ih member

theorem Spot.mem_everywhere {S T : Spot} : T ∈ S.everywhere ↔ S.Within T := by
  constructor
  · intro member
    -- On the code, since the parts of a spot are smaller.
    induction small : S.code.size using Nat.strongRecOn generalizing S with
    | _ size ih =>
      rw [S.everywhere_eq, List.mem_cons, List.mem_flatMap] at member
      rcases member with rfl | ⟨part, here, inner⟩
      · exact .root
      · exact Spot.Within.inside (.part .root here) (ih _ (small ▸ Spot.parts_smaller here) inner rfl)
  · intro inside
    induction inside with
    | root =>
      rw [S.everywhere_eq]
      exact List.mem_cons_self
    | @part T U inside member ih =>
      have deeper : ∀ root : Spot, T ∈ root.everywhere → U ∈ root.everywhere := by
        intro root
        induction small : root.code.size using Nat.strongRecOn generalizing root with
        | _ size below =>
          rw [root.everywhere_eq, List.mem_cons, List.mem_cons, List.mem_flatMap, List.mem_flatMap]
          rintro (rfl | ⟨part, here, inner⟩)
          · exact .inr ⟨U, member, by rw [U.everywhere_eq]; exact List.mem_cons_self⟩
          · exact .inr ⟨part, here, below _ (small ▸ Spot.parts_smaller here) part rfl inner⟩
      exact deeper S ih

end ScopeScript
