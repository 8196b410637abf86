import ScopeScript.Proofs.Scoping.Locate
import ScopeScript.Proofs.Scoping.Place
import ScopeScript.Proofs.Scoping.Rename

namespace ScopeScript

namespace Code

def rename (ρ : Renaming) : Code → Code
  | .expr e => .expr (e.rename ρ)
  | .stmt s => .stmt (s.rename ρ)
  | .stmts ss => .stmts (Stmt.renameAll ρ ss)
  | .routine kind r => .routine kind (r.rename ρ)

def locate (place : Position → Position) (visible : Visible) : Code → Code
  | .expr e => .expr (e.locate place visible)
  | .stmt s => .stmt (s.locate place visible)
  | .stmts ss => .stmts (Stmt.locateAll place ss visible)
  | .routine kind r => .routine kind (r.locate place visible)

theorem rename_rename (ρ τ : Renaming) (code : Code) : (code.rename ρ).rename τ = code.rename (ρ.andThen τ) := by
  cases code with
  | expr e => exact congrArg expr (e.rename_rename ρ τ)
  | stmt s => exact congrArg stmt (s.rename_rename ρ τ)
  | stmts ss => exact congrArg stmts (Stmt.renameAll_renameAll ρ τ ss)
  | routine kind r => exact congrArg (routine kind) (r.rename_rename ρ τ)

theorem rename_fixed {f : RefId → RefId} (code : Code) (same : ∀ i ∈ refsOf code.mentions, f i = i) :
    code.rename ⟨f, id⟩ = code := by
  cases code with
  | expr e => exact congrArg expr (e.rename_fixed same)
  | stmt s => exact congrArg stmt (s.rename_fixed same)
  | stmts ss => exact congrArg stmts (Stmt.renameAll_fixed ss same)
  | routine kind r => exact congrArg (routine kind) (r.rename_fixed same)

theorem locate_rename (ρ : Renaming) (place : Position → Position) (visible : Visible) (code : Code) :
    (code.rename ρ).locate place visible = code.locate (place ∘ ρ.place) visible := by
  cases code with
  | expr e => exact congrArg expr (e.locate_rename ρ place visible)
  | stmt s => exact congrArg stmt (s.locate_rename ρ place visible)
  | stmts ss => exact congrArg stmts (Stmt.locateAll_rename ρ place ss visible)
  | routine kind r => exact congrArg (routine kind) (r.locate_rename ρ place visible)

theorem rename_code {lies : Spot → Prop} {depths : Depths} (lawful : Lawful lies depths) {σ : Setting} {code : Code}
    (inside : lies ⟨σ, code⟩) (place : Position → Position) :
    code.rename ⟨depths.code, place⟩ = code.locate place σ.visible := by
  cases code with
  | expr e => exact congrArg expr (e.rename_code place lawful inside)
  | stmt s => exact congrArg stmt (s.rename_code place lawful inside)
  | stmts ss => exact congrArg stmts (Stmt.renameAll_code place lawful ss inside)
  | routine kind r => exact congrArg (routine kind) (r.rename_code place lawful kind inside)

theorem resolve_rename {ρ : Renaming} (orderly : ρ.Orderly) (prior : Walk) (code : Code) (w : Walk) :
    (code.rename ρ).resolve (w.rename ρ prior) = (code.resolve w).rename ρ prior := by
  cases code with
  | expr e => exact e.resolve_rename prior orderly w
  | stmt s => exact s.resolve_rename prior orderly w
  | stmts ss => exact Stmt.resolveAll_rename prior orderly ss w
  | routine kind r => exact r.resolve_rename prior orderly kind w

variable {code other : Code}

-- What a walk finds does not depend on the ids.
theorem resolve_nameless (same : code.rename .nameless = other.rename .nameless) :
    (code.resolve .start).faults = (other.resolve .start).faults ∧
      (code.resolve .start).warnings = (other.resolve .start).warnings := by
  have blank : Walk.start.rename .nameless .start = .start := by simp [Walk.rename, Walk.start]
  have walked : ∀ c : Code, (c.rename .nameless).resolve .start = (c.resolve .start).rename .nameless .start := by
    intro c
    rw [← resolve_rename Renaming.nameless_orderly, blank]
  have found := (other.resolve .start).rename_nameless
  rw [← walked, ← same, walked, (Walk.rename_nameless _).1, (Walk.rename_nameless _).2] at found
  exact found

theorem locate_nameless (same : code.rename .nameless = other.rename .nameless) (place : Position → Position)
    (visible : Visible) : code.locate place visible = other.locate place visible := by
  have one := code.locate_rename .nameless place visible
  rw [same, locate_rename] at one
  exact one.symm

end Code

section

variable {ss ts : List Stmt} (same : Stmt.renameAll .nameless ss = Stmt.renameAll .nameless ts)

include same

theorem Stmt.resolveAll_nameless : (Stmt.resolveAll ss .start).faults = (Stmt.resolveAll ts .start).faults ∧
    (Stmt.resolveAll ss .start).warnings = (Stmt.resolveAll ts .start).warnings := by
  have codes : (Code.stmts ss).rename .nameless = (Code.stmts ts).rename .nameless := congrArg Code.stmts same
  exact Code.resolve_nameless codes

theorem Stmt.locateAll_nameless (place : Position → Position) :
    Stmt.locateAll place ss [] = Stmt.locateAll place ts [] := by
  have codes : (Code.stmts ss).rename .nameless = (Code.stmts ts).rename .nameless := congrArg Code.stmts same
  exact Code.stmts.inj (Code.locate_nameless codes place [])

end

end ScopeScript
