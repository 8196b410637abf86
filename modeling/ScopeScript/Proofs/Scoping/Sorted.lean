import Mathlib.Data.List.Flatten
import ScopeScript.Proofs.Grammar.Single
import ScopeScript.Proofs.Scoping.Breach
import ScopeScript.Proofs.Scoping.Turn

namespace ScopeScript

theorem repeated_sublist (before names : List Token) : (repeated before names).Sublist names := by
  induction names generalizing before with
  | nil => exact .slnil
  | cons t rest ih =>
    unfold repeated
    split
    · exact (ih _).cons_cons t
    · exact (ih _).cons t

theorem StaticFault.ofRepeated_tokens (names : List Token) : (names.map StaticFault.ofRepeated).map StaticFault.token = names := by
  rw [List.map_map]
  exact List.map_id _

-- A piece of code breaks rules at tokens of its own, in their order.
theorem Spot.breaches_targets (S : Spot) : (S.breaches.map StaticFault.token).Sublist S.code.targets := by
  obtain ⟨σ, code⟩ := S
  cases code with
  | expr e =>
    cases e with
    | this i keyword =>
      unfold Spot.breaches Expr.breaches
      dsimp only
      split <;> simp [Code.targets]
    | literal | grouping | unary | binary | logical | assign | call | lambda | get | set => exact .slnil
    | _ i name =>
      unfold Spot.breaches Expr.breaches
      dsimp only
      split <;> simp [Code.targets]
  | stmt s =>
    cases s with
    | leave keyword =>
      unfold Spot.breaches Stmt.breaches
      dsimp only
      split <;> simp [Code.targets]
    | giveBack keyword value =>
      cases body : σ.body <;> cases value <;> simp [Spot.breaches, Stmt.breaches, Code.targets, body]
    | _ =>
      unfold Spot.breaches Stmt.breaches
      dsimp only
      rw [StaticFault.ofRepeated_tokens]
      exact repeated_sublist _ _
  | stmts ss => exact .slnil
  | routine kind r =>
    unfold Spot.breaches
    dsimp only
    rw [StaticFault.ofRepeated_tokens]
    exact repeated_sublist _ _

theorem Spot.findings_targets (S : Spot) : (S.findings.map StaticFault.token).Sublist (S.code.gather Code.targets) := by
  rw [S.everywhere_gather, findings, List.map_flatMap]
  exact .flatMap_right _ fun T _ => T.breaches_targets

theorem Spot.Within.findings {root S : Spot} (inside : root.Within S) : S.findings.Sublist root.findings := by
  induction inside with
  | root => exact .refl _
  | @part S T inside member ih =>
    refine List.Sublist.trans ?_ ih
    rw [S.findings_eq]
    refine List.Sublist.trans ?_ (List.sublist_append_right _ _)
    exact List.sublist_flatten_of_mem (List.mem_map_of_mem member)

-- With tokens of their own, what is found at a token of some code is found in that code.
theorem Spot.Within.found {root S : Spot} (single : (root.code.gather Code.targets).Nodup) (inside : root.Within S)
    {f : StaticFault} (found : f ∈ root.findings) (target : f.token ∈ S.code.gather Code.targets) : f ∈ S.findings := by
  rw [Spot.everywhere_gather] at single target
  obtain ⟨T, here, broken⟩ := List.mem_flatMap.mp found
  obtain ⟨U, there, own⟩ := List.mem_flatMap.mp target
  have around : U ∈ root.everywhere := Spot.mem_everywhere.mpr (inside.inside (Spot.mem_everywhere.mp there))
  have known : f.token ∈ T.code.targets := T.breaches_targets.subset (List.mem_map_of_mem broken)
  have same := List.flatMap_single single here around known own
  exact List.mem_flatMap.mpr ⟨U, there, same ▸ broken⟩

-- Where body and step of a loop stand that ends each turn with an expression.
inductive Spot.Turns : Spot → Spot → Spot → Prop where
  | turns {σ τ : Setting} {condition step : Expr} {body : Stmt}
      (inner : τ = ((σ.nest (.loop condition (.block [body, .expression step]))).nest
        (.block [body, .expression step])).enter (.block [body, .expression step])) :
      Turns ⟨σ, .stmt (.loop condition (.block [body, .expression step]))⟩ ⟨τ, .stmt body⟩
        ⟨τ.declare body.declares, .expr step⟩

theorem Spot.turn_turns {S : Spot} {body : Stmt} {step : Expr} (turned : (body, step) ∈ S.code.turn) :
    ∃ τ τ', S.Turns ⟨τ, .stmt body⟩ ⟨τ', .expr step⟩ := by
  obtain ⟨σ, code⟩ := S
  dsimp only at turned
  fun_cases Code.turn code with
  | case1 condition first last =>
    cases List.mem_singleton.mp turned
    exact ⟨_, _, .turns rfl⟩
  | case2 other =>
    rw [Code.turn.eq_def] at turned
    simp at turned

-- Both are inside the loop, and what is found in the body comes first.
theorem Spot.Turns.laid {S body step : Spot} (turns : S.Turns body step) :
    S.Within body ∧ S.Within step ∧ (body.findings ++ step.findings).Sublist S.findings := by
  cases turns with
  | @turns σ τ condition step body inner =>
    have inside : Spot.Within ⟨σ, .stmt (.loop condition (.block [body, .expression step]))⟩
        ⟨τ, .stmts [body, .expression step]⟩ :=
      .part (.part .root (List.mem_cons_of_mem _ List.mem_cons_self)) (inner ▸ List.mem_cons_self)
    have last : Spot.Within ⟨τ.declare body.declares, .stmts [.expression step]⟩ ⟨τ.declare body.declares, .expr step⟩ :=
      .part (.part .root List.mem_cons_self) List.mem_cons_self
    refine ⟨.part inside List.mem_cons_self,
      (Spot.Within.part inside (List.mem_cons_of_mem _ List.mem_cons_self)).inside last, .trans ?_ inside.findings⟩
    rw [Spot.findings_eq ⟨τ, .stmts _⟩]
    simpa [Spot.breaches, Spot.parts] using last.findings

-- Faults that are sorted but where a loop has one in its body and one in a step that is written ahead.
theorem Spot.findings_sorted_iff (root : Spot)
    (walked : ∀ back, Across back (root.code.gather Code.turn) →
      (root.code.gather Code.targets).Pairwise fun t u => t.Earlier u ∨ back t u) :
    root.findings.Pairwise (fun f g => ¬ g.token.Earlier f.token) ↔
      ∀ S body step, root.Within S → S.Turns body step →
        ∀ f ∈ body.findings, ∀ g ∈ step.findings, ¬ g.token.Earlier f.token := by
  constructor
  · intro sorted S body step inside turns
    exact (List.pairwise_append.mp (sorted.sublist (turns.laid.2.2.trans inside.findings))).2.2
  · intro kept
    -- A step that is written ahead has other tokens than the body.
    have single : (root.code.gather Code.targets).Nodup := by
      refine (walked (· ≠ ·) fun _ _ t _ u _ ahead same => t.irrefl_earlier (same ▸ ahead)).imp fun {t u} apart => ?_
      rintro rfl
      exact apart.elim t.irrefl_earlier (· rfl)
    have ordered := walked (fun t u => ∀ f ∈ root.findings, ∀ g ∈ root.findings, f.token = t → g.token = u → ¬ u.Earlier t) ?_
    · have found := List.pairwise_map.mp (ordered.sublist root.findings_targets)
      refine found.imp_of_mem fun {f g} here there => ?_
      rintro (before | kept)
      · exact before.asymm
      · exact kept f here g there rfl rfl
    · rintro ⟨body, step⟩ member t inBody u inStep ahead f here g there rfl rfl
      rw [root.everywhere_gather] at member
      obtain ⟨S, around, turned⟩ := List.mem_flatMap.mp member
      obtain ⟨τ, τ', turns⟩ := Spot.turn_turns turned
      have inside := Spot.mem_everywhere.mp around
      obtain ⟨inner, last, -⟩ := turns.laid
      exact kept S _ _ inside turns f ((inside.inside inner).found single here inBody) g
        ((inside.inside last).found single there inStep)

end ScopeScript
