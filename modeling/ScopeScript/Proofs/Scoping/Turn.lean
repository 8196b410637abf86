import ScopeScript.Proofs.Scoping.Gather
import ScopeScript.Proofs.Grammar.Order

namespace ScopeScript

-- The tokens of its own that a fault in some code can point at.
def Code.targets : Code → List Token
  | .expr (.variable _ name) => [name]
  | .expr (.this _ keyword) => [keyword]
  | .expr _ => []
  | .stmt (.leave keyword) => [keyword]
  | .stmt (.giveBack keyword _) => [keyword]
  | .stmt s => s.declares
  | .stmts _ => []
  | .routine _ r => r.parameters

-- Body and step of a loop that ends each turn with an expression.
def Code.turn : Code → List (Stmt × Expr)
  | .stmt (.loop _ (.block [body, .expression step])) => [(body, step)]
  | _ => []

-- A relation leads from the bodies of loops back to steps that are written ahead of them.
def Across (back : Token → Token → Prop) (turns : List (Stmt × Expr)) : Prop :=
  ∀ turn ∈ turns, ∀ t ∈ turn.1.gather Code.targets, ∀ u ∈ turn.2.gather Code.targets, u.Earlier t → back t u

-- Tokens from a piece of source, met in its order but for those that lead back.
structure Walks (back : Token → Token → Prop) (turns : List (Stmt × Expr)) (targets w : List Token) : Prop where
  within : ∀ t ∈ targets, t ∈ w
  ordered : w.Pairwise Token.Earlier → Across back turns → targets.Pairwise fun t u => t.Earlier u ∨ back t u

namespace Walks

variable {back : Token → Token → Prop} {turns others : List (Stmt × Expr)} {xs ys v w : List Token} {t : Token}

theorem none : Walks back turns [] w := ⟨nofun, fun _ _ => .nil⟩

theorem skip (h : Walks back turns xs w) : Walks back turns xs (t :: w) where
  within u member := List.mem_cons_of_mem _ (h.within u member)
  ordered sorted := h.ordered (List.pairwise_cons.mp sorted).2

theorem first (h : Walks back turns xs w) : Walks back turns (t :: xs) (t :: w) where
  within := List.forall_mem_cons.mpr ⟨List.mem_cons_self, h.skip.within⟩
  ordered sorted across := by
    obtain ⟨ahead, sorted⟩ := List.pairwise_cons.mp sorted
    exact .cons (fun u member => .inl (ahead u (h.within u member))) (h.ordered sorted across)

theorem append (h : Walks back turns xs v) (later : Walks back others ys w) :
    Walks back (turns ++ others) (xs ++ ys) (v ++ w) where
  within := List.forall_mem_append.mpr ⟨fun u member => List.mem_append_left _ (h.within u member),
    fun u member => List.mem_append_right _ (later.within u member)⟩
  ordered sorted across := by
    obtain ⟨first, second, apart⟩ := List.pairwise_append.mp sorted
    obtain ⟨here, there⟩ := List.forall_mem_append.mp across
    refine List.pairwise_append.mpr ⟨h.ordered first here, later.ordered second there, fun a inFirst b inSecond => ?_⟩
    exact .inl (apart a (h.within a inFirst) b (later.within b inSecond))

theorem ended (h : Walks back turns xs w) : Walks back turns xs (w ++ [t]) where
  within u member := List.mem_append_left _ (h.within u member)
  ordered sorted := h.ordered (List.pairwise_append.mp sorted).1

theorem behind (h : Walks back turns xs w) : Walks back turns xs (v ++ w) where
  within u member := List.mem_append_right _ (h.within u member)
  ordered sorted := h.ordered (List.pairwise_append.mp sorted).2.1

theorem rest (h : Walks back turns (t :: xs) w) : Walks back turns xs w where
  within := (List.forall_mem_cons.mp h.within).2
  ordered sorted across := (List.pairwise_cons.mp (h.ordered sorted across)).2

theorem among (h : Walks back turns xs w) (fewer : turns ⊆ others) : Walks back others xs w where
  within := h.within
  ordered sorted across := h.ordered sorted fun turn member => across turn (fewer member)

end Walks

def Code.Walks (back : Token → Token → Prop) (code : Code) (w : List Token) : Prop :=
  ScopeScript.Walks back (code.gather Code.turn) (code.gather Code.targets) w

-- The step of a loop is walked behind the body that the source has behind the step.
theorem Walks.turn {back : Token → Token → Prop} {body : Stmt} {step : Expr} {w x : List Token}
    (last : (Code.expr step).Walks back w) (inner : (Code.stmt body).Walks back x) :
    Walks back ((body, step) :: (body.gather Code.turn ++ step.gather Code.turn))
      (body.gather Code.targets ++ step.gather Code.targets) (w ++ x) where
  within := List.forall_mem_append.mpr ⟨fun t member => List.mem_append_right _ (inner.within t member),
    fun t member => List.mem_append_left _ (last.within t member)⟩
  ordered sorted across := by
    obtain ⟨sortedLast, sortedInner, apart⟩ := List.pairwise_append.mp sorted
    obtain ⟨across, inside⟩ := List.forall_mem_cons.mp across
    obtain ⟨here, there⟩ := List.forall_mem_append.mp inside
    refine List.pairwise_append.mpr ⟨inner.ordered sortedInner here, last.ordered sortedLast there, ?_⟩
    intro t inBody u inStep
    exact .inr (across t inBody u inStep (apart u (last.within u inStep) t (inner.within t inBody)))

-- What the tokens of a phrase say about a walk over its tree. A repetition goes on behind the tokens of the tree
-- before it.
def Phrase.Walks (back : Token → Token → Prop) : Phrase → List Token → Prop
  | .declarations ss, w => (Code.stmts ss).Walks back w
  | .declaration s, w => (Code.stmt s).Walks back w
  | .functions rs, w => ScopeScript.Walks back (Routine.gatherAll Code.turn rs) (Routine.gatherAll Code.targets rs) w
  | .function r, w => ∀ kind, ScopeScript.Walks back (r.gather Code.turn kind) (r.head :: r.gather Code.targets kind) w
  | .routine r, w => ∀ kind, (Code.routine kind r).Walks back w
  | .parameters ps, w => ScopeScript.Walks back [] ps w
  | .names ps, w => ScopeScript.Walks back [] ps w
  | .variable s, w => (Code.stmt s).Walks back w
  | .statement _ s, w => (Code.stmt s).Walks back w
  | .sentence s, w => (Code.stmt s).Walks back w
  | .firstClause s, w => ∀ first ∈ s, (Code.stmt first).Walks back w
  | .optional e, w => ∀ value ∈ e, (Code.expr value).Walks back w
  | .expression e, w => (Code.expr e).Walks back w
  | .rank _ e, w => (Code.expr e).Walks back w
  | .further _ before after, w => ∀ v, (Code.expr before).Walks back v → (Code.expr after).Walks back (v ++ w)
  | .unary e, w => (Code.expr e).Walks back w
  | .call e, w => (Code.expr e).Walks back w
  | .suffixes before after, w => ∀ v, (Code.expr before).Walks back v → (Code.expr after).Walks back (v ++ w)
  | .values es, w => ScopeScript.Walks back (Expr.gatherAll Code.turn es) (Expr.gatherAll Code.targets es) w
  | .expressions es, w => ScopeScript.Walks back (Expr.gatherAll Code.turn es) (Expr.gatherAll Code.targets es) w
  | .primary e, w => (Code.expr e).Walks back w

theorem Phrase.walks_operand (back : Token → Token → Prop) (k : Rank) (e : Expr) (w : List Token) :
    (Phrase.operand k e).Walks back w ↔ (Code.expr e).Walks back w := by
  cases k <;> rfl

theorem Rank.node_walks {back : Token → Token → Prop} {v w : List Token} (k : Rank) (operator : Token) {left right : Expr}
    (first : (Code.expr left).Walks back v) (next : (Code.expr right).Walks back w) :
    (Code.expr (k.node left operator right)).Walks back (v ++ operator :: w) := by
  cases k <;> exact first.append next.skip

theorem pair_walks {back : Token → Token → Prop} {v w : List Token} {s t : Stmt} (first : (Code.stmt s).Walks back v)
    (second : (Code.stmt t).Walks back w) : (Code.stmt (.block [s, t])).Walks back (v ++ w) := by
  have joined := first.append second
  simpa [Code.Walks, Code.gather, Stmt.gather, Stmt.gatherAll, Code.targets, Code.turn, Stmt.declares] using joined

theorem stepped_walks {back : Token → Token → Prop} {v w x : List Token} {condition step : Expr} {body : Stmt}
    (test : (Code.expr condition).Walks back v) (last : (Code.expr step).Walks back w)
    (inner : (Code.stmt body).Walks back x) :
    (Code.stmt (.loop condition (.block [body, .expression step]))).Walks back (v ++ (w ++ x)) := by
  have targets : Stmt.gather Code.targets (.loop condition (.block [body, .expression step])) =
      condition.gather Code.targets ++ (body.gather Code.targets ++ step.gather Code.targets) := by
    simp [Stmt.gather, Stmt.gatherAll, Code.targets, Stmt.declares]
  show Walks back (Stmt.gather Code.turn _) (Stmt.gather Code.targets _) _
  rw [targets]
  refine (test.append (Walks.turn last inner)).among ?_
  simp [Stmt.gather, Stmt.gatherAll, Code.turn, Code.gather]

theorem spelledLoop_walks {back : Token → Token → Prop} {u v w x : List Token} {semicolon close : Token}
    {initial : Option Stmt} {condition step : Option Expr} {body : Stmt}
    (first : (Phrase.firstClause initial).Walks back u) (test : (Phrase.optional condition).Walks back v)
    (last : (Phrase.optional step).Walks back w) (inner : (Code.stmt body).Walks back x) :
    (Code.stmt (spelledLoop initial condition step body)).Walks back
      (u ++ (v ++ semicolon :: (w ++ close :: x))) := by
  have asked : (Code.expr (condition.getD (.literal .true))).Walks back v := by
    cases condition with
    | none => exact .none
    | some e => exact test e rfl
  have looped : (Code.stmt (spelledLoop none condition step body)).Walks back (v ++ semicolon :: (w ++ close :: x)) := by
    cases step with
    | none =>
      have turned : Walks back _ _ (v ++ semicolon :: (w ++ close :: x)) := asked.append inner.skip.behind.skip
      exact turned.among (List.subset_append_right _ _)
    | some e => exact stepped_walks asked (last e rfl).skip inner.skip
  cases initial with
  | none => exact looped.behind
  | some s =>
    cases step <;> exact pair_walks (first s rfl) looped

theorem Derives.walks (back : Token → Token → Prop) (h : Derives p w) : p.Walks back w := by
  induction h with
  | noDeclarations => exact .none
  | declarations first others ihFirst ihOthers => exact ihFirst.append ihOthers
  | classes opening named left inner right ih => exact .skip (.first (.skip ih.ended))
  | functionDeclaration opening inner ih => exact (ih .function).skip
  | variableDeclaration opening inner ih => exact ih.skip
  | statement inner ih => exact ih
  | noFunctions => exact .none
  | functions first others ihFirst ihOthers => exact (ihFirst _).rest.append ihOthers
  | function named inner ih => exact fun kind => (ih kind).first
  | routine left names right start inner stop ihNames ihInner =>
    exact fun kind => .skip (ihNames.append (.skip (.skip ihInner.ended)))
  | noParameters => exact .none
  | parameters inner few ih => exact ih
  | lastName named => exact .first .none
  | names named comma others ih => exact .first ih.skip
  | plainVariable named stop => exact .first .none
  | filledVariable named equal initial stop ih => exact .first (.skip ih.ended)
  | sentenceStatement inner ih => exact ih
  | forStatement opening left first test stop last right inner ihFirst ihTest ihLast ihInner =>
    exact .skip (.skip (spelledLoop_walks ihFirst ihTest ihLast ihInner))
  | ifStatement opening left test right inner ihTest ihInner => exact .skip (.skip (ihTest.append ihInner.skip))
  | ifElseStatement opening left test right inner middle other ihTest ihInner ihOther =>
    exact .skip (.skip (ihTest.append (.skip (ihInner.append ihOther.skip))))
  | printStatement opening inner stop ih => exact ih.ended.skip
  | @returnStatement e w _ _ opening inner stop ih =>
    cases e with
    | none => exact .first .none
    | some e => exact .first (ih e rfl).ended
  | whileStatement opening left test right inner ihTest ihInner =>
    refine .skip (.skip ((ihTest.append ihInner.skip).among ?_))
    exact List.subset_append_right _ _
  | breakStatement opening stop => exact .first .none
  | blockStatement start inner stop ih => exact ih.ended.skip
  | sentence inner stop ih => exact ih.ended
  | noClause stop => nofun
  | variableClause opening inner ih => exact fun s same => (Option.some.inj same ▸ ih).skip
  | sentenceClause inner ih => exact fun s same => Option.some.inj same ▸ ih
  | absent => nofun
  | present inner ih => exact fun e same => Option.some.inj same ▸ ih
  | assignVariable named equal value ih => exact ih.skip.skip
  | assignProperty target point named equal value ihTarget ihValue => exact ihTarget.append ihValue.skip.skip.skip
  | expression inner ih => exact ih
  | rank first others ihFirst ihOthers => exact ihOthers _ ((Phrase.walks_operand ..).mp ihFirst)
  | noFurther => exact fun v before => by rwa [List.append_nil]
  | further spelled next others ihNext ihOthers =>
    intro v before
    have joined := ihOthers _ (Rank.node_walks _ _ before ((Phrase.walks_operand ..).mp ihNext))
    rwa [List.append_assoc] at joined
  | unary spelled inner ih => exact ih.skip
  | plainUnary inner ih => exact ih
  | call first others ihFirst ihOthers => exact ihOthers _ ihFirst
  | noSuffixes => exact fun v before => by rwa [List.append_nil]
  | callSuffix left inner right others ihInner ihOthers =>
    intro v before
    simpa using ihOthers _ (before.append ihInner.ended.skip)
  | getSuffix point named others ih =>
    intro v before
    simpa using ih _ before.ended.ended
  | noValues => exact .none
  | values inner few ih => exact ih
  | lastExpression inner ih =>
    simpa [Phrase.Walks, Code.Walks, Code.gather, Expr.gatherAll] using ih
  | expressions inner comma others ihInner ihOthers => exact ihInner.append ihOthers.skip
  | number spelled | string spelled | true spelled | false spelled | nil spelled => exact .none
  | this spelled => exact .first .none
  | name named => exact .first .none
  | grouping left inner right ih => exact ih.ended.skip
  | lambda opening inner ih => exact (ih .lambda).skip

end ScopeScript
