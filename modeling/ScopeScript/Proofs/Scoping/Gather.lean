import ScopeScript.Proofs.Scoping.Single

namespace ScopeScript

-- What code and all code inside it has of its own, collected on a walk.
mutual

def Expr.gather (own : Code → List α) : Expr → List α
  | .literal value => own (.expr (.literal value))
  | .grouping inner => own (.expr (.grouping inner)) ++ inner.gather own
  | .unary operator operand => own (.expr (.unary operator operand)) ++ operand.gather own
  | .binary left operator right => own (.expr (.binary left operator right)) ++ (left.gather own ++ right.gather own)
  | .logical left operator right => own (.expr (.logical left operator right)) ++ (left.gather own ++ right.gather own)
  | .variable id name => own (.expr (.variable id name))
  | .assign id name value => own (.expr (.assign id name value)) ++ value.gather own
  | .call callee close arguments =>
    own (.expr (.call callee close arguments)) ++ (callee.gather own ++ Expr.gatherAll own arguments)
  | .lambda routine => own (.expr (.lambda routine)) ++ routine.gather own .lambda
  | .get object name => own (.expr (.get object name)) ++ object.gather own
  | .set object name value => own (.expr (.set object name value)) ++ (object.gather own ++ value.gather own)
  | .this id keyword => own (.expr (.this id keyword))

def Expr.gatherAll (own : Code → List α) : List Expr → List α
  | [] => []
  | e :: rest => e.gather own ++ Expr.gatherAll own rest

def Stmt.gather (own : Code → List α) : Stmt → List α
  | .expression value => own (.stmt (.expression value)) ++ value.gather own
  | .print keyword value => own (.stmt (.print keyword value)) ++ value.gather own
  | .var name none => own (.stmt (.var name none))
  | .var name (some initial) => own (.stmt (.var name (some initial))) ++ initial.gather own
  | .block body => own (.stmt (.block body)) ++ Stmt.gatherAll own body
  | .branch condition yes none =>
    own (.stmt (.branch condition yes none)) ++ (condition.gather own ++ yes.gather own)
  | .branch condition yes (some no) =>
    own (.stmt (.branch condition yes (some no))) ++ (condition.gather own ++ (yes.gather own ++ no.gather own))
  | .loop condition body => own (.stmt (.loop condition body)) ++ (condition.gather own ++ body.gather own)
  | .leave keyword => own (.stmt (.leave keyword))
  | .function routine => own (.stmt (.function routine)) ++ routine.gather own .function
  | .giveBack keyword none => own (.stmt (.giveBack keyword none))
  | .giveBack keyword (some value) => own (.stmt (.giveBack keyword (some value))) ++ value.gather own
  | .classes name methods => own (.stmt (.classes name methods)) ++ Routine.gatherAll own methods

def Stmt.gatherAll (own : Code → List α) : List Stmt → List α
  | [] => own (.stmts [])
  | s :: rest => own (.stmts (s :: rest)) ++ (s.gather own ++ Stmt.gatherAll own rest)

def Routine.gather (own : Code → List α) (kind : BodyKind) : Routine → List α
  | .mk head parameters body => own (.routine kind (.mk head parameters body)) ++ Stmt.gatherAll own body

def Routine.gatherAll (own : Code → List α) : List Routine → List α
  | [] => []
  | r :: rest => r.gather own r.methodKind ++ Routine.gatherAll own rest

end

def Code.gather (own : Code → List α) : Code → List α
  | .expr e => e.gather own
  | .stmt s => s.gather own
  | .stmts ss => Stmt.gatherAll own ss
  | .routine kind r => r.gather own kind

variable (own : Code → List α)

theorem Expr.gatherAll_eq (es : List Expr) : Expr.gatherAll own es = es.flatMap fun e => e.gather own := by
  induction es with
  | nil => rfl
  | cons e rest ih => rw [Expr.gatherAll, ih, List.flatMap_cons]

theorem Routine.gatherAll_eq (rs : List Routine) :
    Routine.gatherAll own rs = rs.flatMap fun r => r.gather own r.methodKind := by
  induction rs with
  | nil => rfl
  | cons r rest ih => rw [Routine.gatherAll, ih, List.flatMap_cons]

theorem Spot.parts_gather (S : Spot) :
    S.code.gather own = own S.code ++ S.parts.flatMap fun part => part.code.gather own := by
  obtain ⟨σ, code⟩ := S
  cases code with
  | expr e =>
    cases e with
    | call callee close arguments =>
      simp [Spot.parts, Expr.parts, Code.gather, Expr.gather, Expr.gatherAll_eq, List.flatMap_map]
    | _ => simp [Spot.parts, Expr.parts, Code.gather, Expr.gather]
  | stmt s =>
    cases s with
    | classes name methods =>
      simp [Spot.parts, Stmt.parts, Code.gather, Stmt.gather, Routine.gatherAll_eq, List.flatMap_map]
    | var name initial | giveBack name initial =>
      cases initial <;> simp [Spot.parts, Stmt.parts, Code.gather, Stmt.gather]
    | branch condition yes no => cases no <;> simp [Spot.parts, Stmt.parts, Code.gather, Stmt.gather]
    | _ => simp [Spot.parts, Stmt.parts, Code.gather, Stmt.gather]
  | stmts ss => cases ss <;> simp [Spot.parts, Code.gather, Stmt.gatherAll]
  | routine kind r =>
    obtain ⟨head, parameters, body⟩ := r
    simp [Spot.parts, Code.gather, Routine.gather, Routine.body]

theorem Spot.everywhere_gather (S : Spot) : S.code.gather own = S.everywhere.flatMap fun T => own T.code := by
  induction S using Spot.induct with
  | step S ih =>
    rw [S.everywhere_flatMap, S.parts_gather]
    exact congrArg _ (List.flatMap_congr ih)

end ScopeScript
