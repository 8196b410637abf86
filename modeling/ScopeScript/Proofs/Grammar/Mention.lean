import ScopeScript.Grammar.Tree

namespace ScopeScript

-- A name that a tree declares or refers to; only references have ids.
structure Mention where
  token : Token
  ref : Option RefId

-- In the order in which a walk over the tree meets them.
mutual

def Expr.mentions : Expr → List Mention
  | .literal _ => []
  | .grouping inner => inner.mentions
  | .unary _ operand => operand.mentions
  | .binary left _ right => left.mentions ++ right.mentions
  | .logical left _ right => left.mentions ++ right.mentions
  | .variable id name => [⟨name, some id⟩]
  | .assign id name value => value.mentions ++ [⟨name, some id⟩]
  | .call callee _ arguments => callee.mentions ++ Expr.mentionsAll arguments
  | .lambda routine => routine.mentions
  | .get object _ => object.mentions
  | .set object _ value => object.mentions ++ value.mentions
  | .this id keyword => [⟨keyword, some id⟩]

def Expr.mentionsAll : List Expr → List Mention
  | [] => []
  | e :: rest => e.mentions ++ Expr.mentionsAll rest

def Stmt.mentions : Stmt → List Mention
  | .expression value => value.mentions
  | .print _ value => value.mentions
  | .var name none => [⟨name, none⟩]
  | .var name (some initial) => ⟨name, none⟩ :: initial.mentions
  | .block body => Stmt.mentionsAll body
  | .branch condition yes none => condition.mentions ++ yes.mentions
  | .branch condition yes (some no) => condition.mentions ++ (yes.mentions ++ no.mentions)
  | .loop condition body => condition.mentions ++ body.mentions
  | .leave _ => []
  | .function routine => ⟨routine.head, none⟩ :: routine.mentions
  | .giveBack _ none => []
  | .giveBack _ (some value) => value.mentions
  | .classes name methods => ⟨name, none⟩ :: Routine.mentionsAll methods

def Stmt.mentionsAll : List Stmt → List Mention
  | [] => []
  | s :: rest => s.mentions ++ Stmt.mentionsAll rest

def Routine.mentions : Routine → List Mention
  | .mk _ parameters body => parameters.map (⟨·, none⟩) ++ Stmt.mentionsAll body

def Routine.mentionsAll : List Routine → List Mention
  | [] => []
  | r :: rest => r.mentions ++ Routine.mentionsAll rest

end

-- The names a statement adds to the scope it stands in.
def Stmt.declares : Stmt → List Token
  | .var name _ => [name]
  | .function routine => [routine.head]
  | .classes name _ => [name]
  | _ => []

def tokensOf (mentions : List Mention) : List Token := mentions.map (·.token)

def refsOf (mentions : List Mention) : List RefId := mentions.filterMap (·.ref)

@[simp] theorem tokensOf_nil : tokensOf [] = [] := rfl

@[simp] theorem tokensOf_cons (m : Mention) (rest : List Mention) :
    tokensOf (m :: rest) = m.token :: tokensOf rest := rfl

@[simp] theorem tokensOf_append (a b : List Mention) : tokensOf (a ++ b) = tokensOf a ++ tokensOf b :=
  List.map_append

@[simp] theorem tokensOf_declared (names : List Token) :
    tokensOf (names.map (⟨·, none⟩)) = names := by
  rw [tokensOf, List.map_map]
  exact List.map_id _

@[simp] theorem refsOf_nil : refsOf [] = [] := rfl

@[simp] theorem refsOf_append (a b : List Mention) : refsOf (a ++ b) = refsOf a ++ refsOf b :=
  List.filterMap_append

@[simp] theorem refsOf_declared (name : Token) (rest : List Mention) :
    refsOf (⟨name, none⟩ :: rest) = refsOf rest := rfl

@[simp] theorem refsOf_reference (name : Token) (i : RefId) (rest : List Mention) :
    refsOf (⟨name, some i⟩ :: rest) = i :: refsOf rest := rfl

@[simp] theorem refsOf_declaredAll (names : List Token) : refsOf (names.map (⟨·, none⟩)) = [] := by
  induction names with
  | nil => rfl
  | cons name rest ih => exact ih

end ScopeScript
