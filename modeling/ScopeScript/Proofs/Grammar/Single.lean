import Mathlib.Data.List.Perm.Subperm
import ScopeScript.Proofs.Grammar.Order

namespace ScopeScript

-- The keywords of the returns in a tree.
mutual

def Expr.returns : Expr → List Token
  | .literal _ => []
  | .grouping inner => inner.returns
  | .unary _ operand => operand.returns
  | .binary left _ right => left.returns ++ right.returns
  | .logical left _ right => left.returns ++ right.returns
  | .variable _ _ => []
  | .assign _ _ value => value.returns
  | .call callee _ arguments => callee.returns ++ Expr.returnsAll arguments
  | .lambda routine => routine.returns
  | .get object _ => object.returns
  | .set object _ value => object.returns ++ value.returns
  | .this _ _ => []

def Expr.returnsAll : List Expr → List Token
  | [] => []
  | e :: rest => e.returns ++ Expr.returnsAll rest

def Stmt.returns : Stmt → List Token
  | .expression value => value.returns
  | .print _ value => value.returns
  | .var _ none => []
  | .var _ (some initial) => initial.returns
  | .block body => Stmt.returnsAll body
  | .branch condition yes none => condition.returns ++ yes.returns
  | .branch condition yes (some no) => condition.returns ++ (yes.returns ++ no.returns)
  | .loop condition body => condition.returns ++ body.returns
  | .leave _ => []
  | .function routine => routine.returns
  | .giveBack keyword none => [keyword]
  | .giveBack keyword (some value) => keyword :: value.returns
  | .classes _ methods => Routine.returnsAll methods

def Stmt.returnsAll : List Stmt → List Token
  | [] => []
  | s :: rest => s.returns ++ Stmt.returnsAll rest

def Routine.returns : Routine → List Token
  | .mk _ _ body => Stmt.returnsAll body

def Routine.returnsAll : List Routine → List Token
  | [] => []
  | r :: rest => r.returns ++ Routine.returnsAll rest

end

-- The tokens that a finding about a tree can point at, its names and its returns.

def Expr.subjects (e : Expr) : List Token := tokensOf e.mentions ++ e.returns

def Expr.subjectsAll (es : List Expr) : List Token := tokensOf (Expr.mentionsAll es) ++ Expr.returnsAll es

def Stmt.subjects (s : Stmt) : List Token := tokensOf s.mentions ++ s.returns

def Stmt.subjectsAll (ss : List Stmt) : List Token := tokensOf (Stmt.mentionsAll ss) ++ Stmt.returnsAll ss

def Routine.subjects (r : Routine) : List Token := tokensOf r.mentions ++ r.returns

def Routine.subjectsAll (rs : List Routine) : List Token := tokensOf (Routine.mentionsAll rs) ++ Routine.returnsAll rs

def Phrase.subjects : Phrase → List Token
  | .declarations ss => Stmt.subjectsAll ss
  | .declaration s => s.subjects
  | .functions rs => Routine.subjectsAll rs
  | .function r => r.head :: r.subjects
  | .routine r => r.subjects
  | .parameters ps => ps
  | .names ps => ps
  | .variable s => s.subjects
  | .statement _ s => s.subjects
  | .sentence s => s.subjects
  | .firstClause s => s.elim [] Stmt.subjects
  | .optional e => e.elim [] Expr.subjects
  | .expression e => e.subjects
  | .rank _ e => e.subjects
  | .further _ _ after => after.subjects
  | .unary e => e.subjects
  | .call e => e.subjects
  | .suffixes _ after => after.subjects
  | .values es => Expr.subjectsAll es
  | .expressions es => Expr.subjectsAll es
  | .primary e => e.subjects

-- Those that a repetition starts from.
def Phrase.start : Phrase → List Token
  | .further _ before _ => before.subjects
  | .suffixes before _ => before.subjects
  | _ => []

theorem Phrase.operand_subjects (k : Rank) (e : Expr) :
    (Phrase.operand k e).subjects = e.subjects ∧ (Phrase.operand k e).start = [] := by
  cases k <;> exact ⟨rfl, rfl⟩

theorem Rank.node_returns (k : Rank) (left : Expr) (operator : Token) (right : Expr) :
    (k.node left operator right).returns = left.returns ++ right.returns := by
  cases k <;> rfl

theorem spelledLoop_count (t : Token) (initial : Option Stmt) (condition step : Option Expr) (body : Stmt) :
    (spelledLoop initial condition step body).subjects.count t =
      (initial.elim [] Stmt.subjects).count t + (condition.elim [] Expr.subjects).count t +
        (step.elim [] Expr.subjects).count t + body.subjects.count t := by
  cases initial <;> cases condition <;> cases step <;>
    simp [spelledLoop, Stmt.subjects, Expr.subjects, Stmt.mentions, Stmt.mentionsAll, Expr.mentions, Stmt.returns,
      Stmt.returnsAll, Expr.returns] <;> omega

-- A tree has each of its names and returns from a token of its own.
theorem Derives.counted (t : Token) (h : Derives p w) : p.subjects.count t ≤ p.start.count t + w.count t := by
  induction h with
  | forStatement opening left first test stop last right inner ihFirst ihTest ihLast ihInner =>
    simp only [Phrase.subjects, Phrase.start, List.count_nil, List.count_append, List.count_cons, spelledLoop_count] at *
    omega
  | rank first others ihFirst ihOthers =>
    simp only [Phrase.operand_subjects] at ihFirst
    simp only [Phrase.subjects, Phrase.start, List.count_nil, List.count_append] at *
    omega
  | further spelled next others ihNext ihOthers =>
    simp only [Phrase.operand_subjects] at ihNext
    simp only [Phrase.subjects, Phrase.start, Expr.subjects, Rank.node_mentions, Rank.node_returns, tokensOf_append,
      List.count_nil, List.count_append, List.count_cons] at *
    omega
  | @returnStatement e w _ _ opening inner stop ihInner =>
    cases e with
    | none => simp_all [Phrase.subjects, Phrase.start, Stmt.subjects, Stmt.mentions, Stmt.returns, List.count_cons]
    | some =>
      simp_all [Phrase.subjects, Phrase.start, Stmt.subjects, Expr.subjects, Stmt.mentions, Stmt.returns,
        List.count_cons]
      omega
  | _ =>
    simp [Phrase.subjects, Phrase.start, Stmt.subjects, Stmt.subjectsAll, Expr.subjects, Expr.subjectsAll,
      Routine.subjects, Routine.subjectsAll, Stmt.mentions, Stmt.mentionsAll, Expr.mentions, Expr.mentionsAll,
      Routine.mentions, Routine.mentionsAll, Stmt.returns, Stmt.returnsAll, Expr.returns, Expr.returnsAll,
      Routine.returns, Routine.returnsAll, Routine.head, List.count_cons] at *
    try omega

theorem Token.irrefl_earlier (t : Token) : ¬ t.Earlier t := by
  intro h
  have total := Position.before_total t.position t.position
  rw [h] at total
  cases total

theorem sorted_nodup {w : List Token} (sorted : w.Pairwise Token.Earlier) : w.Nodup := by
  refine List.Pairwise.imp (fun {a b} before same => ?_) sorted
  subst same
  exact a.irrefl_earlier before

theorem Derives.subjects_subperm (h : Derives p w) (fresh : p.start = []) : p.subjects.Subperm w := by
  refine List.subperm_ext_iff.mpr fun t _ => ?_
  simpa [fresh] using h.counted t

theorem nodup_of_subperm {xs ys : List α} (fewer : xs.Subperm ys) (single : ys.Nodup) : xs.Nodup := by
  obtain ⟨same, perm, sub⟩ := fewer
  exact perm.nodup_iff.mp (single.sublist sub)

end ScopeScript
