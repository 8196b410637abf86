import ScopeScript.Proofs.Grammar.Numbered

namespace ScopeScript

-- Tokens to read as a program or as an expression.
inductive Text where
  | program (tokens : List Token)
  | expression (tokens : List Token)

inductive Tree where
  | program (body : List Stmt)
  | expression (e : Expr)

-- One id for each node that refers to a name or to the receiver.
def Tree.refs : Tree → List RefId
  | program body => refsOf (Stmt.mentionsAll body)
  | expression e => refsOf e.mentions

-- What reading a text comes to, and where the counter of ids stood before and after.
structure Readout where
  low : RefId
  answer : Except (List SyntaxFault) Tree
  high : RefId

-- The ids of the tree. Without a tree there are none, however far the counter moved.
def Readout.refs (r : Readout) : List RefId :=
  match r.answer with
  | .ok tree => tree.refs
  | .error _ => []

namespace Text

def read : Text → RefId → Except (List SyntaxFault) Tree × RefId
  | program tokens, next => ((readProgram tokens next).1.map .program, (readProgram tokens next).2)
  | expression tokens, next => ((readExpression tokens next).1.map .expression, (readExpression tokens next).2)

def readout (text : Text) (next : RefId) : Readout := ⟨next, (text.read next).1, (text.read next).2⟩

-- Every text takes its ids from where the text before it left the counter.
def readAll : List Text → RefId → List Readout
  | [], _ => []
  | text :: rest, next => text.readout next :: readAll rest (text.readout next).high

theorem readout_numbered (text : Text) (next : RefId) : next ≤ (text.readout next).high ∧
    Numbered next (text.readout next).high (text.readout next).refs := by
  have none : ∀ high : RefId, Numbered next high [] := fun _ => ⟨.nil, nofun⟩
  unfold readout Readout.refs
  cases text with
  | program tokens =>
    have numbered := readProgram_numbered tokens next
    refine ⟨numbered.1, ?_⟩
    dsimp only [read]
    cases given : (readProgram tokens next).1 with
    | error faults => exact none _
    | ok body => exact numbered.2 body given
  | expression tokens =>
    have numbered := readExpression_numbered tokens next
    refine ⟨numbered.1, ?_⟩
    dsimp only [read]
    cases given : (readExpression tokens next).1 with
    | error faults => exact none _
    | ok e => exact numbered.2 e given

-- No reading of a series reaches back to before its start.
theorem readAll_numbered (texts : List Text) (next : RefId) :
    ∀ r ∈ readAll texts next, next ≤ r.low ∧ Numbered r.low r.high r.refs := by
  induction texts generalizing next with
  | nil => nofun
  | cons text rest ih =>
    have first := text.readout_numbered next
    intro r member
    rcases List.mem_cons.mp member with rfl | later
    · exact ⟨Nat.le_refl _, first.2⟩
    · obtain ⟨after, numbered⟩ := ih _ r later
      exact ⟨Nat.le_trans first.1 after, numbered⟩

theorem readAll_apart (texts : List Text) (next : RefId) :
    (readAll texts next).Pairwise fun r s => r.high ≤ s.low := by
  induction texts generalizing next with
  | nil => exact .nil
  | cons text rest ih => exact .cons (fun s later => (readAll_numbered rest _ s later).1) (ih _)

-- Whatever a series reads and however often it fails, no id stands twice in its trees, be it in
-- one of them or in two, and each id was handed out by the reading that built its tree.
theorem readAll_distinct (texts : List Text) (start : RefId) :
    ((readAll texts start).flatMap Readout.refs).Nodup ∧
      ∀ r ∈ readAll texts start, ∀ i ∈ r.refs, r.low ≤ i ∧ i < r.high := by
  have numbered : ∀ r ∈ readAll texts start, Numbered r.low r.high r.refs :=
    fun r member => (readAll_numbered texts start r member).2
  refine ⟨List.pairwise_flatMap.mpr ⟨fun r member => (numbered r member).1, ?_⟩,
    fun r member => (numbered r member).2⟩
  refine (readAll_apart texts start).imp_of_mem fun {r s} first second apart => ?_
  intro i inFirst j inSecond
  have below : i < r.high := ((numbered r first).2 i inFirst).2
  have above : s.low ≤ j := ((numbered s second).2 j inSecond).1
  exact Nat.ne_of_lt (Nat.lt_of_lt_of_le below (Nat.le_trans apart above))

end Text

end ScopeScript
