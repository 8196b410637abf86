import ScopeScript.Proofs.Lexis.Cut

namespace ScopeScript

namespace Position

-- The position behind a text, counted over the whole of it: the line feeds, and the
-- characters after the last of them.
def counted (text : List Char) : Position :=
  ⟨1 + text.count '\n', 1 + (text.reverse.takeWhile (· != '\n')).length⟩

theorem counted_append (text : List Char) (c : Char) : counted (text ++ [c]) = (counted text).step c := by
  by_cases feed : c = '\n'
  · simp [counted, step, feed, Nat.add_assoc]
  · simp [counted, step, feed]
    omega

theorem counted_nil : counted [] = start := rfl

-- Going on from a counted position counts on.
theorem counted_past (before text : List Char) : (counted before).past text = counted (before ++ text) := by
  induction text generalizing before with
  | nil => rw [past_nil, List.append_nil]
  | cons c text ih => rw [past_cons, ← counted_append, ih, List.append_assoc, List.singleton_append]

end Position

def Item.position : Item → Position
  | .token t => t.position
  | .fault f => f.position

-- An item is the report of a piece and stands where the piece does.
def Item.Places (ps : List Piece) (item : Item) (n : Nat) : Prop :=
  ∃ piece, ps[n]? = some piece ∧ item.Reports piece ∧
    item.position = .counted ((ps.take n).flatMap Piece.text)

end ScopeScript
