namespace ScopeScript

-- Lines and columns count from one. A column counts characters, not bytes.
structure Position where
  line : Nat
  column : Nat
  deriving DecidableEq, Repr, Inhabited

namespace Position

def start : Position := ⟨1, 1⟩

-- Only a line feed ends a line; a carriage return takes a column like any other character.
def step (place : Position) (c : Char) : Position :=
  if c = '\n' then ⟨place.line + 1, 1⟩ else ⟨place.line, place.column + 1⟩

def past (place : Position) (text : List Char) : Position :=
  text.foldl step place

-- Reading order: by line, then by column.
def before (a b : Position) : Bool :=
  a.line < b.line || (a.line == b.line && a.column ≤ b.column)

theorem past_nil (place : Position) : place.past [] = place := rfl

theorem past_cons (place : Position) (c : Char) (text : List Char) :
    place.past (c :: text) = (place.step c).past text := rfl

theorem past_append (place : Position) (first second : List Char) :
    place.past (first ++ second) = (place.past first).past second :=
  List.foldl_append

theorem before_total (a b : Position) : a.before b || b.before a := by
  simp only [before, Bool.or_eq_true, Bool.and_eq_true, decide_eq_true_eq, beq_iff_eq]
  omega

theorem before_trans (a b c : Position) : a.before b → b.before c → a.before c := by
  simp only [before, Bool.or_eq_true, Bool.and_eq_true, decide_eq_true_eq, beq_iff_eq]
  omega

end Position

end ScopeScript
