import ScopeScript.Lexis.Piece

namespace ScopeScript

inductive LexicalCause where
  | stray (c : Char)
  | openString
  | openComment
  deriving DecidableEq

-- The position is that of the first character of the faulty piece.
structure LexicalFault where
  cause : LexicalCause
  position : Position
  deriving DecidableEq

def LexicalCause.message : LexicalCause → String
  | stray c => "Unexpected character: " ++ String.singleton c
  | openString => "Unterminated string."
  | openComment => "Unterminated block comment."

inductive Item where
  | token (t : Token)
  | fault (f : LexicalFault)
  deriving DecidableEq

-- Blanks and comments leave no item behind.
def Piece.item? (piece : Piece) (place : Position) : Option Item :=
  match piece.kind with
  | .token kind => some (.token ⟨kind, String.ofList piece.text, place⟩)
  | .blank => none
  | .comment => none
  | .stray c => some (.fault ⟨.stray c, place⟩)
  | .openString => some (.fault ⟨.openString, place⟩)
  | .openComment => some (.fault ⟨.openComment, place⟩)

-- A scanner stands at a place before what is left of its source. Once it has given out the
-- end, nothing is left, not even the end.
structure Scanner where
  left : Option (List Char)
  place : Position
  deriving DecidableEq

namespace Scanner

def start (source : String) : Scanner := ⟨some source.toList, .start⟩

def size (s : Scanner) : Nat := s.left.elim 0 fun rest => rest.length + 1

-- What one request yields, with the scanner behind it. Blanks and comments are passed over.
def next : Scanner → Option Item × Scanner
  | ⟨none, place⟩ => (none, ⟨none, place⟩)
  | ⟨some [], place⟩ => (some (.token ⟨.stop, "", place⟩), ⟨none, place⟩)
  | ⟨some (c :: rest), place⟩ =>
    let cut := Piece.first c rest
    let onward : Scanner := ⟨some cut.2, place.past cut.1.text⟩
    match cut.1.item? place with
    | some item => (some item, onward)
    | none => onward.next
termination_by s => s.size
decreasing_by exact Nat.succ_lt_succ (Piece.first_shorter c rest)

theorem next_smaller (s : Scanner) (item : Item) (found : s.next.1 = some item) :
    s.next.2.size < s.size := by
  fun_induction next s with
  | case1 => cases found
  | case2 => simp [size]
  | case3 c rest place cut onward _ _ => exact Nat.succ_lt_succ (Piece.first_shorter c rest)
  | case4 c rest place cut onward _ ih =>
    exact Nat.lt_trans (ih found) (Nat.succ_lt_succ (Piece.first_shorter c rest))

-- All that requests yield until one yields nothing.
def items (s : Scanner) : List Item :=
  match _found : s.next.1 with
  | none => []
  | some item => item :: s.next.2.items
termination_by s.size
decreasing_by exact s.next_smaller item _found

end Scanner

def items (source : String) : List Item := (Scanner.start source).items

def Item.token? : Item → Option Token
  | .token t => some t
  | .fault _ => none

def Item.fault? : Item → Option LexicalFault
  | .token _ => none
  | .fault f => some f

-- All tokens of a source, or all its lexical faults.
def tokens (source : String) : Except (List LexicalFault) (List Token) :=
  let found := items source
  match found.filterMap Item.fault? with
  | [] => .ok (found.filterMap Item.token?)
  | faults => .error faults

end ScopeScript
