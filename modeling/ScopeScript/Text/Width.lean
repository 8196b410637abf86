import ScopeScript.Text.Ranges

namespace ScopeScript.Text

-- Characters that separate without showing.
def isSpace (c : Char) : Bool :=
  let n := c.toNat
  (9 ≤ n && n ≤ 13) || n == 0x20 || n == 0x85 || n == 0xa0 || n == 0x1680 ||
    (0x2000 ≤ n && n ≤ 0x200a) || n == 0x2028 || n == 0x2029 || n == 0x202f || n == 0x205f ||
    n == 0x3000

def isControl (c : Char) : Bool := c.toNat < 32 || (127 ≤ c.toNat && c.toNat < 160)

-- What a display may ignore, the vowels and finals that join a syllable block, and the signs that
-- are drawn over what follows them.
def invisible : Ranges := [
  (0xad, 0xad), (0x34f, 0x34f), (0x605, 0x605), (0x61c, 0x61c), (0x70f, 0x70f), (0x890, 0x891),
  (0x8e2, 0x8e2), (0x1160, 0x11ff), (0x17b4, 0x17b5), (0x180b, 0x180f), (0x200b, 0x200f),
  (0x202a, 0x202e), (0x2060, 0x206f), (0x3164, 0x3164), (0xa8fa, 0xa8fa), (0xd7b0, 0xd7c6),
  (0xd7cb, 0xd7fb), (0xfe00, 0xfe0f), (0xfeff, 0xfeff), (0xffa0, 0xffa0), (0xfff0, 0xfff8),
  (0x1bca0, 0x1bca3), (0x1d173, 0x1d17a), (0xe0000, 0xe0fff)]

-- Signs whose drawing differs from what their class says: a joiner, a double vowel, a triple stop.
def ownWidth? (c : Char) : Option Nat :=
  if c = '\u2d7f' then some 1
  else if c = '\u17a4' then some 2
  else if c = '\u17d8' then some 3
  else none

-- A tab reaches to the next multiple of four, counted in characters.
def tabWidth (index : Nat) : Nat := 4 - index % 4

-- The columns that a character at an index of its line takes.
def width (index : Nat) (c : Char) : Nat :=
  if c = '\t' then tabWidth index
  else if isSpace c || isControl c then 1
  else (ownWidth? c).getD <|
    if marks.holds c || invisible.holds c then 0 else if wide.holds c then 2 else 1

theorem isSpace_of_isWhitespace (c : Char) (blank : c.isWhitespace) : isSpace c := by
  simp only [Char.isWhitespace, Bool.or_eq_true, decide_eq_true_eq] at blank
  rcases blank with ((rfl | rfl) | rfl) | rfl <;> rfl

end ScopeScript.Text
