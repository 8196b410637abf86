import ScopeScript.Lexis.Piece

namespace ScopeScript

-- The lexical grammar: the texts that are a token, a blank or a comment on their own.
inductive Lexeme : PieceKind → List Char → Prop
  | mark (m : Mark) : Lexeme (.token (.mark m)) m.spelling.toList
  | whole {ds : List Char} (nonempty : ds ≠ []) (digits : ∀ d ∈ ds, d.isDigit = true) :
      Lexeme (.token (.number (Decimal.ofDigits ds []))) ds
  | fraction {ds fs : List Char} (nonempty : ds ≠ []) (digits : ∀ d ∈ ds, d.isDigit = true)
      (more : fs ≠ []) (moreDigits : ∀ d ∈ fs, d.isDigit = true) :
      Lexeme (.token (.number (Decimal.ofDigits ds fs))) (ds ++ '.' :: fs)
  | keyword (k : Keyword) : Lexeme (.token (.keyword k)) k.spelling.toList
  | identifier {c : Char} {w : List Char} (opens : Piece.startsWord c = true)
      (inside : ∀ d ∈ w, Piece.inWord d = true) (free : ∀ k : Keyword, k.spelling.toList ≠ c :: w) :
      Lexeme (.token .identifier) (c :: w)
  | string {body : List Char} (unquoted : '\x22' ∉ body) :
      Lexeme (.token (.string (String.ofList body))) ('\x22' :: (body ++ ['\x22']))
  | blank {c : Char} (blank : Piece.isBlank c = true) : Lexeme .blank [c]
  | lineComment {body : List Char} (oneLine : '\n' ∉ body) : Lexeme .comment ('/' :: '/' :: body)
  -- The first closing behind the opening is the one at the end.
  | blockComment {body : List Char} (first : ¬ ['*', '/'] <:+: body ++ ['*']) :
      Lexeme .comment ('/' :: '*' :: (body ++ ['*', '/']))

-- A source whose string has no second quote, or whose block comment has no end.
inductive Unclosed : PieceKind → List Char → Prop
  | string {body : List Char} (unquoted : '\x22' ∉ body) : Unclosed .openString ('\x22' :: body)
  | comment {body : List Char} (endless : ¬ ['*', '/'] <:+: body) :
      Unclosed .openComment ('/' :: '*' :: body)

-- What a piece before a rest has to be: all of a source that is never closed, else the
-- longest lexeme that stands there, else a single character that starts no lexeme.
inductive Munched : Piece → List Char → Prop
  | unclosed (open_ : Unclosed kind text) : Munched ⟨kind, text⟩ []
  | lexeme (lexeme : Lexeme kind text) (closed : ∀ k, ¬ Unclosed k (text ++ rest))
      (longest : ∀ k other, Lexeme k other → other <+: text ++ rest → other.length ≤ text.length) :
      Munched ⟨kind, text⟩ rest
  | stray {c : Char} {rest : List Char} (closed : ∀ k, ¬ Unclosed k (c :: rest))
      (none : ∀ k other, Lexeme k other → ¬ other <+: c :: rest) : Munched ⟨.stray c, [c]⟩ rest

-- A source cut from its start on into pieces that are each right where they stand.
inductive Cut : List Char → List Piece → Prop
  | nil : Cut [] []
  | cons (munched : Munched piece rest) (behind : Cut rest ps) : Cut (piece.text ++ rest) (piece :: ps)

theorem Keyword.ofSpelling?_spelling (k : Keyword) : Keyword.ofSpelling? k.spelling.toList = some k := by
  cases k <;> rfl

theorem Keyword.ofSpelling?_eq_some {text : List Char} {k : Keyword}
    (found : Keyword.ofSpelling? text = some k) : k.spelling.toList = text := by
  simpa using List.find?_some found

theorem Keyword.ofSpelling?_eq_none {text : List Char} :
    Keyword.ofSpelling? text = none ↔ ∀ k : Keyword, k.spelling.toList ≠ text := by
  simp [Keyword.ofSpelling?, Keyword.mem_all]

theorem Keyword.spelling_word (k : Keyword) :
    ∃ c w, k.spelling.toList = c :: w ∧ Piece.startsWord c = true ∧ ∀ d ∈ w, Piece.inWord d = true := by
  have opens : k.spelling.toList.head?.any Piece.startsWord = true := by cases k <;> rfl
  have inside : k.spelling.toList.all Piece.inWord = true := by cases k <;> rfl
  cases spelled : k.spelling.toList with
  | nil => rw [spelled] at opens; cases opens
  | cons c w =>
    rw [spelled] at opens inside
    exact ⟨c, w, rfl, opens, fun d member =>
      List.all_eq_true.mp inside d (List.mem_cons_of_mem _ member)⟩

theorem Mark.spelling_cases (m : Mark) :
    (∃ c, m.spelling.toList = [c] ∧ Mark.ofChar? c = some m) ∨
      ∃ c short, m.spelling.toList = [c, '='] ∧ Mark.ofChar? c = some short ∧ short.withEqual? = some m := by
  cases m
  case bangEqual | equalEqual | greaterEqual | lessEqual =>
    exact .inr ⟨_, _, rfl, rfl, rfl⟩
  all_goals exact .inl ⟨_, rfl, rfl⟩

end ScopeScript
