import ScopeScript.Lexis.Token

namespace ScopeScript

-- What a stretch of source is. The last three are faults.
inductive PieceKind where
  | token (kind : TokenKind)
  | blank
  | comment
  | stray (c : Char)
  | openString
  | openComment
  deriving DecidableEq

structure Piece where
  kind : PieceKind
  text : List Char
  deriving DecidableEq

namespace Piece

def isBlank (c : Char) : Bool := c == ' ' || c == '\t' || c == '\r' || c == '\n'

-- Letters and digits of words are ASCII; any other letter is a stray character.
def startsWord (c : Char) : Bool := c.isAlpha || c == '_'

def inWord (c : Char) : Bool := c.isAlphanum || c == '_'

-- The text up to and including the first closing of a block comment, and the rest.
def closeComment? : List Char → Option (List Char × List Char)
  | '*' :: '/' :: rest => some (['*', '/'], rest)
  | [] => none
  | c :: rest => (closeComment? rest).map fun found => (c :: found.1, found.2)

def ofSlash : List Char → Piece × List Char
  | '/' :: rest =>
    (⟨.comment, '/' :: '/' :: rest.takeWhile (· != '\n')⟩, rest.dropWhile (· != '\n'))
  | '*' :: rest =>
    match closeComment? rest with
    | some (body, after) => (⟨.comment, '/' :: '*' :: body⟩, after)
    | none => (⟨.openComment, '/' :: '*' :: rest⟩, [])
  | rest => (⟨.token (.mark .slash), ['/']⟩, rest)

-- A string runs to the first quote behind the opening one, across lines too.
def ofQuote (rest : List Char) : Piece × List Char :=
  let body := rest.takeWhile (· != '\x22')
  match rest.dropWhile (· != '\x22') with
  | [] => (⟨.openString, '\x22' :: rest⟩, [])
  | close :: after =>
    (⟨.token (.string (String.ofList body)), '\x22' :: (body ++ [close])⟩, after)

-- A point belongs to a number only with a digit right behind it.
def ofDigit (c : Char) (rest : List Char) : Piece × List Char :=
  let whole := c :: rest.takeWhile Char.isDigit
  match rest.dropWhile Char.isDigit with
  | '.' :: d :: after =>
    if d.isDigit then
      let fraction := d :: after.takeWhile Char.isDigit
      (⟨.token (.number (Decimal.ofDigits whole fraction)), whole ++ '.' :: fraction⟩,
        after.dropWhile Char.isDigit)
    else (⟨.token (.number (Decimal.ofDigits whole [])), whole⟩, '.' :: d :: after)
  | after => (⟨.token (.number (Decimal.ofDigits whole [])), whole⟩, after)

def ofLetter (c : Char) (rest : List Char) : Piece × List Char :=
  let word := c :: rest.takeWhile inWord
  let kind := match Keyword.ofSpelling? word with
    | some k => TokenKind.keyword k
    | none => .identifier
  (⟨.token kind, word⟩, rest.dropWhile inWord)

def ofMark (c : Char) (m : Mark) : List Char → Piece × List Char
  | '=' :: rest =>
    match m.withEqual? with
    | some longer => (⟨.token (.mark longer), [c, '=']⟩, rest)
    | none => (⟨.token (.mark m), [c]⟩, '=' :: rest)
  | rest => (⟨.token (.mark m), [c]⟩, rest)

-- The piece that starts with c, and the source behind it.
def first (c : Char) (rest : List Char) : Piece × List Char :=
  if isBlank c then (⟨.blank, [c]⟩, rest)
  else if c = '/' then ofSlash rest
  else if c = '\x22' then ofQuote rest
  else if c.isDigit then ofDigit c rest
  else if startsWord c then ofLetter c rest
  else
    match Mark.ofChar? c with
    | some m => ofMark c m rest
    | none => (⟨.stray c, [c]⟩, rest)

theorem closeComment?_exact (source body after : List Char)
    (found : closeComment? source = some (body, after)) : body ++ after = source := by
  fun_induction closeComment? source generalizing body after with
  | case1 rest => cases found; rfl
  | case2 => cases found
  | case3 c rest _ ih =>
    obtain ⟨⟨inner, outer⟩, h, same⟩ := Option.map_eq_some_iff.mp found
    cases same
    simp [ih inner outer h]

theorem ofSlash_exact (rest : List Char) :
    (ofSlash rest).1.text ++ (ofSlash rest).2 = '/' :: rest := by
  unfold ofSlash
  split
  · simp [List.takeWhile_append_dropWhile]
  · split
    · rename_i found
      simp [closeComment?_exact _ _ _ found]
    · simp
  · rfl

theorem ofQuote_exact (rest : List Char) :
    (ofQuote rest).1.text ++ (ofQuote rest).2 = '\x22' :: rest := by
  have whole := List.takeWhile_append_dropWhile (p := (· != '\x22')) (l := rest)
  unfold ofQuote
  split
  · simp
  · rename_i close after h
    rw [h] at whole
    simpa using whole

theorem ofDigit_exact (c : Char) (rest : List Char) :
    (ofDigit c rest).1.text ++ (ofDigit c rest).2 = c :: rest := by
  have whole := List.takeWhile_append_dropWhile (p := Char.isDigit) (l := rest)
  unfold ofDigit
  split
  · rename_i d after h
    rw [h] at whole
    have fraction := List.takeWhile_append_dropWhile (p := Char.isDigit) (l := after)
    split
    · simp [fraction, whole]
    · simpa using whole
  · simp [whole]

theorem ofLetter_exact (c : Char) (rest : List Char) :
    (ofLetter c rest).1.text ++ (ofLetter c rest).2 = c :: rest := by
  simp [ofLetter, List.takeWhile_append_dropWhile]

theorem ofMark_exact (c : Char) (m : Mark) (rest : List Char) :
    (ofMark c m rest).1.text ++ (ofMark c m rest).2 = c :: rest := by
  unfold ofMark
  split
  · split <;> rfl
  · rfl

-- Nothing is lost between a piece and what follows it.
theorem first_exact (c : Char) (rest : List Char) :
    (first c rest).1.text ++ (first c rest).2 = c :: rest := by
  unfold first
  split
  · rfl
  split
  · rename_i slash; subst slash; exact ofSlash_exact rest
  split
  · rename_i quote; subst quote; exact ofQuote_exact rest
  split
  · exact ofDigit_exact c rest
  split
  · exact ofLetter_exact c rest
  split
  · exact ofMark_exact c _ rest
  · rfl

theorem first_text_ne_nil (c : Char) (rest : List Char) : (first c rest).1.text ≠ [] := by
  unfold first ofSlash ofQuote ofDigit ofLetter ofMark
  repeat' split
  all_goals simp

theorem first_shorter (c : Char) (rest : List Char) :
    (first c rest).2.length < (c :: rest).length := by
  have exact := congrArg List.length (first_exact c rest)
  have positive := List.length_pos_iff.mpr (first_text_ne_nil c rest)
  rw [List.length_append] at exact
  omega

end Piece

-- The source cut into pieces, in order.
def pieces : List Char → List Piece
  | [] => []
  | c :: rest =>
    let cut := Piece.first c rest
    cut.1 :: pieces cut.2
termination_by source => source.length
decreasing_by exact Piece.first_shorter c rest

-- The pieces cover the source without gap or overlap.
theorem pieces_cover (source : List Char) : (pieces source).flatMap Piece.text = source := by
  fun_induction pieces source with
  | case1 => rfl
  | case2 c rest cut ih => simp [ih, cut, Piece.first_exact]

end ScopeScript
