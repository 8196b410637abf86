import ScopeScript.Proofs.Lexis.Lexeme
import Mathlib.Data.List.TakeWhile

namespace ScopeScript

namespace Piece

theorem isBlank_cases {c : Char} (blank : isBlank c = true) : c = ' ' ∨ c = '\t' ∨ c = '\r' ∨ c = '\n' := by
  simpa [isBlank, or_assoc] using blank

-- Where a mark's character sends the scanner, no other branch is taken.
theorem first_blank {c : Char} (blank : isBlank c = true) (rest : List Char) :
    first c rest = (⟨.blank, [c]⟩, rest) := by
  simp [first, blank]

theorem first_slash (rest : List Char) : first '/' rest = ofSlash rest := by
  simp [first, show isBlank '/' = false by decide]

theorem first_quote (rest : List Char) : first '\x22' rest = ofQuote rest := by
  simp [first, show isBlank '\x22' = false by decide]

theorem first_digit {c : Char} (digit : c.isDigit = true) (rest : List Char) :
    first c rest = ofDigit c rest := by
  have blank : ¬ isBlank c = true := by
    intro blank
    rcases isBlank_cases blank with rfl | rfl | rfl | rfl <;> revert digit <;> decide
  have slash : c ≠ '/' := by rintro rfl; revert digit; decide
  have quote : c ≠ '\x22' := by rintro rfl; revert digit; decide
  simp [first, blank, slash, quote, digit]

-- Letters stand apart from the digits.
theorem startsWord_not_digit {c : Char} (opens : startsWord c = true) : c.isDigit = false := by
  refine Bool.eq_false_iff.mpr fun digit => ?_
  have low : c.val ≤ 57 := of_decide_eq_true (Bool.and_eq_true_iff.mp digit).2
  rcases Bool.or_eq_true_iff.mp opens with alpha | underscore
  · rcases Bool.or_eq_true_iff.mp alpha with upper | lower
    · have high : 65 ≤ c.val := (of_decide_eq_true upper).1
      exact absurd (UInt32.le_trans high low) (by decide)
    · have high : 97 ≤ c.val := of_decide_eq_true (Bool.and_eq_true_iff.mp lower).1
      exact absurd (UInt32.le_trans high low) (by decide)
  · rw [beq_iff_eq.mp underscore] at low
    exact absurd low (by decide)

theorem first_letter {c : Char} (opens : startsWord c = true) (rest : List Char) :
    first c rest = ofLetter c rest := by
  have blank : ¬ isBlank c = true := by
    intro blank
    rcases isBlank_cases blank with rfl | rfl | rfl | rfl <;> revert opens <;> decide
  have slash : c ≠ '/' := by rintro rfl; revert opens; decide
  have quote : c ≠ '\x22' := by rintro rfl; revert opens; decide
  simp [first, blank, slash, quote, startsWord_not_digit opens, opens]

theorem first_mark {c : Char} {m : Mark} (spelled : Mark.ofChar? c = some m) (slash : c ≠ '/')
    (rest : List Char) : first c rest = ofMark c m rest := by
  have known : m.spelling.toList = [c] := by simpa using List.find?_some spelled
  cases m <;> cases known <;> first | rfl | exact absurd rfl slash

theorem closeComment?_none {source : List Char} (found : closeComment? source = none) :
    ¬ ['*', '/'] <:+: source := by
  fun_induction closeComment? source with
  | case1 rest => cases found
  | case2 => simp
  | case3 c rest other ih =>
    have behind := ih (Option.map_eq_none_iff.mp found)
    rw [List.infix_cons_iff]
    rintro (⟨more, same⟩ | inside)
    · cases same
      exact other _ rfl rfl
    · exact behind inside

-- A closing that starts a text ending in a star leaves the slash to the text before it.
theorem closing_starts {c : Char} {body : List Char} (starts : ['*', '/'] <+: c :: (body ++ ['*'])) :
    c = '*' ∧ ∃ more, body = '/' :: more := by
  obtain ⟨opens, behind⟩ := List.cons_prefix_cons.mp starts
  cases body with
  | nil => exact absurd behind (by decide)
  | cons d more => exact ⟨opens.symm, more, by rw [(List.cons_prefix_cons.mp behind).1]⟩

theorem closeComment?_some {source text after : List Char} (found : closeComment? source = some (text, after)) :
    ∃ body, text = body ++ ['*', '/'] ∧ ¬ ['*', '/'] <:+: body ++ ['*'] := by
  fun_induction closeComment? source generalizing text after with
  | case1 rest => cases found; exact ⟨[], rfl, by decide⟩
  | case2 => cases found
  | case3 c rest other ih =>
    obtain ⟨⟨inner, outer⟩, h, same⟩ := Option.map_eq_some_iff.mp found
    cases same
    obtain ⟨body, rfl, first⟩ := ih h
    refine ⟨c :: body, rfl, ?_⟩
    rw [List.cons_append, List.infix_cons_iff]
    rintro (starts | inside)
    · obtain ⟨rfl, more, rfl⟩ := closing_starts starts
      exact other _ rfl (closeComment?_exact _ _ _ h).symm
    · exact first inside

theorem closeComment?_first {body : List Char} (first : ¬ ['*', '/'] <:+: body ++ ['*']) (rest : List Char) :
    closeComment? (body ++ '*' :: '/' :: rest) = some (body ++ ['*', '/'], rest) := by
  induction body with
  | nil => rfl
  | cons c body ih =>
    rw [List.cons_append, List.infix_cons_iff, not_or] at first
    rw [List.cons_append, closeComment?, ih first.2]
    · rfl
    · rintro behind rfl same
      cases body with
      | nil => cases same
      | cons d more =>
        cases same
        exact first.1 ⟨more ++ ['*'], rfl⟩

-- The piece goes at least as far as a text, and is of its kind if it goes no farther.
def Reaches (piece : Piece) (kind : PieceKind) (text : List Char) : Prop :=
  ∃ more, piece.text = text ++ more ∧ (more = [] → piece.kind = kind)

theorem ofDigit_whole {c : Char} {ds : List Char} (digits : ∀ d ∈ ds, d.isDigit = true) (rest : List Char) :
    (ofDigit c (ds ++ rest)).1.Reaches (.token (.number (Decimal.ofDigits (c :: ds) []))) (c :: ds) := by
  unfold ofDigit
  rw [List.takeWhile_append_of_pos digits]
  split
  · split
    · rename_i d after _ _
      exact ⟨rest.takeWhile Char.isDigit ++ '.' :: d :: after.takeWhile Char.isDigit, by simp, by simp⟩
    · refine ⟨rest.takeWhile Char.isDigit, by simp, fun nothing => ?_⟩
      simp [nothing]
  · refine ⟨rest.takeWhile Char.isDigit, by simp, fun nothing => ?_⟩
    simp [nothing]

theorem ofDigit_fraction {c d : Char} {ds fs : List Char} (digits : ∀ d ∈ ds, d.isDigit = true)
    (digit : d.isDigit = true) (more : ∀ d ∈ fs, d.isDigit = true) (rest : List Char) :
    (ofDigit c (ds ++ '.' :: d :: (fs ++ rest))).1.Reaches
      (.token (.number (Decimal.ofDigits (c :: ds) (d :: fs)))) (c :: ds ++ '.' :: d :: fs) := by
  have point : '.'.isDigit = false := by decide
  have behind : (ds ++ '.' :: d :: (fs ++ rest)).dropWhile Char.isDigit = '.' :: d :: (fs ++ rest) := by
    rw [List.dropWhile_append_of_pos digits, List.dropWhile_cons_of_neg (by simp [point])]
  have whole : (ds ++ '.' :: d :: (fs ++ rest)).takeWhile Char.isDigit = ds := by
    rw [List.takeWhile_append_of_pos digits, List.takeWhile_cons_of_neg (by simp [point]), List.append_nil]
  unfold ofDigit
  simp only [behind, whole, digit, if_true, List.takeWhile_append_of_pos more]
  refine ⟨rest.takeWhile Char.isDigit, by simp, fun nothing => ?_⟩
  simp [nothing]

theorem ofLetter_reaches {c : Char} {w : List Char} (inside : ∀ d ∈ w, inWord d = true) (rest : List Char)
    (kind : TokenKind) (same : (Keyword.ofSpelling? (c :: w)).elim .identifier .keyword = kind) :
    (ofLetter c (w ++ rest)).1.Reaches (.token kind) (c :: w) := by
  unfold ofLetter
  rw [List.takeWhile_append_of_pos inside]
  refine ⟨rest.takeWhile inWord, by simp, fun nothing => ?_⟩
  simp only [nothing, List.append_nil, ← same]
  cases Keyword.ofSpelling? (c :: w) <;> rfl

theorem ofMark_short (c : Char) (m : Mark) (rest : List Char) :
    (ofMark c m rest).1.Reaches (.token (.mark m)) [c] := by
  unfold ofMark
  split
  · split
    · exact ⟨['='], rfl, by simp⟩
    · exact ⟨[], rfl, fun _ => rfl⟩
  · exact ⟨[], rfl, fun _ => rfl⟩

theorem ofMark_long {c : Char} {m longer : Mark} (grows : m.withEqual? = some longer) (rest : List Char) :
    (ofMark c m ('=' :: rest)).1.Reaches (.token (.mark longer)) [c, '='] := by
  simp only [ofMark, grows]
  exact ⟨[], rfl, fun _ => rfl⟩

-- A slash on its own opens nothing unless it starts a comment, which goes farther.
theorem ofSlash_mark {rest : List Char} (closed : ∀ k, ¬ Unclosed k ('/' :: rest)) :
    (ofSlash rest).1.Reaches (.token (.mark .slash)) ['/'] := by
  unfold ofSlash
  split
  · exact ⟨_, rfl, by simp⟩
  · split
    · exact ⟨_, rfl, by simp⟩
    · rename_i found
      exact absurd (.comment (closeComment?_none found)) (closed .openComment)
  · exact ⟨[], rfl, fun _ => rfl⟩

theorem ofSlash_line {body : List Char} (oneLine : '\n' ∉ body) (rest : List Char) :
    (ofSlash ('/' :: (body ++ rest))).1.Reaches .comment ('/' :: '/' :: body) := by
  have inside : ∀ d ∈ body, (d != '\n') = true := fun d member => by
    simpa using fun same : d = '\n' => oneLine (same ▸ member)
  simp only [ofSlash, List.takeWhile_append_of_pos inside]
  exact ⟨_, rfl, fun _ => rfl⟩

theorem ofSlash_block {body : List Char} (first : ¬ ['*', '/'] <:+: body ++ ['*']) (rest : List Char) :
    (ofSlash ('*' :: (body ++ '*' :: '/' :: rest))).1.Reaches .comment ('/' :: '*' :: (body ++ ['*', '/'])) := by
  simp only [ofSlash, closeComment?_first first]
  exact ⟨[], by simp, fun _ => rfl⟩

theorem unquoted_all {body : List Char} (unquoted : '\x22' ∉ body) : ∀ d ∈ body, (d != '\x22') = true :=
  fun d member => by simpa using fun same : d = '\x22' => unquoted (same ▸ member)

theorem ofQuote_closed {body : List Char} (unquoted : '\x22' ∉ body) (rest : List Char) :
    (ofQuote (body ++ '\x22' :: rest)).1.Reaches (.token (.string (String.ofList body)))
      ('\x22' :: (body ++ ['\x22'])) := by
  have inside := unquoted_all unquoted
  have behind : (body ++ '\x22' :: rest).dropWhile (· != '\x22') = '\x22' :: rest := by
    rw [List.dropWhile_append_of_pos inside, List.dropWhile_cons_of_neg (by simp)]
  have before : (body ++ '\x22' :: rest).takeWhile (· != '\x22') = body := by
    rw [List.takeWhile_append_of_pos inside, List.takeWhile_cons_of_neg (by simp), List.append_nil]
  simp only [ofQuote, behind, before]
  exact ⟨[], by simp, fun _ => rfl⟩

end Piece

-- Where a lexeme stands and nothing stays unclosed, the scanner goes at least as far.
theorem Lexeme.reached {c : Char} {tail : List Char} (lexeme : Lexeme kind text) (starts : text = c :: tail)
    (rest : List Char) (closed : ∀ k, ¬ Unclosed k (c :: (tail ++ rest))) :
    (Piece.first c (tail ++ rest)).1.Reaches kind text := by
  cases lexeme with
  | mark m =>
    rcases m.spelling_cases with ⟨d, spelled, known⟩ | ⟨d, short, spelled, known, grows⟩
    · rw [spelled] at starts ⊢
      cases starts
      by_cases slash : c = '/'
      · subst slash
        cases known
        rw [Piece.first_slash]
        exact Piece.ofSlash_mark closed
      · rw [Piece.first_mark known slash]
        exact Piece.ofMark_short c m rest
    · rw [spelled] at starts ⊢
      cases starts
      have slash : c ≠ '/' := by
        rintro rfl
        cases known
        cases grows
      rw [Piece.first_mark known slash]
      exact Piece.ofMark_long grows rest
  | whole nonempty digits =>
    rw [starts] at digits ⊢
    rw [Piece.first_digit (digits c List.mem_cons_self)]
    exact Piece.ofDigit_whole (fun d member => digits d (List.mem_cons_of_mem _ member)) rest
  | @fraction ds fs nonempty digits more moreDigits =>
    obtain ⟨d, ds, rfl⟩ := List.exists_cons_of_ne_nil nonempty
    obtain ⟨f, fs, rfl⟩ := List.exists_cons_of_ne_nil more
    rw [List.cons_append] at starts
    cases starts
    rw [Piece.first_digit (digits c List.mem_cons_self), List.append_assoc]
    exact Piece.ofDigit_fraction (fun d member => digits d (List.mem_cons_of_mem _ member))
      (moreDigits f List.mem_cons_self) (fun d member => moreDigits d (List.mem_cons_of_mem _ member)) rest
  | keyword k =>
    obtain ⟨d, w, spelled, opens, inside⟩ := k.spelling_word
    rw [spelled] at starts ⊢
    cases starts
    rw [Piece.first_letter opens]
    refine Piece.ofLetter_reaches inside rest _ ?_
    rw [← spelled, k.ofSpelling?_spelling, Option.elim_some]
  | identifier opens inside free =>
    cases starts
    rw [Piece.first_letter opens]
    refine Piece.ofLetter_reaches inside rest _ ?_
    rw [Keyword.ofSpelling?_eq_none.mpr free, Option.elim_none]
  | string unquoted =>
    cases starts
    rw [Piece.first_quote, List.append_assoc]
    exact Piece.ofQuote_closed unquoted rest
  | blank isBlank =>
    cases starts
    rw [Piece.first_blank isBlank]
    exact ⟨[], rfl, fun _ => rfl⟩
  | lineComment oneLine =>
    cases starts
    rw [Piece.first_slash]
    exact Piece.ofSlash_line oneLine rest
  | blockComment first =>
    cases starts
    rw [Piece.first_slash, List.cons_append, List.append_assoc]
    exact Piece.ofSlash_block first rest

theorem Lexeme.nonempty (lexeme : Lexeme kind text) : ∃ c tail, text = c :: tail := by
  cases lexeme with
  | mark m => cases m <;> exact ⟨_, _, rfl⟩
  | whole nonempty => exact List.exists_cons_of_ne_nil nonempty
  | fraction nonempty =>
    obtain ⟨d, ds, rfl⟩ := List.exists_cons_of_ne_nil nonempty
    exact ⟨_, _, rfl⟩
  | keyword k => cases k <;> exact ⟨_, _, rfl⟩
  | _ => exact ⟨_, _, rfl⟩

-- A lexeme is a token other than the end, a blank or a comment.
theorem Lexeme.kinds (lexeme : Lexeme kind text) :
    (∃ k, kind = .token k ∧ k ≠ .stop) ∨ kind = .blank ∨ kind = .comment := by
  cases lexeme <;> simp

-- What is left open runs to the end.
theorem Unclosed.first (open_ : Unclosed kind (c :: rest)) :
    Piece.first c rest = (⟨kind, c :: rest⟩, []) := by
  generalize same : c :: rest = text at open_
  cases open_ with
  | string unquoted =>
    cases same
    have whole : rest.dropWhile (· != '\x22') = [] :=
      List.dropWhile_eq_nil_iff.mpr (Piece.unquoted_all unquoted)
    rw [Piece.first_quote, Piece.ofQuote]
    simp only [whole]
  | @comment body endless =>
    cases same
    have none : Piece.closeComment? body = none := by
      cases found : Piece.closeComment? body with
      | none => rfl
      | some pair =>
        obtain ⟨inner, after⟩ := pair
        obtain ⟨start, rfl, _⟩ := Piece.closeComment?_some found
        refine absurd ⟨start, after, ?_⟩ endless
        rw [← Piece.closeComment?_exact _ _ _ found]
    rw [Piece.first_slash, Piece.ofSlash]
    simp only [none]

theorem Piece.ofSlash_sort (rest : List Char) :
    (Unclosed (ofSlash rest).1.kind (ofSlash rest).1.text ∧ (ofSlash rest).2 = []) ∨
      Lexeme (ofSlash rest).1.kind (ofSlash rest).1.text := by
  unfold ofSlash
  split
  · rename_i body
    refine .inr (.lineComment fun member => ?_)
    simpa using List.mem_takeWhile_imp member
  · split
    · rename_i found
      obtain ⟨body, rfl, first⟩ := closeComment?_some found
      exact .inr (.blockComment first)
    · rename_i found
      exact .inl ⟨.comment (closeComment?_none found), rfl⟩
  · exact .inr (.mark .slash)

theorem Piece.ofQuote_sort (rest : List Char) :
    (Unclosed (ofQuote rest).1.kind (ofQuote rest).1.text ∧ (ofQuote rest).2 = []) ∨
      Lexeme (ofQuote rest).1.kind (ofQuote rest).1.text := by
  unfold ofQuote
  split
  · rename_i whole
    refine .inl ⟨.string fun member => ?_, rfl⟩
    simpa using List.dropWhile_eq_nil_iff.mp whole _ member
  · rename_i close after behind
    have closes : close = '\x22' := by
      simpa [behind] using List.head?_dropWhile_not (· != '\x22') rest
    rw [closes]
    refine .inr (.string fun member => ?_)
    simpa using List.mem_takeWhile_imp member

theorem Piece.ofDigit_lexeme {c : Char} (digit : c.isDigit = true) (rest : List Char) :
    Lexeme (ofDigit c rest).1.kind (ofDigit c rest).1.text := by
  have digits {d : Char} {w : List Char} (h : d.isDigit = true) :
      ∀ e ∈ d :: w.takeWhile Char.isDigit, e.isDigit = true := by
    intro e member
    rcases List.mem_cons.mp member with rfl | inside
    · exact h
    · exact List.mem_takeWhile_imp inside
  unfold ofDigit
  split
  · split
    · rename_i more
      exact .fraction (by simp) (digits digit) (by simp) (digits more)
    · exact .whole (by simp) (digits digit)
  · exact .whole (by simp) (digits digit)

theorem Piece.ofLetter_lexeme {c : Char} (opens : startsWord c = true) (rest : List Char) :
    Lexeme (ofLetter c rest).1.kind (ofLetter c rest).1.text := by
  unfold ofLetter
  dsimp only
  split
  · rename_i k found
    rw [← Keyword.ofSpelling?_eq_some found]
    exact .keyword k
  · rename_i found
    exact .identifier opens (fun d member => List.mem_takeWhile_imp member)
      (Keyword.ofSpelling?_eq_none.mp found)

theorem Piece.ofMark_lexeme {c : Char} {m : Mark} (spelled : m.spelling.toList = [c]) (rest : List Char) :
    Lexeme (ofMark c m rest).1.kind (ofMark c m rest).1.text := by
  unfold ofMark
  split
  · split
    · rename_i longer grows
      have long : longer.spelling.toList = [c, '='] := by
        cases m <;> cases grows <;> cases spelled <;> rfl
      rw [← long]
      exact .mark longer
    · rw [← spelled]
      exact .mark m
  · rw [← spelled]
    exact .mark m

-- The three things that a first piece can be.
theorem Piece.first_sort (c : Char) (rest : List Char) :
    (Unclosed (first c rest).1.kind (first c rest).1.text ∧ (first c rest).2 = []) ∨
      Lexeme (first c rest).1.kind (first c rest).1.text ∨ first c rest = (⟨.stray c, [c]⟩, rest) := by
  unfold first
  split
  · rename_i blank
    exact .inr (.inl (.blank blank))
  split
  · exact (ofSlash_sort rest).imp_right .inl
  split
  · exact (ofQuote_sort rest).imp_right .inl
  split
  · rename_i digit
    exact .inr (.inl (ofDigit_lexeme digit rest))
  split
  · rename_i opens
    exact .inr (.inl (ofLetter_lexeme opens rest))
  split
  · rename_i m spelled
    exact .inr (.inl (ofMark_lexeme (by simpa using List.find?_some spelled) rest))
  · exact .inr (.inr rfl)

end ScopeScript
