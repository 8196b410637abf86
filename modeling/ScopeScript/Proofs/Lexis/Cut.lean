import ScopeScript.Proofs.Lexis.Iterate
import ScopeScript.Proofs.Lexis.Munch
import Mathlib.Data.List.Forall2

namespace ScopeScript

theorem Unclosed.nonempty (open_ : Unclosed kind text) : ∃ c tail, text = c :: tail := by
  cases open_ <;> exact ⟨_, _, rfl⟩

-- An unclosed piece is no lexeme, and a stray character neither.
theorem Lexeme.not_unclosed (lexeme : Lexeme kind text) (open_ : Unclosed kind other) : False := by
  rcases lexeme.kinds with ⟨k, rfl, _⟩ | rfl | rfl <;> cases open_

theorem Lexeme.not_stray (lexeme : Lexeme kind text) (c : Char) : kind ≠ .stray c := by
  rcases lexeme.kinds with ⟨k, rfl, _⟩ | rfl | rfl <;> simp

-- No lexeme that stands where a piece starts is longer than it, unless the piece is unclosed.
theorem Piece.first_longest (c : Char) (rest : List Char) (closed : ∀ k, ¬ Unclosed k (c :: rest))
    {kind : PieceKind} {other : List Char} (lexeme : Lexeme kind other) (stands : other <+: c :: rest) :
    (first c rest).1.Reaches kind other := by
  obtain ⟨d, tail, rfl⟩ := lexeme.nonempty
  obtain ⟨behind, same⟩ := stands
  cases same
  exact lexeme.reached rfl behind closed

theorem Piece.Reaches.length {piece : Piece} {kind : PieceKind} {text : List Char} (reaches : piece.Reaches kind text) :
    text.length ≤ piece.text.length := by
  obtain ⟨more, same, _⟩ := reaches
  simp [same]

-- A text that a piece reaches and does not pass is the piece itself.
theorem Piece.Reaches.exact {piece : Piece} {kind : PieceKind} {text : List Char} (reaches : piece.Reaches kind text)
    (short : piece.text.length ≤ text.length) : piece = ⟨kind, text⟩ := by
  obtain ⟨more, same, settled⟩ := reaches
  have nothing : more = [] := by
    rw [same, List.length_append] at short
    exact List.eq_nil_of_length_eq_zero (by omega)
  obtain ⟨own, spelled⟩ := piece
  rw [nothing, List.append_nil] at same
  cases same
  cases settled nothing
  rfl

theorem Piece.first_munched (c : Char) (rest : List Char) :
    Munched (first c rest).1 (first c rest).2 := by
  have exact := first_exact c rest
  rcases first_sort c rest with ⟨open_, ended⟩ | lexeme | stray
  · rw [ended]
    exact .unclosed open_
  · have closed : ∀ k, ¬ Unclosed k (c :: rest) := by
      intro k open_
      have same := congrArg (·.1.kind) open_.first
      rw [same] at lexeme
      exact lexeme.not_unclosed open_
    refine .lexeme lexeme (exact ▸ closed) fun k other standing stands => ?_
    rw [exact] at stands
    exact (first_longest c rest closed standing stands).length
  · have closed : ∀ k, ¬ Unclosed k (c :: rest) := by
      intro k open_
      rw [open_.first] at stray
      cases stray
      cases open_
    rw [stray]
    refine .stray closed fun k other standing stands => ?_
    have reaches := first_longest c rest closed standing stands
    rw [stray] at reaches
    obtain ⟨d, tail, rfl⟩ := standing.nonempty
    have same := reaches.exact (by simp)
    exact standing.not_stray c (congrArg Piece.kind same).symm

-- Only one piece can be right before a rest, and it is the one the scanner takes.
theorem Munched.first (munched : Munched piece rest) :
    ∃ c tail, piece.text = c :: tail ∧ Piece.first c (tail ++ rest) = (piece, rest) := by
  cases munched with
  | @unclosed kind text open_ =>
    obtain ⟨c, tail, rfl⟩ := open_.nonempty
    exact ⟨c, tail, rfl, by rw [List.append_nil, open_.first]⟩
  | @lexeme kind text rest lexeme closed longest =>
    obtain ⟨c, tail, rfl⟩ := lexeme.nonempty
    refine ⟨c, tail, rfl, ?_⟩
    have reaches := lexeme.reached rfl rest closed
    have exact := Piece.first_exact c (tail ++ rest)
    have short : (Piece.first c (tail ++ rest)).1.text.length ≤ (c :: tail).length := by
      rcases Piece.first_sort c (tail ++ rest) with ⟨open_, ended⟩ | found | stray
      · rw [ended, List.append_nil] at exact
        exact absurd (exact ▸ open_) (closed _)
      · exact longest _ _ found ⟨_, exact⟩
      · rw [stray]
        simp
    have same := reaches.exact short
    rw [same] at exact
    exact Prod.ext same (List.append_cancel_left exact)
  | @stray c rest closed none =>
    refine ⟨c, [], rfl, ?_⟩
    have exact := Piece.first_exact c rest
    rcases Piece.first_sort c rest with ⟨open_, ended⟩ | found | stray
    · rw [ended, List.append_nil] at exact
      exact absurd (exact ▸ open_) (closed _)
    · exact absurd ⟨_, exact⟩ (none _ _ found)
    · exact stray

theorem cut_pieces (source : List Char) : Cut source (pieces source) := by
  fun_induction pieces source with
  | case1 => exact .nil
  | case2 c rest cut ih =>
    have whole := Cut.cons (Piece.first_munched c rest) ih
    rwa [Piece.first_exact] at whole

theorem Cut.unique (cut : Cut source ps) : ps = pieces source := by
  induction cut with
  | nil => rw [pieces]
  | @cons piece rest ps munched _ ih =>
    obtain ⟨c, tail, starts, same⟩ := munched.first
    rw [starts, List.cons_append, pieces, same, ih]

theorem cut_exact (source : List Char) (ps : List Piece) : Cut source ps ↔ ps = pieces source :=
  ⟨Cut.unique, fun same => same ▸ cut_pieces source⟩

theorem Cut.munched (cut : Cut source ps) (member : piece ∈ ps) : ∃ rest, Munched piece rest := by
  induction cut with
  | nil => cases member
  | @cons other rest ps munched _ ih =>
    rcases List.mem_cons.mp member with rfl | behind
    · exact ⟨rest, munched⟩
    · exact ih behind

theorem Munched.token (munched : Munched ⟨.token k, text⟩ rest) : Lexeme (.token k) text := by
  cases munched with
  | unclosed open_ => cases open_
  | lexeme lexeme => exact lexeme

-- A lexeme is a keyword exactly when the whole of it is spelled like one.
theorem Lexeme.keyword_iff (lexeme : Lexeme (.token kind) text) (k : Keyword) :
    kind = .keyword k ↔ text = k.spelling.toList := by
  constructor
  · rintro rfl
    cases lexeme
    rfl
  · rintro rfl
    obtain ⟨c, w, spelled, opens, _⟩ := k.spelling_word
    have closed (rest : List Char) : ∀ other, ¬ Unclosed other (c :: rest) := by
      intro other open_
      cases open_ <;> revert opens <;> decide
    have own := (Lexeme.keyword k).reached spelled [] (closed _)
    have same := lexeme.reached spelled [] (closed _)
    have short : (Piece.first c (w ++ [])).1.text.length ≤ k.spelling.toList.length := by
      have whole := congrArg List.length (Piece.first_exact c (w ++ []))
      rw [List.length_append, List.append_nil] at whole
      rw [spelled, ← whole, List.append_nil]
      exact Nat.le_add_right _ _
    cases (own.exact short).symm.trans (same.exact short)
    rfl

-- A string token carries its text without the quotes, and has no quote inside.
theorem Lexeme.string_carries (lexeme : Lexeme (.token (.string carried)) text) :
    text = '\x22' :: (carried.toList ++ ['\x22']) ∧ '\x22' ∉ carried.toList := by
  cases lexeme with
  | string unquoted => simpa using unquoted

-- Blanks and comments are passed over in silence.
def Piece.isReported (piece : Piece) : Bool :=
  piece.kind != .blank && piece.kind != .comment

def LexicalCause.kind : LexicalCause → PieceKind
  | .stray c => .stray c
  | .openString => .openString
  | .openComment => .openComment

-- An item tells what its piece is; a token carries the exact text of it.
def Item.Reports : Item → Piece → Prop
  | .token t, piece => piece = ⟨.token t.kind, t.lexeme.toList⟩
  | .fault f, piece => piece.kind = f.cause.kind

theorem itemsFrom_reports (place : Position) (ps : List Piece) :
    ∃ body last, itemsFrom place ps = body ++ [.token ⟨.stop, "", last⟩] ∧
      List.Forall₂ Item.Reports body (ps.filter Piece.isReported) := by
  induction ps generalizing place with
  | nil => exact ⟨[], place, rfl, .nil⟩
  | cons piece ps ih =>
    obtain ⟨body, last, same, reports⟩ := ih (place.past piece.text)
    obtain ⟨kind, text⟩ := piece
    rw [itemsFrom, same]
    cases kind with
    | blank | comment => exact ⟨body, last, rfl, reports⟩
    | token k => exact ⟨_ :: body, last, rfl, .cons (by simp [Item.Reports]) reports⟩
    | stray | openString | openComment => exact ⟨_ :: body, last, rfl, .cons rfl reports⟩

theorem reports_member {body : List Item} (reports : List.Forall₂ Item.Reports body ps)
    (member : item ∈ body) : ∃ piece ∈ ps, item.Reports piece := by
  induction reports with
  | nil => cases member
  | cons first _ ih =>
    rcases List.mem_cons.mp member with rfl | behind
    · exact ⟨_, List.mem_cons_self, first⟩
    · obtain ⟨piece, inside, told⟩ := ih behind
      exact ⟨piece, List.mem_cons_of_mem _ inside, told⟩

theorem reported_lexeme {source : List Char} {body : List Item}
    (reports : List.Forall₂ Item.Reports body ((pieces source).filter Piece.isReported))
    (member : .token t ∈ body) : Lexeme (.token t.kind) t.lexeme.toList := by
  obtain ⟨piece, inside, rfl⟩ := reports_member reports member
  obtain ⟨rest, munched⟩ := (cut_pieces source).munched (List.mem_of_mem_filter inside)
  exact munched.token

-- A token is a keyword exactly when it is spelled like one.
def Token.Spelled (t : Token) : Prop := ∀ k : Keyword, t.kind = .keyword k ↔ t.lexeme = k.spelling

theorem Lexeme.spelled {t : Token} (lexeme : Lexeme (.token t.kind) t.lexeme.toList) : t.Spelled := by
  intro k
  rw [lexeme.keyword_iff, String.toList_inj]

theorem stop_spelled (place : Position) : Token.Spelled ⟨.stop, "", place⟩ := by
  intro k
  cases k <;> simp [Keyword.spelling]

theorem Lexeme.not_stop (lexeme : Lexeme (.token kind) text) : kind ≠ .stop := by
  rcases lexeme.kinds with ⟨k, same, other⟩ | wrong | wrong
  · cases same
    exact other
  · cases wrong
  · cases wrong

-- Every token but the end has the text of a lexeme.
theorem tokens_lexemes (scanned : tokens source = .ok ts) :
    ∀ t ∈ ts, Lexeme (.token t.kind) t.lexeme.toList ∨ ∃ place, t = ⟨.stop, "", place⟩ := by
  obtain ⟨body, place, same, reports⟩ := itemsFrom_reports .start (pieces source.toList)
  unfold tokens at scanned
  simp only [items_from, same] at scanned
  split at scanned
  · cases scanned
    intro t member
    obtain ⟨item, inside, given⟩ := List.mem_filterMap.mp member
    cases item with
    | fault f => cases given
    | token u =>
      cases given
      rcases List.mem_append.mp inside with before | last
      · exact .inl (reported_lexeme reports before)
      · cases List.mem_singleton.mp last
        exact .inr ⟨place, rfl⟩
  · cases scanned

theorem tokens_spelled (scanned : tokens source = .ok ts) : ∀ t ∈ ts, t.Spelled := by
  intro t member
  rcases tokens_lexemes scanned t member with lexeme | ⟨place, rfl⟩
  · exact lexeme.spelled
  · exact stop_spelled place

-- Only the end of a source has no text.
theorem tokens_worded (scanned : tokens source = .ok ts) : ∀ t ∈ ts, t.lexeme.isEmpty = t.isStop := by
  intro t member
  rcases tokens_lexemes scanned t member with lexeme | ⟨place, rfl⟩
  · obtain ⟨c, tail, text⟩ := lexeme.nonempty
    have worded : t.lexeme.isEmpty = false := by
      cases empty : t.lexeme.isEmpty with
      | false => rfl
      | true =>
        rw [String.isEmpty_iff.mp empty] at text
        cases text
    rw [worded, Token.isStop, beq_eq_false_iff_ne.mpr lexeme.not_stop]
  · rfl

-- The scanner is the longest-match lexer of the lexical grammar. Its pieces are the only way
-- to cut the source, it reports them in order and then the end, once, and then nothing.
theorem scanner_cuts (source : String) :
    (∀ ps, Cut source.toList ps ↔ ps = pieces source.toList) ∧
    (pieces source.toList).flatMap Piece.text = source.toList ∧
    (∃ body place, items source = body ++ [.token ⟨.stop, "", place⟩] ∧
      List.Forall₂ Item.Reports body ((pieces source.toList).filter Piece.isReported) ∧
      ∀ t, .token t ∈ body → t.kind ≠ .stop ∧
        (∀ k : Keyword, t.kind = .keyword k ↔ t.lexeme = k.spelling) ∧
        ∀ carried, t.kind = .string carried →
          t.lexeme.toList = '\x22' :: (carried.toList ++ ['\x22']) ∧ '\x22' ∉ carried.toList) ∧
    ∀ n, (Scanner.start source).request n = (items source)[n]? := by
  obtain ⟨body, place, same, reports⟩ := itemsFrom_reports .start (pieces source.toList)
  refine ⟨cut_exact source.toList, pieces_cover source.toList, ⟨body, place, ?_, reports, ?_⟩,
    (Scanner.start source).request_items⟩
  · rw [items_from, same]
  · intro t member
    have lexeme := reported_lexeme reports member
    refine ⟨?_, fun k => ?_, fun carried known => ?_⟩
    · rcases lexeme.kinds with ⟨k, same, other⟩ | wrong | wrong
      · cases same
        exact other
      · cases wrong
      · cases wrong
    · exact lexeme.spelled k
    · rw [known] at lexeme
      exact lexeme.string_carries

end ScopeScript
