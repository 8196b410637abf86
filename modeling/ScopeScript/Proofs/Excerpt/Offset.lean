import ScopeScript.Excerpt.Place
import ScopeScript.Proofs.Lexis.Placed
import Mathlib.Data.List.Induction
import Mathlib.Data.List.DropRight

namespace ScopeScript

namespace Excerpt

theorem lines_cons {c : Char} (plain : c ≠ '\n') {rest line : List Char} {more : List (List Char)}
    (same : lines rest = line :: more) : lines (c :: rest) = (c :: line) :: more := by
  rw [lines, if_neg plain, same]

theorem lines_last {text : List Char} (plain : '\n' ∉ text) (filled : text ≠ []) : lines text = [text] := by
  induction text with
  | nil => exact absurd rfl filled
  | cons c text ih =>
    obtain ⟨here, later⟩ := not_or.mp (mt List.mem_cons.mpr plain)
    cases text with
    | nil => rw [lines, if_neg (Ne.symm here), lines]
    | cons d text => exact lines_cons (Ne.symm here) (ih later (List.cons_ne_nil _ _))

-- What stands before the first line feed belongs to the first line.
theorem lines_within {text : List Char} (plain : '\n' ∉ text) {rest line : List Char} {more : List (List Char)}
    (same : lines rest = line :: more) : lines (text ++ rest) = (text ++ line) :: more := by
  induction text with
  | nil => exact same
  | cons c text ih =>
    obtain ⟨here, later⟩ := not_or.mp (mt List.mem_cons.mpr plain)
    exact lines_cons (Ne.symm here) (ih later)

theorem lines_feed (rest : List Char) : lines ('\n' :: rest) = ['\n'] :: lines rest := by
  rw [lines, if_pos rfl]

-- A position counts the lines that end in a text, and the characters behind the last of them.
theorem lines_counted (text : List Char) : ∃ closed open_, closed.flatten ++ open_ = text ∧ '\n' ∉ open_ ∧
    (closed = [] ∨ closed.flatten.getLast? = some '\n') ∧
    Position.counted text = ⟨1 + closed.length, 1 + open_.length⟩ ∧
    ∀ rest, lines (text ++ rest) = closed ++ lines (open_ ++ rest) := by
  induction text using List.reverseRecOn with
  | nil => exact ⟨[], [], rfl, nofun, .inl rfl, rfl, fun _ => rfl⟩
  | append_singleton text c ih =>
    obtain ⟨closed, open_, whole, plain, ended, place, split⟩ := ih
    rw [Position.counted_append, place, ← whole]
    by_cases feed : c = '\n'
    · subst feed
      refine ⟨closed ++ [open_ ++ ['\n']], [], by simp, nofun, .inr (by simp), by simp [Position.step, Nat.add_assoc],
        fun rest => ?_⟩
      rw [whole, List.append_assoc, split, List.singleton_append, lines_within plain (lines_feed rest)]
      simp
    · refine ⟨closed, open_ ++ [c], by simp, by simp [plain, Ne.symm feed], ended,
        by simp [Position.step, feed, Nat.add_assoc], fun rest => ?_⟩
      rw [whole, List.append_assoc, split, List.append_assoc]

theorem lines_head (c : Char) (rest : List Char) : ∃ line more, lines (c :: rest) = (c :: line) :: more := by
  by_cases feed : c = '\n'
  · subst feed
    exact ⟨[], _, lines_feed rest⟩
  · cases same : lines rest with
    | nil => exact ⟨[], [], by rw [lines, if_neg feed, same]⟩
    | cons line more => exact ⟨line, more, lines_cons feed same⟩

-- What ends a line takes none of its width.
def endsLine (c : Char) : Bool := c == '\n' || c == '\r'

theorem lineWidth_inside (text : List Char) {c : Char} (visible : endsLine c = false) (rest : List Char) :
    text.length < lineWidth (text ++ c :: rest) := by
  unfold lineWidth
  rw [List.reverse_append, List.reverse_cons, List.append_assoc]
  show _ < ((rest.reverse ++ ([c] ++ text.reverse)).dropWhile endsLine).length
  have kept : [c] ++ text.reverse <:+ (rest.reverse ++ ([c] ++ text.reverse)).dropWhile endsLine := by
    have stays : ([c] ++ text.reverse).dropWhile endsLine = [c] ++ text.reverse :=
      List.dropWhile_cons_of_neg (by simp [visible])
    rw [List.dropWhile_append]
    split
    · exact ⟨[], stays.symm⟩
    · exact List.suffix_append _ _
  have long := kept.length_le
  rw [List.length_append, List.length_singleton, List.length_reverse] at long
  omega

-- The offset of a place that is on a line of the source.
theorem offset?_line {source line : List Char} {before more : List (List Char)} (filled : source ≠ [])
    (split : lines source = before ++ line :: more) (column : Nat) :
    offset? source (1 + before.length) (1 + column) = some (before.flatten.length + min column (lineWidth line)) := by
  unfold offset?
  simp [filled, split]

-- The position of a character that ends no line leads back to the character.
theorem offset?_counted (before : List Char) {c : Char} (visible : endsLine c = false) (after : List Char) :
    offset? (before ++ c :: after) (Position.counted before).line (Position.counted before).column =
      some before.length := by
  obtain ⟨closed, open_, whole, plain, -, place, split⟩ := lines_counted before
  obtain ⟨line, more, same⟩ := lines_head c after
  rw [place, offset?_line (by simp) ((split _).trans (by rw [lines_within plain same]))]
  have inside := lineWidth_inside open_ visible line
  rw [Nat.min_eq_left (Nat.le_of_lt inside), ← List.length_append, whole]

-- Behind a line feed at the end of a source one more line begins.
theorem offset?_fed {source : List Char} {count : Nat} (fed : source.getLast? = some '\n')
    (all : (lines source).length = count) (column : Nat) : offset? source (1 + count) column = some source.length := by
  have filled : source ≠ [] := by
    rintro rfl
    cases fed
  unfold offset?
  simp [filled, fed, all, Nat.add_comm]

end Excerpt

theorem Munched.opens (munched : Munched piece rest) (reported : piece.isReported = true) :
    ∃ c tail, piece.text = c :: tail ∧ Piece.isBlank c = false := by
  obtain ⟨c, tail, starts, same⟩ := munched.first
  refine ⟨c, tail, starts, Bool.eq_false_iff.mpr fun blank => ?_⟩
  rw [Piece.first_blank blank] at same
  rw [← (Prod.mk.inj same).1] at reported
  cases reported

theorem Item.Reports.isReported {item : Item} {piece : Piece} (reports : item.Reports piece) : piece.isReported = true := by
  cases item with
  | token t =>
    cases reports
    rfl
  | fault f =>
    have told : piece.kind = f.cause.kind := reports
    unfold Piece.isReported
    rw [told]
    cases f.cause <;> rfl

-- What an item is about starts with a character that shows.
theorem Item.Places.opens {source : List Char} {item : Item} (placed : item.Places (pieces source) n) :
    ∃ c after, source = ((pieces source).take n).flatMap Piece.text ++ c :: after ∧ Piece.isBlank c = false := by
  obtain ⟨piece, there, reports, -⟩ := placed
  obtain ⟨rest, munched⟩ := (cut_pieces source).munched (List.mem_of_getElem? there)
  obtain ⟨c, tail, starts, visible⟩ := munched.opens reports.isReported
  refine ⟨c, tail ++ ((pieces source).drop (n + 1)).flatMap Piece.text, ?_, visible⟩
  obtain ⟨short, same⟩ := List.getElem?_eq_some_iff.mp there
  have cut := List.take_append_drop n (pieces source)
  rw [List.drop_eq_getElem_cons short, same] at cut
  have whole := congrArg (List.flatMap Piece.text) cut
  rw [pieces_cover, List.flatMap_append, List.flatMap_cons, starts] at whole
  exact whole.symm

theorem Piece.visible {c : Char} (shows : Piece.isBlank c = false) : Excerpt.endsLine c = false := by
  unfold Excerpt.endsLine
  simp_all [Piece.isBlank]

theorem Item.Places.offset {source : List Char} {item : Item} (placed : item.Places (pieces source) n) :
    Excerpt.offset? source item.position.line item.position.column =
      some (((pieces source).take n).flatMap Piece.text).length := by
  obtain ⟨c, after, whole, shows⟩ := placed.opens
  obtain ⟨piece, -, -, place⟩ := placed
  have back := Excerpt.offset?_counted (((pieces source).take n).flatMap Piece.text) (Piece.visible shows) after
  rwa [← whole, ← place] at back

end ScopeScript
