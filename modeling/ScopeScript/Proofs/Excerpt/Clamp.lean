import ScopeScript.Proofs.Excerpt.Offset

namespace ScopeScript

namespace Excerpt

-- Lines with their line feeds, one behind the other.
def fed (parts : List (List Char)) : List Char := parts.flatMap fun part => part ++ ['\n']

theorem splitOn_head (source : List Char) : ∃ part tail, '\n' ∉ part ∧ source = part ++ tail ∧
    (tail = [] ∧ source.splitOn '\n' = [part] ∨
      ∃ behind, tail = '\n' :: behind ∧ source.splitOn '\n' = part :: behind.splitOn '\n') := by
  have plain : '\n' ∉ source.takeWhile (· != '\n') := fun member => by simpa using List.mem_takeWhile_imp member
  have cut := (List.takeWhile_append_dropWhile (p := (· != '\n')) (l := source)).symm
  refine ⟨_, _, plain, cut, ?_⟩
  cases tail : source.dropWhile (· != '\n') with
  | nil =>
    rw [tail, List.append_nil] at cut
    exact .inl ⟨rfl, by rw [← cut] at plain ⊢; exact List.splitOn_eq_singleton plain⟩
  | cons c behind =>
    have feed : c = '\n' := by
      have stops := List.head_dropWhile_not (· != '\n') (l := source) (by simp [tail])
      simpa [tail] using stops
    subst feed
    refine .inr ⟨behind, rfl, ?_⟩
    rw [tail] at cut
    conv_lhs => rw [cut]
    exact List.splitOn_append_cons_self_of_not_mem plain behind

-- Where a line stands that line feeds part off.
theorem splitOn_place {source : List Char} {front behind : List (List Char)} {part : List Char}
    (parts : source.splitOn '\n' = front ++ part :: behind) :
    (∀ row ∈ front, '\n' ∉ row) ∧ '\n' ∉ part ∧ (source = fed front ++ part ∧ behind = [] ∨
      ∃ tail, source = fed front ++ (part ++ '\n' :: tail) ∧ behind = tail.splitOn '\n') := by
  induction front generalizing source with
  | nil =>
    obtain ⟨first, tail, plain, whole, alone | ⟨rest, rfl, more⟩⟩ := splitOn_head source
    · obtain ⟨rfl, same⟩ := alone
      rw [List.append_nil] at whole
      cases same.symm.trans parts
      exact ⟨nofun, plain, .inl ⟨whole, rfl⟩⟩
    · cases more.symm.trans parts
      exact ⟨nofun, plain, .inr ⟨rest, whole, rfl⟩⟩
  | cons row front ih =>
    obtain ⟨first, tail, plain, whole, alone | ⟨rest, rfl, more⟩⟩ := splitOn_head source
    · simpa using congrArg List.length (alone.2.symm.trans parts)
    · obtain ⟨rfl, others⟩ := List.cons.inj (more.symm.trans parts)
      obtain ⟨rows, inner, place⟩ := ih others
      refine ⟨List.forall_mem_cons.mpr ⟨plain, rows⟩, inner, ?_⟩
      rcases place with ⟨rfl, none⟩ | ⟨tail, rfl, same⟩
      · exact .inl ⟨by simp [whole, fed], none⟩
      · exact .inr ⟨tail, by simp [whole, fed], same⟩

theorem lines_fed {front : List (List Char)} (plain : ∀ row ∈ front, '\n' ∉ row) (rest : List Char) :
    lines (fed front ++ rest) = front.map (· ++ ['\n']) ++ lines rest := by
  induction front with
  | nil => rfl
  | cons row front ih =>
    obtain ⟨here, others⟩ := List.forall_mem_cons.mp plain
    have split : fed (row :: front) ++ rest = row ++ '\n' :: (fed front ++ rest) := by simp [fed]
    rw [split, lines_within here (lines_feed _), ih others, List.map_cons, List.cons_append]

theorem lineWidth_eq (line : List Char) : lineWidth line = (line.rdropWhile endsLine).length := by
  rw [List.rdropWhile, List.length_reverse]
  rfl

theorem lineWidth_fed (line : List Char) : lineWidth (line ++ ['\n']) = (line.rdropWhile endsLine).length := by
  rw [lineWidth_eq, List.rdropWhile_concat_pos _ _ _ (by rfl)]

-- The columns 0 and 1 are the same.
theorem offset?_column (source : List Char) (line column : Nat) :
    offset? source line column = offset? source line (1 + (column - 1)) := by
  unfold offset?
  rw [Nat.add_sub_cancel_left]

-- What follows the last line feed is a line of the table only where it is something.
theorem lines_parts {source last : List Char} {front : List (List Char)} (parts : source.splitOn '\n' = front ++ [last]) :
    source = fed front ++ last ∧ '\n' ∉ last ∧
      lines source = front.map (· ++ ['\n']) ++ if last = [] then [] else [last] := by
  obtain ⟨rows, plain, ⟨rfl, -⟩ | ⟨tail, -, none⟩⟩ := splitOn_place parts
  · refine ⟨rfl, plain, ?_⟩
    rw [lines_fed rows]
    split
    · next bare => rw [bare, lines]
    · next filled => rw [lines_last plain filled]
  · exact absurd none.symm (List.splitOn_ne_nil _ _)

theorem fed_last {front : List (List Char)} (more : front ≠ []) : (fed front).getLast? = some '\n' := by
  rw [← List.dropLast_append_getLast more]
  simp [fed]

theorem offset?_parts {source : List Char} (filled : source ≠ []) {front behind : List (List Char)} {part : List Char}
    (parts : source.splitOn '\n' = front ++ part :: behind) (column : Nat) :
    offset? source (1 + front.length) column =
      some ((fed front).length + min (column - 1) (part.rdropWhile endsLine).length) := by
  have counted : (front.map (· ++ ['\n'])).length = front.length := List.length_map _
  rw [offset?_column, ← counted]
  by_cases bare : part = [] ∧ behind = []
  · -- The one line that the table leaves out.
    obtain ⟨rfl, rfl⟩ := bare
    obtain ⟨rfl, -, table⟩ := lines_parts parts
    rw [if_pos rfl, List.append_nil] at table
    rw [List.append_nil] at filled table ⊢
    have more : front ≠ [] := fun none => filled (by rw [none]; rfl)
    rw [offset?_fed (fed_last more) (congrArg List.length table)]
    simp
  · obtain ⟨rows, plain, ⟨rfl, rfl⟩ | ⟨tail, rfl, -⟩⟩ := splitOn_place parts
    · have table := lines_fed rows part
      rw [lines_last plain (by simpa using bare)] at table
      rw [offset?_line filled table, lineWidth_eq]
      rfl
    · have table := lines_fed rows (part ++ '\n' :: tail)
      rw [lines_within plain (lines_feed tail)] at table
      rw [offset?_line filled table, lineWidth_fed]
      rfl

theorem offset?_beyond {source : List Char} {line : Nat} (beyond : (source.splitOn '\n').length < line) (column : Nat) :
    offset? source line column = none := by
  obtain ⟨front, last, parts⟩ := (List.eq_nil_or_concat' (source.splitOn '\n')).resolve_left (List.splitOn_ne_nil _ _)
  obtain ⟨whole, plain, table⟩ := lines_parts parts
  rw [parts, List.length_append, List.length_singleton] at beyond
  have short : (lines source).length ≤ front.length + 1 := by
    rw [table]
    split <;> simp
  have unfed : ¬ (line = (lines source).length + 1 ∧ source.getLast? = some '\n') := by
    rintro ⟨next, ends⟩
    have filled : last ≠ [] := by
      rintro rfl
      rw [table] at next
      simp at next
      omega
    rw [whole, List.getLast?_append_of_ne_nil _ filled] at ends
    exact plain (List.mem_of_getLast? ends)
  have absent : (lines source)[line - 1]? = none := List.getElem?_eq_none (by omega)
  unfold offset?
  rw [absent]
  dsimp only
  rw [if_neg unfed, ite_self]

theorem splitOn_line {source : List Char} {line : Nat} (positive : line ≠ 0) (few : line ≤ (source.splitOn '\n').length) :
    ∃ front part behind, source.splitOn '\n' = front ++ part :: behind ∧ line = front.length + 1 := by
  have inside : line - 1 < (source.splitOn '\n').length := by omega
  have parts := List.take_append_drop (line - 1) (source.splitOn '\n')
  rw [List.drop_eq_getElem_cons inside] at parts
  refine ⟨_, _, _, parts.symm, ?_⟩
  rw [List.length_take_of_le (Nat.le_of_lt inside)]
  omega

theorem offset?_eq_none_iff (source : List Char) (line column : Nat) :
    offset? source line column = none ↔ source = [] ∨ line = 0 ∨ (source.splitOn '\n').length < line := by
  constructor
  · intro none
    by_contra other
    obtain ⟨filled, positive, few⟩ := by simpa only [not_or, Nat.not_lt] using other
    obtain ⟨front, part, behind, parts, rfl⟩ := splitOn_line positive few
    rw [Nat.add_comm, offset?_parts filled parts] at none
    cases none
  · rintro (rfl | rfl | beyond)
    · rfl
    · simp [offset?]
    · exact offset?_beyond beyond column

theorem offset?_eq_some_iff (source : List Char) (line column offset : Nat) :
    offset? source line column = some offset ↔ source ≠ [] ∧ ∃ front part behind,
      source.splitOn '\n' = front ++ part :: behind ∧ line = front.length + 1 ∧
        offset = (fed front).length + min (column - 1) (part.rdropWhile endsLine).length := by
  constructor
  · intro found
    have other := mt (offset?_eq_none_iff source line column).mpr (by simp [found])
    obtain ⟨filled, positive, few⟩ := by simpa only [not_or, Nat.not_lt] using other
    obtain ⟨front, part, behind, parts, rfl⟩ := splitOn_line positive few
    rw [Nat.add_comm, offset?_parts filled parts] at found
    exact ⟨filled, front, part, behind, parts, rfl, (Option.some.inj found).symm⟩
  · rintro ⟨filled, front, part, behind, parts, rfl, rfl⟩
    rw [Nat.add_comm]
    exact offset?_parts filled parts column

theorem count_fed {front : List (List Char)} (plain : ∀ row ∈ front, '\n' ∉ row) :
    (fed front).count '\n' = front.length := by
  induction front with
  | nil => rfl
  | cons row front ih =>
    obtain ⟨here, others⟩ := List.forall_mem_cons.mp plain
    have split : fed (row :: front) = row ++ '\n' :: fed front := by simp [fed]
    rw [split, List.count_append, List.count_eq_zero.mpr here, List.count_cons_self, ih others, Nat.zero_add,
      List.length_cons]

-- A clamped place is still on its line.
theorem offset?_on_line {source : List Char} {line column offset : Nat} (found : offset? source line column = some offset) :
    offset ≤ source.length ∧ (Position.counted (source.take offset)).line = line := by
  obtain ⟨-, front, part, behind, parts, rfl, rfl⟩ := (offset?_eq_some_iff ..).mp found
  obtain ⟨rows, plain, place⟩ := splitOn_place parts
  obtain ⟨more, rfl⟩ : ∃ more, source = fed front ++ (part ++ more) := by
    rcases place with ⟨whole, -⟩ | ⟨tail, whole, -⟩
    · exact ⟨[], by rw [whole, List.append_nil]⟩
    · exact ⟨_, whole⟩
  have narrow : (part.rdropWhile endsLine).length ≤ part.length := (List.rdropWhile_prefix _ part).length_le
  have inside : min (column - 1) (part.rdropWhile endsLine).length ≤ part.length := le_trans (Nat.min_le_right _ _) narrow
  constructor
  · rw [List.length_append, List.length_append]
    omega
  · rw [List.take_length_add_append, List.take_append_of_le_length inside]
    have none : (part.take (min (column - 1) (part.rdropWhile endsLine).length)).count '\n' = 0 :=
      List.count_eq_zero.mpr fun member => plain (List.mem_of_mem_take member)
    show 1 + List.count _ _ = _
    rw [List.count_append, count_fed rows, none, Nat.add_zero, Nat.add_comm]

theorem offset?_mono {source : List Char} {line column offset : Nat} (found : offset? source line column = some offset)
    {later : Nat} (behind : column ≤ later) : ∃ further, offset? source line later = some further ∧ offset ≤ further := by
  obtain ⟨filled, front, part, rest, parts, rfl, rfl⟩ := (offset?_eq_some_iff ..).mp found
  refine ⟨_, (offset?_eq_some_iff ..).mpr ⟨filled, front, part, rest, parts, rfl, rfl⟩, ?_⟩
  omega

theorem span?_eq (source : List Char) (line column : Nat) :
    span? source line column =
      (offset? source line column).map fun offset => (offset, min (offset + 1) source.length) := by
  unfold span?
  cases found : offset? source line column with
  | none => rfl
  | some offset =>
    have inside := (offset?_on_line found).1
    simp only [Option.map_some]
    split
    · rw [Nat.min_eq_left (by omega)]
    · have last : offset = source.length := by omega
      rw [last, Nat.min_eq_right (Nat.le_succ _)]

end Excerpt

-- A place of any line and column has an offset exactly where the source has the line, with one more line behind a
-- line feed at its end. The column is held back at the line's last character that shows. The span at the offset is
-- the character there, or nothing at the end of the source, and it moves on with the column.
theorem offsets_exact (source : String) (line column : Nat) :
    (Excerpt.offset? source.toList line column = none ↔
        source = "" ∨ line = 0 ∨ (source.toList.splitOn '\n').length < line) ∧
      (∀ offset, Excerpt.offset? source.toList line column = some offset ↔ source ≠ "" ∧ ∃ front part behind,
        source.toList.splitOn '\n' = front ++ part :: behind ∧ line = front.length + 1 ∧
          offset = (Excerpt.fed front).length + min (column - 1) (part.rdropWhile Excerpt.endsLine).length) ∧
      (Excerpt.span? source.toList line column = none ↔ Excerpt.offset? source.toList line column = none) ∧
      ∀ first last, Excerpt.span? source.toList line column = some (first, last) →
        Excerpt.offset? source.toList line column = some first ∧ first ≤ last ∧ last ≤ source.toList.length ∧
          last = min (first + 1) source.toList.length ∧ (Position.counted (source.toList.take first)).line = line ∧
          ∀ later, column ≤ later → ∃ first' last', Excerpt.span? source.toList line later = some (first', last') ∧
            first ≤ first' ∧ last ≤ last' := by
  have bare : source.toList = [] ↔ source = "" := String.toList_eq_nil_iff
  refine ⟨?_, fun offset => ?_, ?_, fun first last spans => ?_⟩
  · rw [Excerpt.offset?_eq_none_iff, bare]
  · rw [Excerpt.offset?_eq_some_iff, ne_eq, bare]
  · rw [Excerpt.span?_eq, Option.map_eq_none_iff]
  · rw [Excerpt.span?_eq] at spans
    obtain ⟨offset, found, same⟩ := Option.map_eq_some_iff.mp spans
    cases same
    obtain ⟨inside, here⟩ := Excerpt.offset?_on_line found
    refine ⟨found, by omega, Nat.min_le_right _ _, rfl, here, fun later behind => ?_⟩
    obtain ⟨further, moved, more⟩ := Excerpt.offset?_mono found behind
    refine ⟨further, _, by rw [Excerpt.span?_eq, moved, Option.map_some], more, ?_⟩
    omega

-- Two carriage returns in front of a line feed that ends the source.
theorem offsets_exact_returns :
    let source := "é\r\r\n"
    Excerpt.offset? source.toList 1 9 = some 1 ∧ Excerpt.span? source.toList 1 9 = some (1, 2) ∧
      Excerpt.offset? source.toList 2 0 = some 4 ∧ Excerpt.span? source.toList 2 0 = some (4, 4) ∧
      Excerpt.offset? source.toList 3 1 = none := by
  intro source
  have parts : source.toList.splitOn '\n' = [['é', '\r', '\r'], []] := by decide +kernel
  have filled : source ≠ "" := by decide
  have first := ((offsets_exact source 1 9).2.1 1).mpr ⟨filled, [], _, _, parts, rfl, by decide⟩
  have second := ((offsets_exact source 2 0).2.1 4).mpr ⟨filled, [_], [], [], parts, rfl, by decide⟩
  have third := (offsets_exact source 3 1).1.mpr (.inr (.inr (by rw [parts]; decide)))
  exact ⟨first, by rw [Excerpt.span?_eq, first]; decide +kernel, second, by rw [Excerpt.span?_eq, second]; decide +kernel, third⟩

end ScopeScript
