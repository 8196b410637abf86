import ScopeScript.Proofs.Lexis.Seam

namespace ScopeScript

-- The first line begins farther to the right.
def Position.indent (columns : Nat) (place : Position) : Position :=
  if place.line = 1 then ⟨1, place.column + columns⟩ else place

def Renaming.indent (columns : Nat) : Renaming := ⟨id, .indent columns⟩

-- Lines count from one, so that no later line becomes the first one.
theorem Renaming.indent_carries (columns : Nat) : (indent columns).Carries fun place => 1 ≤ place.line := by
  intro place c positive
  unfold indent Position.indent Position.step
  dsimp only
  rcases Nat.eq_or_lt_of_le positive with first | later
  · rw [← first]
    split
    · exact ⟨by decide, rfl⟩
    · exact ⟨Nat.le_refl _, congrArg (Position.mk 1) (Nat.add_right_comm ..)⟩
  · rw [if_neg (Nat.ne_of_gt later)]
    split
    · exact ⟨Nat.le_add_left .., (if_neg (Nat.ne_of_gt (Nat.lt_succ_of_lt later))).symm⟩
    · exact ⟨positive, (if_neg (Nat.ne_of_gt later)).symm⟩

-- The program that prints the value of an expression. Its last line keeps the semicolon out of a
-- comment at the end of the expression.
def printing (source : String) : String := "print " ++ source ++ "\n;"

def printToken : Token := ⟨.keyword .printWord, "print", .start⟩

theorem pieces_print (source : List Char) : pieces ("print ".toList ++ source) =
    ⟨.token (.keyword .printWord), "print".toList⟩ :: ⟨.blank, [' ']⟩ :: pieces source := by
  have word : Piece.first 'p' ("rint ".toList ++ source) =
      (⟨.token (.keyword .printWord), "print".toList⟩, ' ' :: source) := rfl
  have gap : Piece.first ' ' source = (⟨.blank, [' ']⟩, source) := rfl
  show pieces ('p' :: ("rint ".toList ++ source)) = _
  rw [pieces, word]
  dsimp only
  rw [pieces, gap]

theorem tokens_print {source : String} {ts : List Token} (scanned : tokens source = .ok ts) :
    tokens ("print " ++ source) = .ok (printToken :: ts.map (Token.rename (.indent 6))) := by
  have whole : items ("print " ++ source) = [.token printToken] ++ (items source).map (Item.rename (.indent 6)) := by
    rw [items_from, items_from, String.toList_append, pieces_print]
    show Item.token printToken :: itemsFrom ((Renaming.indent 6).place .start) (pieces source.toList) = _
    rw [itemsFrom_rename (Renaming.indent_carries 6) (Nat.le_refl 1)]
    rfl
  exact tokens_behind whole rfl scanned

theorem tokens_semicolon : tokens ";" = .ok [⟨.mark .semicolon, ";", .start⟩, ⟨.stop, "", ⟨1, 2⟩⟩] := by
  decide +kernel

theorem tokens_printing {source : String} {body : List Token} {stop : Token}
    (scanned : tokens source = .ok (body ++ [stop])) : ∃ semicolon last, semicolon.kind = .mark .semicolon ∧
      last.isStop = true ∧ tokens (printing source) =
        .ok (printToken :: body.map (Token.rename (.indent 6)) ++ [semicolon] ++ [last]) := by
  obtain ⟨ahead, ending, lines, same, whole⟩ := tokens_onNewLine (tokens_print scanned) tokens_semicolon
  rw [List.map_append, ← List.cons_append] at same
  obtain ⟨rfl, -⟩ := List.append_inj' same rfl
  refine ⟨⟨.mark .semicolon, ";", .lower lines .start⟩, ⟨.stop, "", .lower lines ⟨1, 2⟩⟩, rfl, rfl, ?_⟩
  rw [List.append_assoc, printing, show "\n;" = "\n" ++ ";" from rfl, ← String.append_assoc]
  exact whole

end ScopeScript
