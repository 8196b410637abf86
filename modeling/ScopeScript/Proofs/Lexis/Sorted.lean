import ScopeScript.Proofs.Lexis.Iterate
import ScopeScript.Proofs.Grammar.Order

namespace ScopeScript

namespace Position

theorem before_refl (a : Position) : a.before a = true := by
  simp [before]

theorem before_step (place : Position) (c : Char) :
    place.before (place.step c) = true ∧ (place.step c).before place = false := by
  unfold step
  split
  · simp [before]
  · simp [before]

theorem before_past (place : Position) (text : List Char) : place.before (place.past text) = true := by
  induction text generalizing place with
  | nil => exact place.before_refl
  | cons c rest ih =>
    rw [past_cons]
    exact before_trans _ _ _ (place.before_step c).1 (ih (place.step c))

-- Any text moves the place on.
theorem past_not_before (place : Position) (text : List Char) (nonempty : text ≠ []) :
    (place.past text).before place = false := by
  cases text with
  | nil => contradiction
  | cons c rest =>
    rw [past_cons]
    refine Bool.eq_false_iff.mpr fun back => ?_
    have later := before_trans _ _ _ ((place.step c).before_past rest) back
    rw [(place.before_step c).2] at later
    cases later

end Position

namespace Piece

theorem ofLetter_kind (c : Char) (rest : List Char) : (ofLetter c rest).1.kind ≠ .token .stop := by
  unfold ofLetter
  dsimp only
  split
  · simp
  · simp

-- No piece stands for the end.
theorem first_kind (c : Char) (rest : List Char) : (first c rest).1.kind ≠ .token .stop := by
  have word := ofLetter_kind c rest
  unfold first ofSlash ofQuote ofDigit ofMark
  repeat' split
  all_goals first | exact word | simp

end Piece

theorem pieces_solid (source : List Char) :
    ∀ piece ∈ pieces source, piece.text ≠ [] ∧ piece.kind ≠ .token .stop := by
  fun_induction pieces source with
  | case1 => simp
  | case2 c rest cut ih =>
    intro piece member
    rcases List.mem_cons.mp member with rfl | later
    · exact ⟨Piece.first_text_ne_nil c rest, Piece.first_kind c rest⟩
    · exact ih piece later

theorem itemsFrom_sorted (ps : List Piece)
    (solid : ∀ piece ∈ ps, piece.text ≠ [] ∧ piece.kind ≠ .token .stop) (place : Position) :
    ∃ body stop, (itemsFrom place ps).filterMap Item.token? = body ++ [stop] ∧
      stop.isStop = true ∧ (∀ t ∈ body, t.isStop = false) ∧ body.Pairwise Token.Earlier ∧
      ∀ t ∈ body, place.before t.position = true := by
  induction ps generalizing place with
  | nil => exact ⟨[], ⟨.stop, "", place⟩, rfl, rfl, nofun, .nil, nofun⟩
  | cons piece rest ih =>
    obtain ⟨nonempty, kind⟩ := solid piece (List.mem_cons_self ..)
    obtain ⟨body, stop, same, ended, inner, sorted, behind⟩ :=
      ih (fun other member => solid other (List.mem_cons_of_mem _ member)) (place.past piece.text)
    have onward := place.before_past piece.text
    have farther : ∀ t ∈ body, place.before t.position = true :=
      fun t member => Position.before_trans _ _ _ onward (behind t member)
    have skipped : (piece.item? place).toList.filterMap Item.token? = [] → ∃ body stop,
        (itemsFrom place (piece :: rest)).filterMap Item.token? = body ++ [stop] ∧
          stop.isStop = true ∧ (∀ t ∈ body, t.isStop = false) ∧ body.Pairwise Token.Earlier ∧
          ∀ t ∈ body, place.before t.position = true := by
      intro nothing
      refine ⟨body, stop, ?_, ended, inner, sorted, farther⟩
      rw [itemsFrom, List.filterMap_append, nothing, same, List.nil_append]
    cases found : piece.kind with
    | token k =>
      refine ⟨⟨k, String.ofList piece.text, place⟩ :: body, stop, ?_, ended, ?_, ?_, ?_⟩
      · rw [itemsFrom, List.filterMap_append, same]
        simp [Piece.item?, found, Item.token?]
      · intro t member
        rcases List.mem_cons.mp member with rfl | later
        · have other : k ≠ .stop := fun h => kind (found.trans (congrArg _ h))
          simp [Token.isStop, other]
        · exact inner t later
      · refine List.pairwise_cons.mpr ⟨fun t member => ?_, sorted⟩
        refine Bool.eq_false_iff.mpr fun back => ?_
        have wrong := Position.before_trans _ _ _ (behind t member) back
        rw [place.past_not_before piece.text nonempty] at wrong
        cases wrong
      · intro t member
        rcases List.mem_cons.mp member with rfl | later
        · exact place.before_refl
        · exact farther t later
    | _ => exact skipped (by simp [Piece.item?, found, Item.token?])

-- The tokens of a source stand in order, and only the last one is the end.
theorem tokens_sorted (scanned : tokens source = .ok ts) :
    ∃ body stop, ts = body ++ [stop] ∧ stop.isStop = true ∧ (∀ t ∈ body, t.isStop = false) ∧
      body.Pairwise Token.Earlier := by
  unfold tokens at scanned
  simp only [items_from] at scanned
  split at scanned
  · cases scanned
    obtain ⟨body, stop, same, ended, inner, sorted, _⟩ :=
      itemsFrom_sorted _ (pieces_solid source.toList) .start
    exact ⟨body, stop, same, ended, inner, sorted⟩
  · cases scanned

end ScopeScript
