import ScopeScript.Lexis.Scan

namespace ScopeScript

-- The items of pieces that start at a place, closed by one token for the end.
def itemsFrom : Position → List Piece → List Item
  | place, [] => [.token ⟨.stop, "", place⟩]
  | place, piece :: rest => (piece.item? place).toList ++ itemsFrom (place.past piece.text) rest

namespace Scanner

-- What the request after a number of others yields.
def request (s : Scanner) : Nat → Option Item
  | 0 => s.next.1
  | n + 1 => s.next.2.request n

theorem items_none (s : Scanner) (found : s.next.1 = none) : s.items = [] := by
  unfold items
  split
  · rfl
  · rename_i yielded
    rw [found] at yielded
    cases yielded

theorem items_some (s : Scanner) (item : Item) (found : s.next.1 = some item) :
    s.items = item :: s.next.2.items := by
  rw [items]
  split
  · rename_i yielded
    rw [found] at yielded
    cases yielded
  · rename_i other yielded
    rw [found] at yielded
    cases yielded
    rfl

theorem items_congr {s t : Scanner} (same : s.next = t.next) : s.items = t.items := by
  cases found : t.next.1 with
  | none => rw [items_none t found, items_none s (same ▸ found)]
  | some item => rw [items_some t item found, items_some s item (same ▸ found), same]

theorem next_end (place : Position) :
    (Scanner.mk (some []) place).next = (some (.token ⟨.stop, "", place⟩), ⟨none, place⟩) := by
  rw [next]

theorem next_ended (place : Position) : (Scanner.mk none place).next = (none, ⟨none, place⟩) := by
  rw [next]

-- A piece with an item yields it; any other leaves the request to what is behind it.
theorem next_yields {c : Char} {rest : List Char} {place : Position} {item : Item}
    (told : (Piece.first c rest).1.item? place = some item) :
    (Scanner.mk (some (c :: rest)) place).next =
      (some item, ⟨some (Piece.first c rest).2, place.past (Piece.first c rest).1.text⟩) := by
  rw [next]
  simp only [told]

theorem next_skips {c : Char} {rest : List Char} {place : Position}
    (nothing : (Piece.first c rest).1.item? place = none) :
    (Scanner.mk (some (c :: rest)) place).next =
      (Scanner.mk (some (Piece.first c rest).2) (place.past (Piece.first c rest).1.text)).next := by
  rw [next]
  simp only [nothing]

-- Only the end of a source that was given out leaves nothing to yield.
theorem next_none (s : Scanner) (found : s.next.1 = none) : s.left = none := by
  fun_induction next s with
  | case1 => rfl
  | case2 => cases found
  | case3 => cases found
  | case4 _ _ _ _ _ _ ih => cases ih found

-- Requests yield the items in order, then nothing.
theorem request_items (s : Scanner) (n : Nat) : s.request n = s.items[n]? := by
  induction n generalizing s with
  | zero =>
    cases found : s.next.1 with
    | none => rw [request, found, s.items_none found, List.getElem?_nil]
    | some item => rw [request, found, s.items_some item found, List.getElem?_cons_zero]
  | succ n ih =>
    rw [request, ih]
    cases found : s.next.1 with
    | none =>
      have ended := s.next_none found
      obtain ⟨left, place⟩ := s
      cases ended
      rw [next_ended, items_none _ found, List.getElem?_nil, List.getElem?_nil]
    | some item => rw [s.items_some item found, List.getElem?_cons_succ]

theorem items_pieces (source : List Char) (place : Position) :
    (Scanner.mk (some source) place).items = itemsFrom place (pieces source) := by
  fun_induction pieces source generalizing place with
  | case1 =>
    rw [items_some _ _ (congrArg Prod.fst (next_end place)), next_end, itemsFrom]
    rw [items_none _ (congrArg Prod.fst (next_ended place))]
  | case2 c rest cut ih =>
    rw [itemsFrom, ← ih]
    cases told : cut.1.item? place with
    | none => exact items_congr (next_skips told)
    | some item =>
      rw [items_some _ item (congrArg Prod.fst (next_yields told)), next_yields told]
      rfl

end Scanner

theorem items_from (source : String) : items source = itemsFrom .start (pieces source.toList) :=
  Scanner.items_pieces source.toList .start

end ScopeScript
