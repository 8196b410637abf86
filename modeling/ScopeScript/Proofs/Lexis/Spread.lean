import ScopeScript.Proofs.Lexis.Seam
import ScopeScript.Proofs.Lexis.Sorted

namespace ScopeScript

-- What may stand behind a token without running into it.
def Apart (rest : List Char) : Prop := ∀ b ∈ rest.head?, Piece.isBlank b = true

namespace Lexeme

variable {kind : TokenKind} {text tail rest : List Char}

theorem slash (lexeme : Lexeme (.token kind) ('/' :: tail)) : tail = [] := by
  generalize whole : '/' :: tail = text at lexeme
  cases lexeme with
  | mark m => cases m with
    | slash => cases whole; rfl
    | _ => cases whole
  | whole _ digits => exact absurd (digits '/' (whole ▸ List.mem_cons_self)) (by decide)
  | fraction nonempty digits =>
    obtain ⟨d, ds, rfl⟩ := List.exists_cons_of_ne_nil nonempty
    obtain ⟨rfl, -⟩ := List.cons.inj whole
    exact absurd (digits '/' List.mem_cons_self) (by decide)
  | keyword k => cases k <;> cases whole
  | identifier opens =>
    obtain ⟨rfl, -⟩ := List.cons.inj whole
    exact absurd opens (by decide)
  | string => cases whole

theorem quote (lexeme : Lexeme (.token kind) ('\x22' :: tail)) : '\x22' ∈ tail := by
  generalize whole : '\x22' :: tail = text at lexeme
  cases lexeme with
  | mark m => cases m <;> cases whole
  | whole _ digits => exact absurd (digits '\x22' (whole ▸ List.mem_cons_self)) (by decide)
  | fraction nonempty digits =>
    obtain ⟨d, ds, rfl⟩ := List.exists_cons_of_ne_nil nonempty
    obtain ⟨rfl, -⟩ := List.cons.inj whole
    exact absurd (digits '\x22' List.mem_cons_self) (by decide)
  | keyword k => cases k <;> cases whole
  | identifier opens =>
    obtain ⟨rfl, -⟩ := List.cons.inj whole
    exact absurd opens (by decide)
  | string =>
    cases whole
    exact List.mem_append_right _ List.mem_cons_self

-- A token opens nothing that goes on behind it.
theorem closed_apart (lexeme : Lexeme (.token kind) text) (apart : Apart rest) (k : PieceKind) :
    ¬ Unclosed k (text ++ rest) := by
  obtain ⟨c, tail, rfl⟩ := lexeme.nonempty
  intro open_
  generalize whole : c :: tail ++ rest = source at open_
  cases open_ with
  | string unquoted =>
    cases whole
    exact unquoted (List.mem_append_left _ lexeme.quote)
  | comment endless =>
    obtain ⟨rfl, same⟩ := List.cons.inj whole
    cases lexeme.slash
    have starts : rest = '*' :: _ := same
    exact absurd (apart '*' (by rw [starts]; rfl)) (by decide)

-- Nothing longer starts where a token does that a blank or the end stands behind.
theorem longest_apart (lexeme : Lexeme (.token kind) text) (apart : Apart rest) {k : PieceKind} {other : List Char}
    (standing : Lexeme k other) (stands : other <+: text ++ rest) : other.length ≤ text.length := by
  obtain ⟨c, tail, rfl⟩ := lexeme.nonempty
  obtain ⟨behind, same⟩ := stands
  rcases List.append_eq_append_iff.mp same with ⟨left, inside, _⟩ | ⟨across, rfl, starts⟩
  · rw [inside, List.length_append]
    exact Nat.le_add_right _ _
  · cases across with
    | nil => simp
    | cons b across =>
      have blank := apart b (by rw [starts]; rfl)
      rcases standing.passes blank (List.cons_ne_nil _ _) with ⟨k, open_⟩ | ⟨⟨body, comment⟩, _⟩
      · have closed := lexeme.closed_apart (show Apart [] from nofun) k
        rw [List.append_nil] at closed
        exact absurd open_ closed
      · cases comment
        cases lexeme.slash

theorem munched_apart (lexeme : Lexeme (.token kind) text) (apart : Apart rest) : Munched ⟨.token kind, text⟩ rest :=
  .lexeme lexeme (lexeme.closed_apart apart) fun _ _ standing stands => lexeme.longest_apart apart standing stands

end Lexeme

def IsGap (gap : List Char) : Prop := ∀ b ∈ gap, Piece.isBlank b = true

-- A gap leaves blanks only.
theorem Cut.behindGap {gap rest : List Char} {ps : List Piece} (blank : IsGap gap) (cut : Cut rest ps) :
    Cut (gap ++ rest) (gap.map (fun b => ⟨.blank, [b]⟩) ++ ps) := by
  induction gap with
  | nil => exact cut
  | cons b gap ih =>
    have here := Piece.first_munched b (gap ++ rest)
    rw [Piece.first_blank (blank b List.mem_cons_self)] at here
    exact .cons here (ih fun c later => blank c (List.mem_cons_of_mem _ later))

-- What a token says, wherever it stands.
def Token.content (t : Token) : TokenKind × String := (t.kind, t.lexeme)

def Piece.content? (piece : Piece) : Option (TokenKind × String) :=
  match piece.kind with
  | .token kind => some (kind, String.ofList piece.text)
  | _ => none

def Piece.isFaultless (piece : Piece) : Bool :=
  match piece.kind with
  | .token _ | .blank | .comment => true
  | _ => false

theorem itemsFrom_contents (place : Position) {ps : List Piece} (faultless : ∀ piece ∈ ps, piece.isFaultless = true) :
    (itemsFrom place ps).filterMap Item.fault? = [] ∧
      ((itemsFrom place ps).filterMap Item.token?).map Token.content = ps.filterMap Piece.content? ++ [(.stop, "")] := by
  induction ps generalizing place with
  | nil => exact ⟨rfl, rfl⟩
  | cons piece ps ih =>
    obtain ⟨sound, others⟩ := List.forall_mem_cons.mp faultless
    obtain ⟨nothing, contents⟩ := ih (place.past piece.text) others
    rw [itemsFrom, List.filterMap_append, List.filterMap_append, List.map_append, nothing, contents]
    obtain ⟨kind, text⟩ := piece
    cases kind with
    | token | blank | comment => exact ⟨rfl, rfl⟩
    | _ => cases sound

-- Tokens one behind the other, with the gaps in front of them counted on and the last gap behind them.
def spread (gap : Nat → String) : Nat → List Token → String
  | n, [] => gap n
  | n, t :: rest => gap n ++ (t.lexeme ++ spread gap (n + 1) rest)

section

variable {gap : Nat → String} {body : List Token}

theorem spread_apart (blank : ∀ n, IsGap (gap n).toList) (n : Nat) (parted : body ≠ [] → gap n ≠ "") :
    Apart (spread gap n body).toList := by
  cases body with
  | nil => exact fun b first => blank n b (List.mem_of_mem_head? first)
  | cons t rest =>
    intro b first
    have some : (gap n).toList ≠ [] := fun none => parted (List.cons_ne_nil _ _) (String.toList_eq_nil_iff.mp none)
    rw [spread, String.toList_append, List.head?_append_of_ne_nil _ some] at first
    exact blank n b (List.mem_of_mem_head? first)

-- The pieces of what is spread out are the tokens and blanks between them.
theorem spread_cut (lexemes : ∀ t ∈ body, Lexeme (.token t.kind) t.lexeme.toList)
    (blank : ∀ n, IsGap (gap n).toList) (n : Nat) (parted : ∀ m, n < m → m < n + body.length → gap m ≠ "") :
    ∃ ps, Cut (spread gap n body).toList ps ∧ (∀ piece ∈ ps, piece.isFaultless = true) ∧
      ps.filterMap Piece.content? = body.map Token.content := by
  have blanks : ∀ cs : List Char, ∀ piece ∈ cs.map (Piece.mk .blank [·]), piece.isFaultless = true ∧ piece.content? = none := by
    intro cs piece member
    obtain ⟨b, -, rfl⟩ := List.mem_map.mp member
    exact ⟨rfl, rfl⟩
  have silent (cs : List Char) : (cs.map (Piece.mk .blank [·])).filterMap Piece.content? = [] :=
    List.filterMap_eq_nil_iff.mpr fun piece member => (blanks cs piece member).2
  induction body generalizing n with
  | nil =>
    refine ⟨_, by simpa [spread] using Cut.behindGap (blank n) .nil, fun piece member => ?_, ?_⟩
    · exact (blanks _ piece (by simpa using member)).1
    · simpa using silent (gap n).toList
  | cons t rest ih =>
    obtain ⟨lexeme, others⟩ := List.forall_mem_cons.mp lexemes
    obtain ⟨ps, cut, faultless, contents⟩ := ih others (n + 1) fun m later small =>
      parted m (by omega) (by rw [List.length_cons]; omega)
    have apart : Apart (spread gap (n + 1) rest).toList := spread_apart blank (n + 1) fun more =>
      parted (n + 1) (Nat.lt_succ_self n) (by
        have := List.length_pos_iff.mpr more
        rw [List.length_cons]
        omega)
    refine ⟨(gap n).toList.map (Piece.mk .blank [·]) ++ ⟨.token t.kind, t.lexeme.toList⟩ :: ps, ?_, ?_, ?_⟩
    · rw [spread, String.toList_append, String.toList_append]
      exact Cut.behindGap (blank n) (.cons (lexeme.munched_apart apart) cut)
    · intro piece member
      rcases List.mem_append.mp member with before | here
      · exact (blanks _ piece before).1
      · rcases List.mem_cons.mp here with rfl | later
        · rfl
        · exact faultless piece later
    · rw [List.filterMap_append, silent, List.nil_append, List.filterMap_cons_some (b := t.content) (by simp [Piece.content?, Token.content]),
        contents, List.map_cons]

end

-- Layout means nothing: the lexemes of a source without faults, with blanks between any two of them and as
-- one likes at both ends, are its tokens again.
theorem tokens_respread {source : String} {ts : List Token} (scanned : tokens source = .ok ts) (gap : Nat → String)
    (blank : ∀ n, ∀ b ∈ (gap n).toList, Piece.isBlank b = true)
    (parted : ∀ n, 0 < n → n < (ts.filter fun t => !t.isStop).length → gap n ≠ "") :
    ∃ us, tokens (spread gap 0 (ts.filter fun t => !t.isStop)) = .ok us ∧ us.map Token.content = ts.map Token.content := by
  obtain ⟨body, stop, rfl, ended, inner, -⟩ := tokens_sorted scanned
  have lexemes : ∀ t ∈ body, Lexeme (.token t.kind) t.lexeme.toList := fun t member =>
    (tokens_lexemes scanned t (List.mem_append_left _ member)).resolve_right fun ⟨place, same⟩ => by
      have := inner t member
      rw [same] at this
      cases this
  have last : stop.content = (.stop, "") := by
    rcases tokens_lexemes scanned stop (List.mem_append_right _ List.mem_cons_self) with lexeme | ⟨place, rfl⟩
    · rw [Token.isStop, beq_iff_eq] at ended
      rw [ended] at lexeme
      cases lexeme
    · rfl
  have kept : (body ++ [stop]).filter (fun t => !t.isStop) = body := by
    rw [List.filter_append, List.filter_eq_self.mpr (by simpa using inner)]
    simp [ended]
  rw [kept] at parted ⊢
  obtain ⟨ps, cut, faultless, contents⟩ := spread_cut lexemes blank 0 (by simpa using parted)
  obtain ⟨silent, said⟩ := itemsFrom_contents .start faultless
  rw [cut.unique, ← items_from] at silent said
  refine ⟨_, tokens_ok_iff.mpr ⟨silent, rfl⟩, ?_⟩
  rw [said, ← cut.unique, contents, List.map_append, List.map_singleton, last]

-- Neither the slash nor the two marks run into what stood behind a blank.
theorem tokens_respread_marks : ∃ ts us,
    tokens "a/ /**/\"//\"! =1 .b" = .ok ts ∧
      spread (fun n => if n = 0 then "" else "\r\n") 0 (ts.filter fun t => !t.isStop) =
        "a\r\n/\r\n\"//\"\r\n!\r\n=\r\n1\r\n.\r\nb\r\n" ∧
      tokens "a\r\n/\r\n\"//\"\r\n!\r\n=\r\n1\r\n.\r\nb\r\n" = .ok us ∧
      us.map Token.content = ts.map Token.content := by
  have scanned : tokens "a/ /**/\"//\"! =1 .b" = .ok [⟨.identifier, "a", ⟨1, 1⟩⟩, ⟨.mark .slash, "/", ⟨1, 2⟩⟩,
      ⟨.string "//", "\"//\"", ⟨1, 8⟩⟩, ⟨.mark .bang, "!", ⟨1, 12⟩⟩, ⟨.mark .equal, "=", ⟨1, 14⟩⟩,
      ⟨.number (Decimal.ofDigits ['1'] []), "1", ⟨1, 15⟩⟩, ⟨.mark .dot, ".", ⟨1, 17⟩⟩, ⟨.identifier, "b", ⟨1, 18⟩⟩,
      ⟨.stop, "", ⟨1, 19⟩⟩] := by
    decide +kernel
  obtain ⟨us, found, same⟩ := tokens_respread scanned (fun n => if n = 0 then "" else "\r\n")
    (fun n => by
      split
      · nofun
      · exact List.all_eq_true.mp rfl)
    (fun n positive _ => by simp [Nat.ne_of_gt positive])
  exact ⟨_, us, scanned, by decide +kernel, found, same⟩

end ScopeScript
