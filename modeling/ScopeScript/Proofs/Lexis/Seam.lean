import ScopeScript.Proofs.Grammar.Rename
import ScopeScript.Proofs.Lexis.Placed

namespace ScopeScript

-- What stays unclosed up to the end of a line is unclosed without what follows.
theorem Unclosed.upToLine {kind : PieceKind} {before behind : List Char} (open_ : Unclosed kind (before ++ '\n' :: behind))
    (nonempty : before ≠ []) : Unclosed kind before := by
  obtain ⟨c, more, rfl⟩ := List.exists_cons_of_ne_nil nonempty
  rw [List.cons_append] at open_
  generalize whole : c :: (more ++ '\n' :: behind) = text at open_
  cases open_ with
  | string unquoted =>
    cases whole
    exact .string fun member => unquoted (List.mem_append_left _ member)
  | comment endless =>
    cases more with
    | nil => cases whole
    | cons d more =>
      cases whole
      exact .comment fun inside => endless (inside.trans (List.prefix_append _ _).isInfix)

theorem Mark.spelling_solid (m : Mark) : ∀ c ∈ m.spelling.toList, Piece.isBlank c = false := by
  have solid : m.spelling.toList.all (!Piece.isBlank ·) = true := by cases m <;> rfl
  simpa using solid

theorem Keyword.spelling_solid (k : Keyword) : ∀ c ∈ k.spelling.toList, Piece.isBlank c = false := by
  have solid : k.spelling.toList.all (!Piece.isBlank ·) = true := by cases k <;> rfl
  simpa using solid

theorem Piece.isBlank_bare {c : Char} (blank : isBlank c = true) :
    c.isDigit = false ∧ startsWord c = false ∧ inWord c = false ∧ c ∉ ['\x22', '*', '/'] := by
  rcases isBlank_cases blank with rfl | rfl | rfl | rfl <;> decide

-- Only strings and comments go on past a blank, and line comments not past the end of a line.
theorem Lexeme.passes {kind : PieceKind} {before behind : List Char} {b : Char} (blank : Piece.isBlank b = true)
    (lexeme : Lexeme kind (before ++ b :: behind)) (nonempty : before ≠ []) :
    (∃ k, Unclosed k before) ∨ (∃ body, before = '/' :: '/' :: body) ∧ b ≠ '\n' := by
  obtain ⟨undigit, unstart, unword, plain⟩ := Piece.isBlank_bare blank
  have unspelled {text : List Char} (solid : ∀ c ∈ text, Piece.isBlank c = false) : b ∉ text := fun inside =>
    absurd (solid b inside) (by simp [blank])
  obtain ⟨c, more, rfl⟩ := List.exists_cons_of_ne_nil nonempty
  generalize whole : c :: more ++ b :: behind = text at lexeme
  have gap : b ∈ text := by
    rw [← whole]
    exact List.mem_append_right _ List.mem_cons_self
  rw [List.cons_append] at whole
  cases lexeme with
  | mark m => exact absurd gap (unspelled m.spelling_solid)
  | whole _ digits => exact absurd (digits _ gap) (by simp [undigit])
  | fraction _ digits _ moreDigits =>
    rcases List.mem_append.mp gap with first | second
    · exact absurd (digits _ first) (by simp [undigit])
    · rcases List.mem_cons.mp second with rfl | later
      · exact absurd blank (by decide)
      · exact absurd (moreDigits _ later) (by simp [undigit])
  | keyword k => exact absurd gap (unspelled k.spelling_solid)
  | identifier opens inside =>
    rcases List.mem_cons.mp gap with first | later
    · exact absurd (first ▸ opens) (by simp [unstart])
    · exact absurd (inside _ later) (by simp [unword])
  | string unquoted =>
    obtain ⟨rfl, same⟩ := List.cons.inj whole
    rcases List.append_eq_append_iff.mp same with ⟨after, rfl, _⟩ | ⟨last, _, closing⟩
    · exact .inl ⟨_, .string fun member => unquoted (List.mem_append_left _ member)⟩
    · have inside : b ∈ ['\x22'] := closing ▸ List.mem_append_right _ List.mem_cons_self
      exact absurd (List.mem_cons.mpr (.inl (List.mem_singleton.mp inside))) plain
  | blank =>
    obtain ⟨_, same⟩ := List.cons.inj whole
    exact absurd same (List.append_ne_nil_of_right_ne_nil _ (List.cons_ne_nil _ _))
  | lineComment oneLine =>
    obtain ⟨rfl, same⟩ := List.cons.inj whole
    cases more with
    | nil => exact absurd (by simp [(List.cons.inj same).1]) plain
    | cons d more =>
      obtain ⟨rfl, rfl⟩ := List.cons.inj same
      exact .inr ⟨⟨more, rfl⟩, fun feed => oneLine (feed ▸ List.mem_append_right _ List.mem_cons_self)⟩
  | blockComment first =>
    obtain ⟨rfl, same⟩ := List.cons.inj whole
    cases more with
    | nil => exact absurd (by simp [(List.cons.inj same).1]) plain
    | cons d more =>
      obtain ⟨rfl, inner⟩ := List.cons.inj same
      rcases List.append_eq_append_iff.mp inner with ⟨after, rfl, _⟩ | ⟨last, _, closing⟩
      · refine .inl ⟨_, .comment fun inside => first (inside.trans ?_)⟩
        rw [List.append_assoc]
        exact (List.prefix_append _ _).isInfix
      · have inside : b ∈ ['*', '/'] := closing ▸ List.mem_append_right _ List.mem_cons_self
        exact absurd (List.mem_cons_of_mem _ inside) plain

-- A lexeme that starts a source and its next line is within the source, where nothing stays unclosed.
theorem Lexeme.inLine {kind : PieceKind} {source behind text : List Char} (lexeme : Lexeme kind text)
    (stands : text <+: source ++ '\n' :: behind) (nonempty : source ≠ []) (closed : ∀ k, ¬ Unclosed k source) :
    text <+: source := by
  obtain ⟨more, same⟩ := stands
  rcases List.append_eq_append_iff.mp same with ⟨left, inside, _⟩ | ⟨across, rfl, starts⟩
  · exact ⟨left, inside.symm⟩
  · cases across with
    | nil => simp
    | cons d across =>
      cases starts
      rcases lexeme.passes (by decide) nonempty with ⟨k, open_⟩ | ⟨_, other⟩
      · exact absurd open_ (closed k)
      · exact absurd rfl other

-- Neither a string nor a comment that goes on to the end.
def Piece.isClosed (piece : Piece) : Bool :=
  match piece.kind with
  | .openString | .openComment => false
  | _ => true

-- What the scanner takes before the end of a line it takes whatever line follows.
theorem Munched.beforeLine {piece : Piece} {rest : List Char} (munched : Munched piece rest)
    (whole : piece.isClosed = true) (behind : List Char) : Munched piece (rest ++ '\n' :: behind) := by
  cases munched with
  | unclosed open_ => cases open_ <;> cases whole
  | @stray c _ closed none =>
    have nonempty : c :: rest ≠ [] := List.cons_ne_nil _ _
    refine .stray (fun k open_ => closed k (open_.upToLine nonempty)) fun k other standing stands => ?_
    exact none k other standing (standing.inLine stands nonempty closed)
  | @lexeme kind text _ lexeme closed longest =>
    obtain ⟨c, tail, rfl⟩ := lexeme.nonempty
    have nonempty : c :: tail ++ rest ≠ [] := List.cons_ne_nil _ _
    refine .lexeme lexeme (fun k open_ => ?_) fun k other standing stands => ?_
    · rw [← List.append_assoc] at open_
      exact closed k (open_.upToLine nonempty)
    · rw [← List.append_assoc] at stands
      exact longest k other standing (standing.inLine stands nonempty closed)

-- A source where nothing stays unclosed and what follows on a new line are cut apart.
theorem Cut.onNewLine {source behind : List Char} {ps qs : List Piece} (cut : Cut source ps)
    (whole : ∀ piece ∈ ps, piece.isClosed = true) (next : Cut behind qs) :
    Cut (source ++ '\n' :: behind) (ps ++ ⟨.blank, ['\n']⟩ :: qs) := by
  induction cut with
  | nil =>
    have feed := Piece.first_munched '\n' behind
    rw [Piece.first_blank (by decide)] at feed
    exact .cons feed next
  | @cons piece rest ps munched _ ih =>
    have later := ih fun other member => whole other (List.mem_cons_of_mem _ member)
    rw [List.append_assoc]
    exact .cons (munched.beforeLine (whole piece List.mem_cons_self) behind) later

def Item.rename (ρ : Renaming) : Item → Item
  | .token t => .token (t.rename ρ)
  | .fault f => .fault { f with position := ρ.place f.position }

-- The new places of a text that starts somewhere in a region follow one another as the old ones do.
def Renaming.Carries (ρ : Renaming) (region : Position → Prop) : Prop := ∀ place c, region place →
  region (place.step c) ∧ (ρ.place place).step c = ρ.place (place.step c)

theorem Renaming.Carries.past {ρ : Renaming} {region : Position → Prop} (carries : ρ.Carries region) {place : Position}
    (inside : region place) (text : List Char) :
    region (place.past text) ∧ (ρ.place place).past text = ρ.place (place.past text) := by
  induction text generalizing place with
  | nil => exact ⟨inside, rfl⟩
  | cons c text ih =>
    obtain ⟨stays, same⟩ := carries place c inside
    rw [Position.past_cons, Position.past_cons, same]
    exact ih stays

theorem Piece.item?_rename (ρ : Renaming) (piece : Piece) (place : Position) :
    piece.item? (ρ.place place) = (piece.item? place).map (Item.rename ρ) := by
  obtain ⟨kind, text⟩ := piece
  cases kind <;> rfl

theorem itemsFrom_rename {ρ : Renaming} {region : Position → Prop} (carries : ρ.Carries region) {place : Position}
    (inside : region place) (ps : List Piece) :
    itemsFrom (ρ.place place) ps = (itemsFrom place ps).map (Item.rename ρ) := by
  induction ps generalizing place with
  | nil => rfl
  | cons piece ps ih =>
    obtain ⟨stays, same⟩ := carries.past inside piece.text
    rw [itemsFrom, itemsFrom, same, ih stays, List.map_append, Piece.item?_rename]
    cases piece.item? place <;> rfl

-- Lines count on from those before.
def Position.lower (lines : Nat) (place : Position) : Position := ⟨place.line + lines, place.column⟩

def Renaming.lower (lines : Nat) : Renaming := ⟨id, .lower lines⟩

theorem Renaming.lower_carries (lines : Nat) : (lower lines).Carries fun _ => True := by
  refine fun place c _ => ⟨trivial, ?_⟩
  unfold lower Position.lower Position.step
  dsimp only
  split
  · rw [Nat.add_right_comm]
  · rfl

-- The items of pieces with others behind them.
theorem itemsFrom_append (place : Position) (ps : List Piece) : ∃ body,
    itemsFrom place ps = body ++ [.token ⟨.stop, "", place.past (ps.flatMap Piece.text)⟩] ∧
      ∀ qs, itemsFrom place (ps ++ qs) = body ++ itemsFrom (place.past (ps.flatMap Piece.text)) qs := by
  induction ps generalizing place with
  | nil => exact ⟨[], rfl, fun _ => rfl⟩
  | cons piece ps ih =>
    obtain ⟨body, alone, followed⟩ := ih (place.past piece.text)
    refine ⟨(piece.item? place).toList ++ body, ?_, fun qs => ?_⟩
    · rw [itemsFrom, alone, List.append_assoc, List.flatMap_cons, Position.past_append]
    · rw [List.cons_append, itemsFrom, followed, List.append_assoc, List.flatMap_cons, Position.past_append]

-- Only a string or a comment that goes on to the end makes the one fault or the other.
theorem itemsFrom_closed {place : Position} {ps : List Piece} (closed : ∀ f, .fault f ∈ itemsFrom place ps →
    f.cause ≠ .openString ∧ f.cause ≠ .openComment) : ∀ piece ∈ ps, piece.isClosed = true := by
  induction ps generalizing place with
  | nil => nofun
  | cons piece ps ih =>
    refine List.forall_mem_cons.mpr ⟨?_, ih fun f later => closed f (List.mem_append_right _ later)⟩
    obtain ⟨kind, text⟩ := piece
    cases kind with
    | openString => exact absurd rfl (closed ⟨.openString, place⟩ List.mem_cons_self).1
    | openComment => exact absurd rfl (closed ⟨.openComment, place⟩ List.mem_cons_self).2
    | _ => rfl

-- The items of a source that leaves nothing unclosed and, on a new line, another one: only the end of
-- the first is lost, and the second stands lower.
theorem items_onNewLine {first : String} (closed : ∀ f, .fault f ∈ items first →
    f.cause ≠ .openString ∧ f.cause ≠ .openComment) (second : String) : ∃ body,
      items first = body ++ [.token ⟨.stop, "", .counted first.toList⟩] ∧
        items (first ++ "\n" ++ second) =
          body ++ (items second).map (Item.rename (.lower (Position.counted first.toList).line)) := by
  rw [items_from] at closed
  have cut := (cut_pieces first.toList).onNewLine (itemsFrom_closed closed) (cut_pieces second.toList)
  obtain ⟨body, alone, followed⟩ := itemsFrom_append .start (pieces first.toList)
  rw [pieces_cover, ← Position.counted_nil, Position.counted_past, List.nil_append, Position.counted_nil] at alone followed
  have seam : (Position.counted first.toList).past ['\n'] =
      (Renaming.lower (Position.counted first.toList).line).place .start := by
    show (Position.counted first.toList).step '\n' = _
    simp [Position.step, Renaming.lower, Position.lower, Position.start, Nat.add_comm]
  have text : (first ++ "\n" ++ second).toList = first.toList ++ '\n' :: second.toList := by simp
  refine ⟨body, by rw [items_from, alone], ?_⟩
  rw [items_from, text, ← cut.unique, followed]
  show body ++ itemsFrom ((Position.counted first.toList).past ['\n']) (pieces second.toList) = _
  rw [seam, itemsFrom_rename (Renaming.lower_carries _) trivial, items_from]

section

variable (ρ : Renaming)

theorem Item.rename_fault? (item : Item) : (item.rename ρ).fault? =
    item.fault?.map fun f => { f with position := ρ.place f.position } := by
  cases item <;> rfl

theorem Item.rename_token? (item : Item) : (item.rename ρ).token? = item.token?.map (Token.rename ρ) := by
  cases item <;> rfl

end

theorem tokens_ok_iff {source : String} {ts : List Token} : tokens source = .ok ts ↔
    (items source).filterMap Item.fault? = [] ∧ (items source).filterMap Item.token? = ts := by
  unfold tokens
  dsimp only
  split
  · rename_i faultless
    rw [faultless]
    exact ⟨fun same => ⟨rfl, Except.ok.inj same⟩, fun both => congrArg _ both.2⟩
  · rename_i faulty
    exact ⟨nofun, fun both => absurd both.1 faulty⟩

-- The tokens of a source whose items are some without a fault and those of another one, moved.
theorem tokens_behind {whole second : String} {body : List Item} {us : List Token} {ρ : Renaming}
    (same : items whole = body ++ (items second).map (Item.rename ρ)) (faultless : body.filterMap Item.fault? = [])
    (scanned : tokens second = .ok us) :
    tokens whole = .ok (body.filterMap Item.token? ++ us.map (Token.rename ρ)) := by
  obtain ⟨faultless', rfl⟩ := tokens_ok_iff.mp scanned
  refine tokens_ok_iff.mpr ⟨?_, ?_⟩
  · rw [same, List.filterMap_append, faultless, List.nil_append, List.filterMap_map]
    simp only [Function.comp_def, Item.rename_fault?]
    rw [← List.map_filterMap, faultless', List.map_nil]
  · rw [same, List.filterMap_append, List.filterMap_map]
    simp only [Function.comp_def, Item.rename_token?]
    rw [← List.map_filterMap]

-- The same of the tokens of sources without faults.
theorem tokens_onNewLine {first second : String} {ts us : List Token} (one : tokens first = .ok ts)
    (other : tokens second = .ok us) : ∃ body stop lines, ts = body ++ [stop] ∧
      tokens (first ++ "\n" ++ second) = .ok (body ++ us.map (Token.rename (.lower lines))) := by
  obtain ⟨faultless, rfl⟩ := tokens_ok_iff.mp one
  have sound : ∀ item ∈ items first, item.fault? = none := List.filterMap_eq_nil_iff.mp faultless
  obtain ⟨body, alone, whole⟩ :=
    items_onNewLine (fun f member => absurd (sound _ member) (Option.some_ne_none f)) second
  rw [alone, List.filterMap_append] at faultless
  rw [alone, List.filterMap_append]
  exact ⟨body.filterMap Item.token?, _, _, rfl, tokens_behind whole (List.append_eq_nil_iff.mp faultless).1 other⟩

-- Scanning goes on behind the end of a line as it begins in front of the first one: what follows has its
-- own items, lower by the lines before, whatever it is.
theorem scanning_composes (first second : String) (closed : ∀ f, .fault f ∈ items first →
    f.cause ≠ .openString ∧ f.cause ≠ .openComment) : ∃ body place,
      items first = body ++ [.token ⟨.stop, "", place⟩] ∧
        items (first ++ "\n" ++ second) =
          body ++ (items second).map (Item.rename (.lower (1 + first.toList.count '\n'))) := by
  obtain ⟨body, alone, whole⟩ := items_onNewLine closed second
  exact ⟨body, _, alone, whole⟩

-- The slashes at the seam are two, and the string behind it stays open.
theorem scanning_composes_slashes :
    (∀ f, .fault f ∈ items "$ a /" → f.cause ≠ .openString ∧ f.cause ≠ .openComment) ∧
      items ("$ a /" ++ "\n" ++ "/ \"b") =
        [.fault ⟨.stray '$', ⟨1, 1⟩⟩, .token ⟨.identifier, "a", ⟨1, 3⟩⟩, .token ⟨.mark .slash, "/", ⟨1, 5⟩⟩,
          .token ⟨.mark .slash, "/", ⟨2, 1⟩⟩, .fault ⟨.openString, ⟨2, 3⟩⟩, .token ⟨.stop, "", ⟨2, 5⟩⟩] := by
  have found : items "$ a /" = [.fault ⟨.stray '$', ⟨1, 1⟩⟩, .token ⟨.identifier, "a", ⟨1, 3⟩⟩,
      .token ⟨.mark .slash, "/", ⟨1, 5⟩⟩] ++ [.token ⟨.stop, "", ⟨1, 6⟩⟩] := by decide +kernel
  have closed : ∀ f, .fault f ∈ items "$ a /" → f.cause ≠ .openString ∧ f.cause ≠ .openComment := by
    intro f member
    rw [found] at member
    simp only [List.cons_append, List.nil_append, List.mem_cons, List.not_mem_nil, or_false, reduceCtorEq] at member
    cases member
    simp
  obtain ⟨body, place, alone, whole⟩ := scanning_composes "$ a /" "/ \"b" closed
  refine ⟨closed, whole.trans ?_⟩
  rw [found] at alone
  obtain ⟨rfl, -⟩ := List.append_inj' alone rfl
  decide +kernel

end ScopeScript
