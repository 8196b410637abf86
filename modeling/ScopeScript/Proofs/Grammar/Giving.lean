import ScopeScript.Grammar.Cursor

namespace ScopeScript

-- With the tokens w in front of the rest, the reader takes exactly w, notes no fault and gives
-- such a result, whatever comes before or behind.
def Reading.Gives (x : Reading α) (w rest : List Token) (good : α → Prop) : Prop :=
  ∀ stop next faults, ∃ a later,
    x ⟨w ++ rest, stop, next, faults⟩ = .ok a ⟨rest, stop, later, faults⟩ ∧ good a

-- No token of these kinds comes first.
def Bars (kinds : List TokenKind) (w : List Token) : Prop := ∀ t ∈ w.head?, t.kind ∉ kinds

theorem Bars.nil : Bars kinds [] := nofun

theorem Bars.cons {t : Token} (h : t.kind ∉ kinds) : Bars kinds (t :: w) := by
  rintro u same
  cases same
  exact h

theorem Bars.mono (h : Bars kinds w) (fewer : ∀ k ∈ others, k ∈ kinds) : Bars others w :=
  fun t first member => h t first (fewer _ member)

theorem Bars.refuses (h : Bars kinds w) (test : Token → Bool)
    (only : ∀ t, test t = true → t.kind ∈ kinds) : w.head?.any test = false := by
  cases w with
  | nil => rfl
  | cons t more =>
    cases passed : test t with
    | false => exact passed
    | true => exact absurd (only t passed) (h t rfl)

namespace Reading.Gives

variable {x : Reading α} {f : α → Reading β} {good : α → Prop} {goal : β → Prop}
  {v w rest : List Token}

theorem pure {a : α} (h : good a) : Gives (Pure.pure a) [] rest good :=
  fun _ next _ => ⟨a, next, rfl, h⟩

theorem bind (hx : Gives x v (w ++ rest) good) (hf : ∀ a, good a → Gives (f a) w rest goal) :
    Gives (x >>= f) (v ++ w) rest goal := by
  intro stop next faults
  obtain ⟨a, middle, first, goodA⟩ := hx stop next faults
  obtain ⟨b, later, second, goalB⟩ := hf a goodA stop middle faults
  refine ⟨b, later, ?_, goalB⟩
  rw [List.append_assoc]
  show EStateM.bind x f _ = _
  unfold EStateM.bind
  rw [first]
  exact second

theorem bindLast (hx : Gives x w rest good) (hf : ∀ a, good a → Gives (f a) [] rest goal) :
    Gives (x >>= f) w rest goal := by
  have both := bind (w := []) hx hf
  rwa [List.append_nil] at both

theorem map {g : α → β} (hx : Gives x w rest good) (h : ∀ a, good a → goal (g a)) :
    Gives (g <$> x) w rest goal := by
  intro stop next faults
  obtain ⟨a, later, same, goodA⟩ := hx stop next faults
  refine ⟨g a, later, ?_, h a goodA⟩
  show EStateM.map g x _ = _
  unfold EStateM.map
  rw [same]

theorem recovering (hx : Gives x w rest good) :
    Gives (Reading.recovering x) w rest fun o => ∃ a, o = some a ∧ good a := by
  intro stop next faults
  obtain ⟨a, later, same, goodA⟩ := hx stop next faults
  exact ⟨some a, later, by simp only [Reading.recovering, same], a, rfl, goodA⟩

-- What reads nothing leaves the rest to what follows it.
theorem skip {a : α} (nothing : ∀ c : Cursor, c.ahead = w ++ rest → x c = .ok a c)
    (hf : Gives (f a) w rest goal) : Gives (x >>= f) w rest goal := by
  intro stop next faults
  obtain ⟨b, later, same, goalB⟩ := hf stop next faults
  refine ⟨b, later, ?_, goalB⟩
  show EStateM.bind x f _ = _
  unfold EStateM.bind
  rw [nothing _ rfl]
  exact same

theorem accept_refused {test : Token → Bool} {c : Cursor} (refused : c.ahead.head?.any test = false) :
    Reading.accept? test c = .ok none c := by
  unfold Reading.accept?
  split
  · rfl
  · rename_i t more ahead
    rw [ahead] at refused
    have failed : test t = false := refused
    simp [failed]

theorem accept_taken {test : Token → Bool} {t : Token} (passed : test t = true) :
    Gives (Reading.accept? test) [t] rest fun o => o = some t := by
  intro stop next faults
  exact ⟨some t, next, by simp [Reading.accept?, passed], rfl⟩

-- A look for a token that stands there, and for one that does not.

theorem onToken {test : Token → Bool} {t : Token} {y : Token → Reading β} {z : Reading β}
    (passed : test t = true) (hy : Gives (y t) w rest goal) :
    Gives (Reading.accept? test >>= fun o => match o with | some t => y t | none => z)
      (t :: w) rest goal := by
  refine bind (v := [t]) (accept_taken passed) ?_
  rintro o rfl
  exact hy

theorem pastToken {test : Token → Bool} {y : Token → Reading β} {z : Reading β}
    (refused : (w ++ rest).head?.any test = false) (hz : Gives z w rest goal) :
    Gives (Reading.accept? test >>= fun o => match o with | some t => y t | none => z)
      w rest goal :=
  skip (a := none) (fun _ ahead => accept_refused (ahead ▸ refused)) hz

theorem acceptMark_taken {m : Mark} {t : Token} (kind : t.kind = .mark m) :
    Gives (Reading.acceptMark m) [t] rest fun b => b = true := by
  have passed : t.isMark m = true := by simp [Token.isMark, kind]
  refine bindLast (accept_taken passed) ?_
  rintro o rfl
  exact pure rfl

theorem acceptKeyword_taken {k : Keyword} {t : Token} (kind : t.kind = .keyword k) :
    Gives (Reading.acceptKeyword k) [t] rest fun b => b = true := by
  have passed : t.isKeyword k = true := by simp [Token.isKeyword, kind]
  refine bindLast (accept_taken passed) ?_
  rintro o rfl
  exact pure rfl

theorem onMark {m : Mark} {t : Token} {y z : Reading β} (kind : t.kind = .mark m)
    (hy : Gives y w rest goal) :
    Gives (Reading.acceptMark m >>= fun b => if b = true then y else z) (t :: w) rest goal := by
  refine bind (v := [t]) (acceptMark_taken kind) ?_
  rintro b rfl
  exact hy

theorem onKeyword {k : Keyword} {t : Token} {y z : Reading β} (kind : t.kind = .keyword k)
    (hy : Gives y w rest goal) :
    Gives (Reading.acceptKeyword k >>= fun b => if b = true then y else z) (t :: w) rest goal := by
  refine bind (v := [t]) (acceptKeyword_taken kind) ?_
  rintro b rfl
  exact hy

theorem acceptMark_refused {m : Mark} {c : Cursor} (barred : Bars [.mark m] c.ahead) :
    Reading.acceptMark m c = .ok false c := by
  have refused := barred.refuses (·.isMark m) fun t passed => by
    simpa [Token.isMark] using passed
  show EStateM.bind _ _ c = _
  unfold EStateM.bind
  rw [accept_refused refused]
  rfl

theorem acceptKeyword_refused {k : Keyword} {c : Cursor} (barred : Bars [.keyword k] c.ahead) :
    Reading.acceptKeyword k c = .ok false c := by
  have refused := barred.refuses (·.isKeyword k) fun t passed => by
    simpa [Token.isKeyword] using passed
  show EStateM.bind _ _ c = _
  unfold EStateM.bind
  rw [accept_refused refused]
  rfl

theorem pastMark {m : Mark} {y z : Reading β} (barred : Bars [.mark m] (w ++ rest))
    (hz : Gives z w rest goal) :
    Gives (Reading.acceptMark m >>= fun b => if b = true then y else z) w rest goal :=
  skip (a := false) (fun _ ahead => acceptMark_refused (ahead ▸ barred)) hz

theorem pastKeyword {k : Keyword} {y z : Reading β} (barred : Bars [.keyword k] (w ++ rest))
    (hz : Gives z w rest goal) :
    Gives (Reading.acceptKeyword k >>= fun b => if b = true then y else z) w rest goal :=
  skip (a := false) (fun _ ahead => acceptKeyword_refused (ahead ▸ barred)) hz

theorem expectMark_taken {m : Mark} {slot : Slot} {t : Token} (kind : t.kind = .mark m) :
    Gives (Reading.expectMark m slot) [t] rest (· = t) := by
  have passed : t.isMark m = true := by simp [Token.isMark, kind]
  refine bindLast (accept_taken passed) ?_
  rintro o rfl
  exact pure rfl

theorem expectName_taken {what : Named} {t : Token} (kind : t.kind = .identifier) :
    Gives (Reading.expectName what) [t] rest (· = t) := by
  have passed : t.isIdentifier = true := by simp [Token.isIdentifier, kind]
  refine bindLast (accept_taken passed) ?_
  rintro o rfl
  exact pure rfl

theorem mark {m : Mark} {slot : Slot} {t : Token} {y : Token → Reading β} (kind : t.kind = .mark m)
    (hy : Gives (y t) w rest goal) : Gives (Reading.expectMark m slot >>= y) (t :: w) rest goal := by
  refine bind (v := [t]) (expectMark_taken kind) ?_
  rintro u rfl
  exact hy

theorem name {what : Named} {t : Token} {y : Token → Reading β} (kind : t.kind = .identifier)
    (hy : Gives (y t) w rest goal) : Gives (Reading.expectName what >>= y) (t :: w) rest goal := by
  refine bind (v := [t]) (expectName_taken kind) ?_
  rintro u rfl
  exact hy

theorem seen {test : Token → Bool} {y z : Reading β} {b : Bool}
    (ahead : (w ++ rest).head?.any test = b) (hy : Gives (if b then y else z) w rest goal) :
    Gives (Reading.sees test >>= fun b => if b = true then y else z) w rest goal :=
  skip (a := b) (fun c same => by rw [Reading.sees, Cursor.sees, same, ahead]) hy

theorem fresh {f : RefId → Reading β} (hf : ∀ i, Gives (f i) w rest goal) :
    Gives (Reading.fresh >>= f) w rest goal := by
  intro stop next faults
  exact hf next stop (next + 1) faults

end Reading.Gives

end ScopeScript
