import ScopeScript.Grammar.Read
import ScopeScript.Proofs.Grammar.Draft
import ScopeScript.Proofs.Grammar.Giving

namespace ScopeScript

-- The reader takes exactly w in front of the rest as in Gives, but notes these faults.
def Reading.Notes (x : Reading α) (w rest : List Token) (softs : List SyntaxFault) (good : α → Prop) : Prop :=
  ∀ stop next faults, ∃ a later,
    x ⟨w ++ rest, stop, next, faults⟩ = .ok a ⟨rest, stop, later, faults ++ softs⟩ ∧ good a

namespace Reading.Notes

variable {x : Reading α} {f : α → Reading β} {good : α → Prop} {goal : β → Prop}
  {v w rest : List Token} {s t : List SyntaxFault}

theorem of_gives (h : Gives x w rest good) : Notes x w rest [] good := by
  intro stop next faults
  rw [List.append_nil]
  exact h stop next faults

theorem pure {a : α} (h : good a) : Notes (Pure.pure a) [] rest [] good := of_gives (.pure h)

theorem bind (hx : Notes x v (w ++ rest) s good) (hf : ∀ a, good a → Notes (f a) w rest t goal) :
    Notes (x >>= f) (v ++ w) rest (s ++ t) goal := by
  intro stop next faults
  obtain ⟨a, middle, first, goodA⟩ := hx stop next faults
  obtain ⟨b, later, second, goalB⟩ := hf a goodA stop middle (faults ++ s)
  refine ⟨b, later, ?_, goalB⟩
  rw [List.append_assoc, ← List.append_assoc faults]
  show EStateM.bind x f _ = _
  unfold EStateM.bind
  rw [first]
  exact second

theorem bindLast (hx : Notes x w rest s good) (hf : ∀ a, good a → Notes (f a) [] rest [] goal) :
    Notes (x >>= f) w rest s goal := by
  have both := bind (w := []) hx hf
  rwa [List.append_nil, List.append_nil] at both

-- What gives its tokens without a fault leaves the faults to what follows it.
theorem after (hx : Gives x v (w ++ rest) good) (hf : ∀ a, good a → Notes (f a) w rest s goal) :
    Notes (x >>= f) (v ++ w) rest s goal := bind (of_gives hx) hf

theorem map {g : α → β} (hx : Notes x w rest s good) (h : ∀ a, good a → goal (g a)) :
    Notes (g <$> x) w rest s goal := by
  intro stop next faults
  obtain ⟨a, later, same, goodA⟩ := hx stop next faults
  refine ⟨g a, later, ?_, h a goodA⟩
  show EStateM.map g x _ = _
  unfold EStateM.map
  rw [same]

theorem recovering (hx : Notes x w rest s good) : Notes (Reading.recovering x) w rest s fun _ => True := by
  intro stop next faults
  obtain ⟨a, later, same, _⟩ := hx stop next faults
  exact ⟨some a, later, by simp only [Reading.recovering, same], trivial⟩

theorem skip {a : α} (nothing : ∀ c : Cursor, c.ahead = w ++ rest → x c = .ok a c)
    (hf : Notes (f a) w rest s goal) : Notes (x >>= f) w rest s goal := by
  intro stop next faults
  obtain ⟨b, later, same, goalB⟩ := hf stop next faults
  refine ⟨b, later, ?_, goalB⟩
  show EStateM.bind x f _ = _
  unfold EStateM.bind
  rw [nothing _ rfl]
  exact same

theorem onToken {test : Token → Bool} {u : Token} {y : Token → Reading β} {z : Reading β}
    (passed : test u = true) (hy : Notes (y u) w rest s goal) :
    Notes (Reading.accept? test >>= fun o => match o with | some u => y u | none => z)
      (u :: w) rest s goal := by
  refine after (v := [u]) (.accept_taken passed) ?_
  rintro o rfl
  exact hy

theorem pastToken {test : Token → Bool} {y : Token → Reading β} {z : Reading β}
    (refused : (w ++ rest).head?.any test = false) (hz : Notes z w rest s goal) :
    Notes (Reading.accept? test >>= fun o => match o with | some u => y u | none => z) w rest s goal :=
  skip (a := none) (fun _ ahead => Gives.accept_refused (ahead ▸ refused)) hz

theorem onMark {m : Mark} {u : Token} {y z : Reading β} (kind : u.kind = .mark m)
    (hy : Notes y w rest s goal) :
    Notes (Reading.acceptMark m >>= fun b => if b = true then y else z) (u :: w) rest s goal := by
  refine after (v := [u]) (.acceptMark_taken kind) ?_
  rintro b rfl
  exact hy

theorem onKeyword {k : Keyword} {u : Token} {y z : Reading β} (kind : u.kind = .keyword k)
    (hy : Notes y w rest s goal) :
    Notes (Reading.acceptKeyword k >>= fun b => if b = true then y else z) (u :: w) rest s goal := by
  refine after (v := [u]) (.acceptKeyword_taken kind) ?_
  rintro b rfl
  exact hy

theorem pastMark {m : Mark} {y z : Reading β} (barred : Bars [.mark m] (w ++ rest))
    (hz : Notes z w rest s goal) :
    Notes (Reading.acceptMark m >>= fun b => if b = true then y else z) w rest s goal :=
  skip (a := false) (fun _ ahead => Gives.acceptMark_refused (ahead ▸ barred)) hz

theorem pastKeyword {k : Keyword} {y z : Reading β} (barred : Bars [.keyword k] (w ++ rest))
    (hz : Notes z w rest s goal) :
    Notes (Reading.acceptKeyword k >>= fun b => if b = true then y else z) w rest s goal :=
  skip (a := false) (fun _ ahead => Gives.acceptKeyword_refused (ahead ▸ barred)) hz

theorem mark {m : Mark} {slot : Slot} {u : Token} {y : Token → Reading β} (kind : u.kind = .mark m)
    (hy : Notes (y u) w rest s goal) : Notes (Reading.expectMark m slot >>= y) (u :: w) rest s goal := by
  refine after (v := [u]) (.expectMark_taken kind) ?_
  rintro _ rfl
  exact hy

theorem name {what : Named} {u : Token} {y : Token → Reading β} (kind : u.kind = .identifier)
    (hy : Notes (y u) w rest s goal) : Notes (Reading.expectName what >>= y) (u :: w) rest s goal := by
  refine after (v := [u]) (.expectName_taken kind) ?_
  rintro _ rfl
  exact hy

theorem seen {test : Token → Bool} {y z : Reading β} {b : Bool} (ahead : (w ++ rest).head?.any test = b)
    (hy : Notes (if b then y else z) w rest s goal) :
    Notes (Reading.sees test >>= fun b => if b = true then y else z) w rest s goal :=
  skip (a := b) (fun c same => by rw [Reading.sees, Cursor.sees, same, ahead]) hy

theorem complain (cause : SyntaxCause) (u : Token) :
    Notes (Reading.complain cause u) [] rest [⟨cause, u⟩] fun _ => True :=
  fun _ next _ => ⟨(), next, rfl, trivial⟩

-- An entry of a limited list: the look for its first token and the complaint come first.
theorem entry {what : Limited} {already : Nat} {y : Reading β} {u : Token} (hy : Notes y (u :: w) rest s goal) :
    Notes (if listLimit ≤ already then do Reading.complain (.tooMany what) (← Reading.look); y else y)
      (u :: w) rest (surplus what already [u] ++ s) goal := by
  unfold surplus
  by_cases beyond : 255 ≤ already
  · rw [if_pos beyond, if_pos (show listLimit ≤ already from beyond)]
    refine skip (a := u) (fun c ahead => by rw [Reading.look, Cursor.peek, ahead]; rfl) ?_
    exact bind (v := []) (complain _ u) fun _ _ => hy
  · rw [if_neg beyond, if_neg (show ¬listLimit ≤ already from beyond)]
    exact hy

end Reading.Notes

end ScopeScript
