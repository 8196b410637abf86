import ScopeScript.Grammar.Read
import ScopeScript.Proofs.Grammar.Locating

namespace ScopeScript

open Reading

-- The cursor where a reading ends, with a result or without.
def Reading.reached : EStateM.Result SyntaxFault Cursor α → Cursor
  | .ok _ after => after
  | .error _ after => after

-- The second cursor is further on in the same tokens, by so many of them or more.
def Cursor.Passes (least : Nat) (c after : Cursor) : Prop :=
  ∃ taken, c.ahead = taken ++ after.ahead ∧ least ≤ taken.length ∧ after.stop = c.stop

namespace Cursor

namespace Passes

variable {c d e : Cursor}

theorem refl (c : Cursor) : Passes 0 c c := ⟨[], rfl, Nat.le_refl _, rfl⟩

theorem trans (first : Passes m c d) (second : Passes n d e) : Passes (m + n) c e := by
  obtain ⟨taken, split, long, stop⟩ := first
  obtain ⟨more, split', long', stop'⟩ := second
  refine ⟨taken ++ more, by rw [split, split', List.append_assoc], ?_, stop'.trans stop⟩
  rw [List.length_append]
  exact Nat.add_le_add long long'

theorem fewer (h : Passes m c d) (less : n ≤ m) : Passes n c d := by
  obtain ⟨taken, split, long, stop⟩ := h
  exact ⟨taken, split, Nat.le_trans less long, stop⟩

theorem shorter (h : Passes m c d) : d.ahead.length + m ≤ c.ahead.length := by
  obtain ⟨taken, split, long, -⟩ := h
  rw [split, List.length_append]
  omega

end Passes

theorem skip_suffix (last : Token) (rest : List Token) : ∃ dropped, rest = dropped ++ skip last rest := by
  induction rest generalizing last with
  | nil => exact ⟨[], rfl⟩
  | cons t rest ih =>
    unfold skip
    split
    · exact ⟨[], rfl⟩
    · obtain ⟨dropped, split⟩ := ih t
      exact ⟨t :: dropped, congrArg (t :: ·) split⟩

-- Where anything is left, recovering leaves at least one token behind.
theorem recover_passes (c : Cursor) (more : c.ahead ≠ []) : Passes 1 c c.recover := by
  obtain ⟨ahead, stop, next, faults⟩ := c
  cases ahead with
  | nil => exact absurd rfl more
  | cons t rest =>
    obtain ⟨dropped, split⟩ := skip_suffix t rest
    exact ⟨t :: dropped, congrArg (t :: ·) split, Nat.succ_le_succ (Nat.zero_le _), rfl⟩

theorem recover_none {c : Cursor} (none : c.ahead = []) : c.recover = c := by
  unfold recover
  rw [none]

theorem recover_faults (c : Cursor) : c.recover.faults = c.faults := by
  unfold recover
  split <;> rfl

end Cursor

-- None of the faults is that the fuel was too little.
def Shallow (faults : List SyntaxFault) : Prop := ∀ f ∈ faults, f.cause ≠ .tooDeep

theorem Shallow.nil : Shallow [] := fun _ member => absurd member List.not_mem_nil

theorem Shallow.told {faults : List SyntaxFault} (h : Shallow faults) {f : SyntaxFault} (cause : f.cause ≠ .tooDeep) :
    Shallow (faults ++ [f]) := by
  intro g member
  rcases List.mem_append.mp member with old | last
  · exact h g old
  · rwa [List.mem_singleton.mp last]

-- With any fuel a reader goes on in the tokens ahead, and for a result it takes so many of them. With
-- enough fuel for the tokens ahead, it does not run out of it, and any more of it changes nothing.
structure Reading.SettlesAt (need fuel least : Nat) (x : Nat → Reading α) (c : Cursor) : Prop where
  onward : Cursor.Passes 0 c (reached (x fuel c))
  takes : ∀ a after, x fuel c = .ok a after → Cursor.Passes least c after
  shallow : 16 * c.ahead.length + need ≤ fuel → Shallow c.faults → Shallow (told (x fuel c))
  steady : 16 * c.ahead.length + need ≤ fuel → ∀ k, fuel ≤ k → x k c = x fuel c

def Reading.Settles (need fuel : Nat) (x : Nat → Reading α) (least : Nat) : Prop :=
  ∀ c, SettlesAt need fuel least x c

namespace Reading.SettlesAt

variable {need fuel least : Nat} {x : Nat → Reading α} {f : Nat → α → Reading β} {c : Cursor}

theorem within (h : SettlesAt need fuel least x c) (less : need ≤ more) (fewer : few ≤ least) :
    SettlesAt more fuel few x c where
  onward := h.onward
  takes a after done := (h.takes a after done).fewer fewer
  shallow enough := h.shallow (by omega)
  steady enough := h.steady (by omega)

theorem alike {y : Nat → Reading α} (h : SettlesAt need fuel least y c) (same : ∀ k, x k c = y k c) :
    SettlesAt need fuel least x c where
  onward := by rw [same]; exact h.onward
  takes := by rw [same]; exact h.takes
  shallow := by rw [same]; exact h.shallow
  steady enough k more := by rw [same, same]; exact h.steady enough k more

-- The tokens that the first reader took pay for sixteen nested readers each.
theorem bind (hx : SettlesAt need fuel m x c)
    (hf : ∀ a, Settles (need + 16 * m) fuel (fun k => f k a) (least - m)) :
    SettlesAt need fuel least (fun k => x k >>= f k) c := by
  have fails : ∀ {k fault after}, x k c = .error fault after → (x k >>= f k) c = .error fault after := by
    intro k fault after ran
    show EStateM.bind (x k) (f k) c = _
    unfold EStateM.bind
    rw [ran]
  have passes : ∀ {k a middle}, x k c = .ok a middle → (x k >>= f k) c = f k a middle := by
    intro k a middle ran
    show EStateM.bind (x k) (f k) c = _
    unfold EStateM.bind
    rw [ran]
  cases first : x fuel c with
  | error fault after =>
    have onward := hx.onward
    have shallow := hx.shallow
    rw [first] at onward shallow
    refine ⟨?_, ?_, ?_, fun enough k more => ?_⟩
    · rwa [fails first]
    · rw [fails first]
      nofun
    · rwa [fails first]
    · rw [fails first, fails ((hx.steady enough k more).trans first)]
  | ok a middle =>
    have taken := hx.takes a middle first
    have shallow := hx.shallow
    rw [first] at shallow
    have second := hf a middle
    have room : 16 * c.ahead.length + need ≤ fuel → 16 * middle.ahead.length + (need + 16 * m) ≤ fuel := by
      have shorter := taken.shorter
      omega
    refine ⟨?_, fun b after done => ?_, fun enough clean => ?_, fun enough k more => ?_⟩
    · rw [passes first]
      exact (taken.trans second.onward).fewer (Nat.zero_le _)
    · rw [passes first] at done
      exact (taken.trans (second.takes b after done)).fewer (by omega)
    · rw [passes first]
      exact second.shallow (room enough) (shallow enough clean)
    · rw [passes first, passes ((hx.steady enough k more).trans first), second.steady (room enough) k more]

-- A fault inside costs a token too, unless none is left.
theorem recovering (hx : SettlesAt need fuel 1 x c) (more : c.ahead ≠ []) :
    SettlesAt need fuel 1 (fun k => Reading.recovering (x k)) c := by
  have onward := hx.onward
  have shallow := hx.shallow
  have ran : ∀ k r, x k c = r → Reading.recovering (x k) c = match r with
      | .ok value after => .ok (some value) after
      | .error fault after => .ok none (after.report fault).recover := by
    rintro k r rfl
    rfl
  cases first : x fuel c with
  | ok a after =>
    rw [first] at onward shallow
    refine ⟨?_, ?_, ?_, fun enough k larger => ?_⟩
    · rwa [ran _ _ first]
    · rw [ran _ _ first]
      rintro o later ⟨⟩
      exact hx.takes a after first
    · rwa [ran _ _ first]
    · rw [ran _ _ first, ran _ _ ((hx.steady enough k larger).trans first)]
  | error fault after =>
    rw [first] at onward shallow
    have recovered : Cursor.Passes 1 c (after.report fault).recover := by
      by_cases none : after.ahead = []
      · obtain ⟨taken, split, -, stop⟩ := onward
        have all : c.ahead = taken := split.trans ((congrArg (taken ++ ·) none).trans (List.append_nil _))
        rw [Cursor.recover_none (show (after.report fault).ahead = [] from none)]
        exact ⟨taken, split, List.length_pos_iff.mpr (all ▸ more), stop⟩
      · have dropped := (after.report fault).recover_passes none
        exact Nat.zero_add 1 ▸ Cursor.Passes.trans onward dropped
    refine ⟨?_, ?_, ?_, fun enough k larger => ?_⟩
    · rw [ran _ _ first]
      exact recovered.fewer (Nat.zero_le _)
    · rw [ran _ _ first]
      rintro o later ⟨⟩
      exact recovered
    · rw [ran _ _ first]
      show _ → _ → Shallow (after.report fault).recover.faults
      rwa [Cursor.recover_faults]
    · rw [ran _ _ first, ran _ _ ((hx.steady enough k larger).trans first)]

end Reading.SettlesAt

namespace Reading.Settles

variable {need fuel least : Nat} {x : Nat → Reading α} {f : Nat → α → Reading β}

theorem within (h : Settles need fuel x least) (less : need ≤ more) (fewer : few ≤ least) :
    Settles more fuel x few :=
  fun c => (h c).within less fewer

-- A reader spends one unit of fuel on what it does.
theorem spend (h : Settles need fuel (fun k => x (k + 1)) least) : Settles (need + 1) (fuel + 1) x least := by
  refine fun c => ⟨(h c).onward, (h c).takes, fun enough => (h c).shallow (by omega), fun enough k more => ?_⟩
  obtain ⟨k, rfl⟩ : ∃ j, k = j + 1 := ⟨k - 1, by omega⟩
  exact (h c).steady (by omega) k (by omega)

-- Behind a reader that may take nothing there is only the same fuel, behind another one there is more.

theorem bind (hx : Settles need fuel x 0) (hf : ∀ a, Settles need fuel (fun k => f k a) least) :
    Settles need fuel (fun k => x k >>= f k) least :=
  fun c => (hx c).bind hf

theorem behind (hx : Settles need fuel x 1) (hf : ∀ a, Settles (need + 16) fuel (fun k => f k a) (least - 1)) :
    Settles need fuel (fun k => x k >>= f k) least :=
  fun c => (hx c).bind hf

-- A reader without nested readers, which takes nothing.
theorem still {x : Reading α} (h : ∀ c, ∃ a after, x c = .ok a after ∧ after.ahead = c.ahead ∧
    after.stop = c.stop ∧ (Shallow c.faults → Shallow after.faults)) : Settles need fuel (fun _ => x) 0 := by
  intro c
  obtain ⟨a, after, ran, ahead, stop, clean⟩ := h c
  have stays : Cursor.Passes 0 c after := ⟨[], ahead.symm, Nat.le_refl _, stop⟩
  refine ⟨?_, ?_, fun _ => ?_, fun _ _ _ => rfl⟩
  · rwa [ran]
  · rw [ran]
    rintro b later ⟨⟩
    exact stays
  · rwa [ran]

theorem pure (a : α) : Settles need fuel (fun _ => Pure.pure a) 0 :=
  still fun c => ⟨a, c, rfl, rfl, rfl, id⟩

theorem fresh : Settles need fuel (fun _ => Reading.fresh) 0 :=
  still fun c => ⟨c.next, { c with next := c.next + 1 }, rfl, rfl, rfl, id⟩

theorem look : Settles need fuel (fun _ => Reading.look) 0 :=
  still fun c => ⟨c.peek, c, rfl, rfl, rfl, id⟩

theorem atEnd : Settles need fuel (fun _ => Reading.atEnd) 0 :=
  still fun c => ⟨c.atEnd, c, rfl, rfl, rfl, id⟩

theorem sees (test : Token → Bool) : Settles need fuel (fun _ => Reading.sees test) 0 :=
  still fun c => ⟨c.sees test, c, rfl, rfl, rfl, id⟩

theorem declaresFunction : Settles need fuel (fun _ => Reading.declaresFunction) 0 :=
  still fun c => ⟨declares c.ahead, c, declaresFunction_looks c, rfl, rfl, id⟩

theorem complain {cause : SyntaxCause} (deep : cause ≠ .tooDeep) (t : Token) :
    Settles need fuel (fun _ => Reading.complain cause t) 0 :=
  still fun c => ⟨(), c.report ⟨cause, t⟩, rfl, rfl, rfl, fun clean => clean.told deep⟩

theorem fail {cause : SyntaxCause} (deep : cause ≠ .tooDeep) :
    Settles need fuel (fun _ => (Reading.fail cause : Reading α)) least :=
  fun c => ⟨.refl c, nofun, fun _ clean => clean.told deep, fun _ _ _ => rfl⟩

-- Without fuel a reader stops at once, and no fuel is enough for a reader that needs some.
theorem exhausted (h : ∀ c, x 0 c = (Reading.fail .tooDeep : Reading α) c) : Settles (need + 1) 0 x least := by
  refine fun c => ⟨?_, ?_, fun enough => ?_, fun enough => ?_⟩
  · rw [h]
    exact .refl c
  · rw [h]
    nofun
  · omega
  · omega

theorem ite {p : Prop} [Decidable p] {y : Nat → Reading α} (yes : Settles need fuel x least)
    (no : Settles need fuel y least) : Settles need fuel (fun k => if p then x k else y k) least := by
  split
  · exact yes
  · exact no

theorem map {g : α → β} (hx : Settles need fuel x least) : Settles need fuel (fun k => g <$> x k) least := by
  have same : (fun k => g <$> x k) = fun k => x k >>= fun a => Pure.pure (g a) := by
    funext k c
    show EStateM.map g (x k) c = EStateM.bind (x k) _ c
    unfold EStateM.map EStateM.bind
    cases x k c <;> rfl
  rw [same]
  refine fun c => (hx c).bind fun a => ?_
  rw [Nat.sub_self]
  exact pure _

-- A token that passes the test is taken, and pays for what is read behind it.
theorem onToken (test : Token → Bool) {g : Nat → Option Token → Reading β}
    (yes : ∀ t, Settles (need + 16) fuel (fun k => g k (some t)) (least - 1))
    (no : Settles need fuel (fun k => g k none) least) :
    Settles need fuel (fun k => Reading.accept? test >>= g k) least := by
  intro c
  by_cases met : c.ahead.head?.any test = true
  · cases ahead : c.ahead with
    | nil => simp [ahead] at met
    | cons t rest =>
      have passed : test t = true := by simpa [ahead] using met
      have accepted : SettlesAt need fuel 1 (fun _ => fun c => .ok t { c with ahead := rest }) c := by
        have taken : Cursor.Passes 1 c { c with ahead := rest } := ⟨[t], ahead, Nat.le_refl _, rfl⟩
        refine ⟨taken.fewer (Nat.zero_le _), ?_, fun _ => id, fun _ _ _ => rfl⟩
        rintro a after ⟨⟩
        exact taken
      refine (accepted.bind yes).alike fun k => ?_
      show EStateM.bind (Reading.accept? test) _ c = EStateM.bind _ _ c
      simp only [EStateM.bind, Reading.accept?, ahead, passed, if_true]
  · have refused : Reading.accept? test c = .ok none c := by
      unfold Reading.accept?
      cases ahead : c.ahead with
      | nil => rfl
      | cons t rest => simp_all
    refine (no c).alike fun k => ?_
    show EStateM.bind (Reading.accept? test) _ c = _
    unfold EStateM.bind
    rw [refused]

theorem accepted {test : Token → Bool} {y z : Nat → Reading β} (yes : Settles (need + 16) fuel y (least - 1))
    (no : Settles need fuel z least) : Settles need fuel
      (fun k => (do return (← Reading.accept? test).isSome) >>= fun b => if b = true then y k else z k) least := by
  let g : Nat → Option Token → Reading β := fun k o => if o.isSome = true then y k else z k
  refine fun c => (onToken test (g := g) (fun _ => yes) no c).alike fun k => ?_
  show EStateM.bind (EStateM.bind (Reading.accept? test) _) _ c = EStateM.bind (Reading.accept? test) _ c
  unfold EStateM.bind
  cases Reading.accept? test c <;> rfl

theorem acceptKeyword (w : Keyword) : Settles need fuel (fun _ => Reading.acceptKeyword w) 0 :=
  onToken _ (fun _ => pure _) (pure _)

theorem onMark (m : Mark) {y z : Nat → Reading β} (yes : Settles (need + 16) fuel y (least - 1))
    (no : Settles need fuel z least) :
    Settles need fuel (fun k => Reading.acceptMark m >>= fun b => if b = true then y k else z k) least :=
  accepted yes no

theorem onKeyword (w : Keyword) {y z : Nat → Reading β} (yes : Settles (need + 16) fuel y (least - 1))
    (no : Settles need fuel z least) :
    Settles need fuel (fun k => Reading.acceptKeyword w >>= fun b => if b = true then y k else z k) least :=
  accepted yes no

theorem mark (m : Mark) (slot : Slot) {y : Nat → Token → Reading β}
    (hy : ∀ t, Settles (need + 16) fuel (fun k => y k t) (least - 1)) :
    Settles need fuel (fun k => Reading.expectMark m slot >>= y k) least := by
  let g : Nat → Option Token → Reading β := fun k o => o.elim (Reading.fail (.missingMark m slot)) (y k)
  refine fun c => (onToken (·.isMark m) (g := g) hy (fail nofun) c).alike fun k => ?_
  show EStateM.bind (EStateM.bind (Reading.accept? _) _) _ c = EStateM.bind (Reading.accept? _) _ c
  unfold EStateM.bind
  cases Reading.accept? (·.isMark m) c with
  | error fault after => rfl
  | ok o after => cases o <;> rfl

theorem name (what : Named) {y : Nat → Token → Reading β}
    (hy : ∀ t, Settles (need + 16) fuel (fun k => y k t) (least - 1)) :
    Settles need fuel (fun k => Reading.expectName what >>= y k) least := by
  let g : Nat → Option Token → Reading β := fun k o => o.elim (Reading.fail (.missingName what)) (y k)
  refine fun c => (onToken Token.isIdentifier (g := g) hy (fail nofun) c).alike fun k => ?_
  show EStateM.bind (EStateM.bind (Reading.accept? _) _) _ c = EStateM.bind (Reading.accept? _) _ c
  unfold EStateM.bind
  cases Reading.accept? Token.isIdentifier c with
  | error fault after => rfl
  | ok o after => cases o <;> rfl

theorem seen (test : Token → Bool) {y z : Nat → Reading β} (yes : Settles need fuel y least)
    (no : Settles need fuel z least) :
    Settles need fuel (fun k => Reading.sees test >>= fun b => if b = true then y k else z k) least :=
  bind (sees test) fun _ => ite yes no

end Reading.Settles

end ScopeScript
