import ScopeScript.Grammar.Cursor

namespace ScopeScript

-- What a reader takes from the tokens ahead when it finds no fault. The relation gets the result,
-- the tokens taken and the tokens left. Faults found earlier are kept in every case.
def Reading.Sound (x : Reading α) (good : α → List Token → List Token → Prop) : Prop :=
  ∀ c, match x c with
    | .ok a after => c.faults <+: after.faults ∧
        (after.faults = c.faults → ∃ taken, c.ahead = taken ++ after.ahead ∧ good a taken after.ahead)
    | .error _ after => c.faults <+: after.faults

namespace Reading.Sound

variable {x : Reading α} {f : α → Reading β} {good : α → List Token → List Token → Prop}
  {goal : β → List Token → List Token → Prop}

theorem pure {a : α} (h : ∀ rest, good a [] rest) : Sound (Pure.pure a) good :=
  fun c => ⟨List.prefix_rfl, fun _ => ⟨[], rfl, h c.ahead⟩⟩

theorem fail (cause : SyntaxCause) : Sound (Reading.fail cause) good :=
  fun _ => List.prefix_rfl

-- The second reader may use that the first one did its part; only without a fault did it.
theorem bind (hx : Sound x good)
    (hf : ∀ a, Sound (f a) fun b taken rest => ∀ v, good a v (taken ++ rest) → goal b (v ++ taken) rest) :
    Sound (x >>= f) goal := by
  intro c
  have first := hx c
  show match EStateM.bind x f c with
    | .ok b after => c.faults <+: after.faults ∧ (after.faults = c.faults →
        ∃ taken, c.ahead = taken ++ after.ahead ∧ goal b taken after.ahead)
    | .error _ after => c.faults <+: after.faults
  unfold EStateM.bind
  cases hc : x c with
  | error fault after => simpa [hc] using first
  | ok a middle =>
    simp only [hc] at first
    obtain ⟨older, quiet⟩ := first
    have second := hf a middle
    cases hm : f a middle with
    | error fault after => simp only [hm] at second ⊢; exact older.trans second
    | ok b after =>
      simp only [hm] at second ⊢
      obtain ⟨newer, silent⟩ := second
      refine ⟨older.trans newer, fun same => ?_⟩
      have middleSame : middle.faults = c.faults :=
        (older.eq_of_length_le (same ▸ newer.length_le)).symm
      obtain ⟨v, hv, goodV⟩ := quiet middleSame
      obtain ⟨w, hw, goodW⟩ := silent (same.trans middleSame.symm)
      exact ⟨v ++ w, by rw [hv, hw, List.append_assoc], goodW v (hw ▸ goodV)⟩

theorem mono {stronger : α → List Token → List Token → Prop} (hx : Sound x stronger)
    (h : ∀ a w rest, stronger a w rest → good a w rest) : Sound x good := by
  intro c
  have known := hx c
  cases hc : x c with
  | error fault after => simpa only [hc] using known
  | ok a after =>
    simp only [hc] at known ⊢
    refine ⟨known.1, fun same => ?_⟩
    obtain ⟨w, hw, goodW⟩ := known.2 same
    exact ⟨w, hw, h a w _ goodW⟩

theorem map {g : α → β} {p : β → List Token → List Token → Prop} (hx : Sound x good)
    (h : ∀ a w rest, good a w rest → p (g a) w rest) : Sound (g <$> x) p := by
  have same : g <$> x = x >>= fun a => Pure.pure (g a) := by
    funext c
    show EStateM.map g x c = EStateM.bind x _ c
    unfold EStateM.map EStateM.bind
    cases x c <;> rfl
  rw [same]
  refine bind hx fun a => pure fun rest v goodV => ?_
  simpa using h a v rest goodV

theorem ite {p : Prop} [Decidable p] {y : Reading α} (yes : p → Sound x good)
    (no : ¬p → Sound y good) : Sound (if p then x else y) good := by
  split
  · exact yes ‹_›
  · exact no ‹_›

-- A reader that only looks.
theorem peeking {g : Cursor → α} (h : ∀ c, good (g c) [] c.ahead) :
    Sound (fun c => .ok (g c) c) good :=
  fun c => ⟨List.prefix_rfl, fun _ => ⟨[], rfl, h c⟩⟩

theorem look : Sound Reading.look fun _ w _ => w = [] := peeking fun _ => rfl

theorem atEnd : Sound Reading.atEnd fun b w rest => w = [] ∧ (b = true → rest = []) :=
  peeking fun _ => ⟨rfl, fun h => List.isEmpty_iff.mp h⟩

theorem sees (test : Token → Bool) : Sound (Reading.sees test) fun _ w _ => w = [] :=
  peeking fun _ => rfl

theorem complain (cause : SyntaxCause) (t : Token) : Sound (Reading.complain cause t) fun _ _ _ => False := by
  intro c
  refine ⟨List.prefix_append _ _, fun same => ?_⟩
  simp [Cursor.report] at same

theorem fresh : Sound Reading.fresh fun _ w _ => w = [] :=
  fun _ => ⟨List.prefix_rfl, fun _ => ⟨[], rfl, rfl⟩⟩

theorem accept? (test : Token → Bool) : Sound (Reading.accept? test) fun o w rest =>
    match o with
    | some t => w = [t] ∧ test t = true
    | none => w = [] ∧ ∀ t more, rest = t :: more → test t = false := by
  intro c
  cases ahead : c.ahead with
  | nil =>
    simp only [Reading.accept?, ahead]
    exact ⟨List.prefix_rfl, fun _ => ⟨[], rfl, rfl, fun t more h => nomatch h⟩⟩
  | cons t rest =>
    cases passed : test t with
    | true =>
      simp only [Reading.accept?, ahead, passed, if_true]
      exact ⟨List.prefix_rfl, fun _ => ⟨[t], rfl, rfl, trivial⟩⟩
    | false =>
      simp only [Reading.accept?, ahead, passed, Bool.false_eq_true, if_false]
      refine ⟨List.prefix_rfl, fun _ => ⟨[], rfl, rfl, fun u more h => ?_⟩⟩
      cases h
      exact passed

-- What the readers of single tokens take.

theorem acceptMark (m : Mark) : Sound (Reading.acceptMark m) fun b w _ =>
    if b then ∃ t, t.kind = .mark m ∧ w = [t] else w = [] := by
  refine bind (accept? _) ?_
  rintro (_ | t)
  · refine pure fun rest v taken => ?_
    simpa using taken.1
  · refine pure fun rest v taken => ?_
    exact ⟨t, by simpa [Token.isMark] using taken.2, by simpa using taken.1⟩

theorem acceptKeyword (k : Keyword) : Sound (Reading.acceptKeyword k) fun b w rest =>
    if b then ∃ t, t.kind = .keyword k ∧ w = [t]
    else w = [] ∧ ∀ t more, rest = t :: more → t.kind ≠ .keyword k := by
  refine bind (accept? _) ?_
  rintro (_ | t)
  · refine pure fun rest v taken => ?_
    refine ⟨by simpa using taken.1, fun t more h => ?_⟩
    simpa [Token.isKeyword] using taken.2 t more h
  · refine pure fun rest v taken => ?_
    exact ⟨t, by simpa [Token.isKeyword] using taken.2, by simpa using taken.1⟩

theorem expectMark (m : Mark) (slot : Slot) : Sound (Reading.expectMark m slot) fun t w _ =>
    t.kind = .mark m ∧ w = [t] := by
  refine bind (accept? _) ?_
  rintro (_ | t)
  · exact fail _
  · refine pure fun rest v taken => ?_
    exact ⟨by simpa [Token.isMark] using taken.2, by simpa using taken.1⟩

theorem expectName (what : Named) : Sound (Reading.expectName what) fun t w _ =>
    t.kind = .identifier ∧ w = [t] := by
  refine bind (accept? _) ?_
  rintro (_ | t)
  · exact fail _
  · refine pure fun rest v taken => ?_
    exact ⟨by simpa [Token.isIdentifier] using taken.2, by simpa using taken.1⟩

theorem declaresFunction : Sound Reading.declaresFunction fun b w rest =>
    w = [] ∧ (b = true → ∃ t more, rest = t :: more ∧ t.kind = .keyword .funWord) := by
  intro c
  unfold Reading.declaresFunction
  split
  · rename_i result after h
    split at h
    · rename_i t name rest ahead
      cases h
      refine ⟨List.prefix_rfl, fun _ => ⟨[], rfl, rfl, fun seen => ?_⟩⟩
      exact ⟨t, name :: rest, ahead, by simp_all [Token.isKeyword]⟩
    · cases h
      exact ⟨List.prefix_rfl, fun _ => ⟨[], rfl, rfl, fun seen => nomatch seen⟩⟩
  · rename_i h
    split at h <;> cases h

-- What follows a look for a token: with the token taken, or without it.

theorem onToken (test : Token → Bool) {y : Token → Reading β} {z : Reading β}
    (yes : ∀ t, Sound (y t) fun b w rest => test t = true → goal b (t :: w) rest)
    (no : Sound z fun b w rest => (∀ t more, w ++ rest = t :: more → test t = false) → goal b w rest) :
    Sound (Reading.accept? test >>= fun o => match o with | some t => y t | none => z) goal := by
  refine bind (accept? test) ?_
  rintro (_ | t)
  · refine mono no fun b w rest known v taken => ?_
    rw [taken.1]
    exact known taken.2
  · refine mono (yes t) fun b w rest known v taken => ?_
    rw [taken.1]
    exact known taken.2

theorem onMark (m : Mark) {y z : Reading β}
    (yes : Sound y fun b w rest => ∀ t : Token, t.kind = .mark m → goal b (t :: w) rest)
    (no : Sound z goal) :
    Sound (Reading.acceptMark m >>= fun b => if b = true then y else z) goal := by
  refine bind (acceptMark m) ?_
  rintro (_ | _)
  · refine mono no fun b w rest known v taken => ?_
    rwa [show v = [] from taken]
  · refine mono yes fun b w rest known v taken => ?_
    obtain ⟨t, kind, rfl⟩ := taken
    exact known t kind

theorem onKeyword (k : Keyword) {y z : Reading β}
    (yes : Sound y fun b w rest => ∀ t : Token, t.kind = .keyword k → goal b (t :: w) rest)
    (no : Sound z fun b w rest => (∀ t more, w ++ rest = t :: more → t.kind ≠ .keyword k) →
      goal b w rest) :
    Sound (Reading.acceptKeyword k >>= fun b => if b = true then y else z) goal := by
  refine bind (acceptKeyword k) ?_
  rintro (_ | _)
  · refine mono no fun b w rest known v taken => ?_
    obtain ⟨rfl, absent⟩ := taken
    exact known absent
  · refine mono yes fun b w rest known v taken => ?_
    obtain ⟨t, kind, rfl⟩ := taken
    exact known t kind

-- What follows a token that has to stand there.

theorem mark (m : Mark) (slot : Slot)
    {y : Token → Reading β} (hy : ∀ t, Sound (y t) fun b w rest => t.kind = .mark m → goal b (t :: w) rest) :
    Sound (Reading.expectMark m slot >>= y) goal := by
  refine bind (expectMark m slot) fun t => mono (hy t) fun b w rest known v taken => ?_
  obtain ⟨kind, rfl⟩ := taken
  exact known kind

theorem name (what : Named)
    {y : Token → Reading β} (hy : ∀ t, Sound (y t) fun b w rest => t.kind = .identifier → goal b (t :: w) rest) :
    Sound (Reading.expectName what >>= y) goal := by
  refine bind (expectName what) fun t => mono (hy t) fun b w rest known v taken => ?_
  obtain ⟨kind, rfl⟩ := taken
  exact known kind

-- What follows a look ahead.
theorem seen (test : Token → Bool) {y z : Reading β} (yes : Sound y goal) (no : Sound z goal) :
    Sound (Reading.sees test >>= fun b => if b = true then y else z) goal := by
  refine bind (sees test) fun b => ite (fun _ => mono yes ?_) (fun _ => mono no ?_)
  · rintro b w rest known v rfl
    exact known
  · rintro b w rest known v rfl
    exact known

-- Where a fault was noted the reader cannot have been without one.
theorem recovering (hx : Sound x good) : Sound (Reading.recovering x) fun o w rest =>
    ∃ a, o = some a ∧ good a w rest := by
  intro c
  have known := hx c
  unfold Reading.recovering
  cases hc : x c with
  | ok a after =>
    simp only [hc] at known ⊢
    refine ⟨known.1, fun same => ?_⟩
    obtain ⟨w, hw, goodW⟩ := known.2 same
    exact ⟨w, hw, a, rfl, goodW⟩
  | error fault after =>
    simp only [hc] at known ⊢
    have kept : (after.report fault).recover.faults = after.faults ++ [fault] := by
      unfold Cursor.recover
      split <;> rfl
    rw [kept]
    refine ⟨known.trans (List.prefix_append _ _), fun same => ?_⟩
    have longer := known.length_le
    have lengths := congrArg List.length same
    rw [List.length_append, List.length_singleton] at lengths
    omega

end Reading.Sound

end ScopeScript
