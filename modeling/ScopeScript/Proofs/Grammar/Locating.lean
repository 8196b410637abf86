import ScopeScript.Grammar.Read
import ScopeScript.Proofs.Grammar.Noting

namespace ScopeScript

open Reading

def Cursor.facing (c : Cursor) (ahead : List Token) : Cursor := { c with ahead := ahead }

theorem Cursor.facing_peek {c : Cursor} {ahead : List Token} (next : ahead.head? = c.ahead.head?) :
    (c.facing ahead).peek = c.peek := by
  show ahead.headD c.stop = c.ahead.headD c.stop
  rw [List.headD_eq_head?_getD, List.headD_eq_head?_getD, next]

theorem Cursor.facing_report {c : Cursor} {ahead : List Token} (next : ahead.head? = c.ahead.head?)
    (cause : SyntaxCause) : (c.facing ahead).report ⟨cause, (c.facing ahead).peek⟩ =
      (c.report ⟨cause, c.peek⟩).facing ahead := by
  rw [facing_peek next]
  rfl

theorem surplus_peek {c : Cursor} {w rest : List Token} (what : Limited) (beyond : 255 ≤ already) (filled : w ≠ [])
    (parts : c.ahead = w ++ rest) : surplus what already w = [⟨.tooMany what, c.peek⟩] := by
  unfold surplus Cursor.peek
  rw [if_pos beyond, parts]
  cases w with
  | nil => exact absurd rfl filled
  | cons t more => rfl

theorem Cursor.atEnd_head (c : Cursor) : c.atEnd = c.ahead.head?.isNone := by
  unfold Cursor.atEnd
  cases c.ahead <;> rfl

theorem head_behind {ahead w others rest : List Token} (parts : ahead = w ++ rest)
    (next : others.head? = rest.head?) : (w ++ others).head? = ahead.head? := by
  rw [parts, List.head?_append, List.head?_append, next]

-- The faults told by the end of a reading, with the one that stopped it.
def Reading.told : EStateM.Result SyntaxFault Cursor α → List SyntaxFault
  | .ok _ after => after.faults
  | .error f after => after.faults ++ [f]

-- What becomes of a reading with so much fuel or more. It takes tokens, or it tells a hard fault at the
-- token behind those that it took and that could have gone on. Only the next token decides it.
inductive Reading.Outcome (fuel : Nat) (x : Nat → Reading α) (good : α → List Token → List SyntaxFault → Prop)
    (c : Cursor) : Prop where
  | took {a : α} {w rest : List Token} {softs : List SyntaxFault} {later : RefId}
      (split : c.ahead = w ++ rest) (soft : Soft softs) (known : good a w softs)
      (runs : ∀ k, fuel ≤ k → ∀ others : List Token, others.head? = rest.head? →
        x k (c.facing (w ++ others)) = .ok a ⟨others, c.stop, later, c.faults ++ softs⟩)
  | stopped {w rest : List Token} {softs : List SyntaxFault} {f : SyntaxFault}
      (split : c.ahead = w ++ rest) (soft : Soft softs) (hard : f.isHard = true)
      (place : f.token = rest.headD c.stop) (possible : ∃ a more s, good a (w ++ more) s)
      (runs : ∀ k, fuel ≤ k → ∀ others : List Token, others.head? = rest.head? →
        c.faults ++ (softs ++ [f]) <+: told (x k (c.facing (w ++ others))))

-- Readers that do the same wherever the next token is the one ahead.
theorem Reading.Outcome.alike {fuel : Nat} {x y : Nat → Reading α}
    {good : α → List Token → List SyntaxFault → Prop} {c : Cursor} (h : Outcome fuel y good c)
    (same : ∀ k (ahead : List Token), ahead.head? = c.ahead.head? → x k (c.facing ahead) = y k (c.facing ahead)) :
    Outcome fuel x good c := by
  cases h with
  | @took a w rest softs later split soft known runs =>
    have ran : ∀ k, fuel ≤ k → ∀ others : List Token, others.head? = rest.head? →
        x k (c.facing (w ++ others)) = .ok a ⟨others, c.stop, later, c.faults ++ softs⟩ := by
      intro k more others next
      rw [same k _ (head_behind split next), runs k more others next]
    exact .took split soft known ran
  | stopped split soft hard place possible runs =>
    refine .stopped split soft hard place possible fun k more others next => ?_
    rw [same k _ (head_behind split next)]
    exact runs k more others next

-- The fuel is enough for tokens of which sixteen times as many, and so much more, fit into it.
structure Reading.Locates (need fuel : Nat) (x : Nat → Reading α)
    (good : α → List Token → List SyntaxFault → Prop) : Prop where
  grows : ∀ k, fuel ≤ k → ∀ c, c.faults <+: told (x k c)
  possible : ∃ a w s, good a w s
  outcome : ∀ c : Cursor, 16 * c.ahead.length + need ≤ fuel → Outcome fuel x good c

-- A function keyword in front of a name.
def declares : List Token → Bool
  | t :: name :: _ => t.isKeyword .funWord && name.isIdentifier
  | _ => false

theorem declaresFunction_looks (c : Cursor) : declaresFunction c = .ok (declares c.ahead) c := by
  obtain ⟨ahead, stop, next, faults⟩ := c
  cases ahead with
  | nil => rfl
  | cons t more => cases more <;> rfl

theorem declares_inv {ts : List Token} (declared : declares ts = true) : ∃ keyword name more,
    ts = keyword :: name :: more ∧ keyword.kind = .keyword .funWord ∧ name.kind = .identifier := by
  unfold declares at declared
  split at declared
  · rename_i keyword name more
    simp only [Bool.and_eq_true, Token.isKeyword, Token.isIdentifier, beq_iff_eq] at declared
    exact ⟨keyword, name, more, rfl, declared⟩
  · cases declared

theorem declares_other {t : Token} (other : t.kind ≠ .keyword .funWord) (more : List Token) :
    declares (t :: more) = false := by
  have word : t.isKeyword .funWord = false := by simpa [Token.isKeyword] using other
  cases more <;> simp [declares, word]

theorem declares_same {w others rest : List Token} (filled : w ≠ []) (next : others.head? = rest.head?) :
    declares (w ++ others) = declares (w ++ rest) := by
  cases w with
  | nil => exact absurd rfl filled
  | cons t more =>
    cases more with
    | cons name more => rfl
    | nil => cases others <;> cases rest <;> simp_all [declares]

-- What reads a declaration of a function, or something else.
def Reading.declaring (y : Token → Reading α) (z : Reading α) : Reading α := do
  if ← Reading.declaresFunction then
    let _ ← Reading.acceptKeyword .funWord
    let name ← Reading.expectName .function
    y name
  else z

theorem Reading.declaring_passed (y : Token → Reading α) (z : Reading α) {c : Cursor}
    (other : declares c.ahead = false) : Reading.declaring y z c = z c := by
  unfold Reading.declaring
  change EStateM.bind Reading.declaresFunction _ c = _
  unfold EStateM.bind
  rw [declaresFunction_looks, other]
  rfl

theorem Reading.declaring_taken (y : Token → Reading α) (z : Reading α) (c : Cursor) {keyword name : Token}
    (isFun : keyword.kind = .keyword .funWord) (named : name.kind = .identifier) (more : List Token) :
    Reading.declaring y z (c.facing (keyword :: name :: more)) = y name (c.facing more) := by
  have word : keyword.isKeyword .funWord = true := by simp [Token.isKeyword, isFun]
  have identifier : name.isIdentifier = true := by simp [Token.isIdentifier, named]
  have ahead : declares (c.facing (keyword :: name :: more)).ahead = true := by
    simp [declares, Cursor.facing, word, identifier]
  have first : Reading.acceptKeyword .funWord (c.facing (keyword :: name :: more)) =
      .ok true (c.facing (name :: more)) := by
    show EStateM.bind _ _ _ = _
    simp only [EStateM.bind, Reading.accept?, Cursor.facing, word, if_true]
    rfl
  have second : Reading.expectName .function (c.facing (name :: more)) = .ok name (c.facing more) := by
    show EStateM.bind _ _ _ = _
    simp only [EStateM.bind, Reading.accept?, Cursor.facing, identifier, if_true]
    rfl
  unfold Reading.declaring
  change EStateM.bind Reading.declaresFunction _ (c.facing (keyword :: name :: more)) = _
  unfold EStateM.bind
  rw [declaresFunction_looks, ahead]
  show EStateM.bind (Reading.acceptKeyword .funWord) (fun _ => EStateM.bind (Reading.expectName .function) y) _ = _
  unfold EStateM.bind
  rw [first]
  dsimp only
  rw [second]

namespace Reading.Locates

variable {need fuel : Nat} {x : Nat → Reading α} {f : Nat → α → Reading β}
  {good : α → List Token → List SyntaxFault → Prop} {goal : β → List Token → List SyntaxFault → Prop}

theorem within (h : Locates need fuel x good) (less : need ≤ more) : Locates more fuel x good :=
  ⟨h.grows, h.possible, fun c enough => h.outcome c (by omega)⟩

theorem mono {stronger : α → List Token → List SyntaxFault → Prop} (h : Locates need fuel x stronger)
    (weaker : ∀ a w s, stronger a w s → good a w s) : Locates need fuel x good where
  grows := h.grows
  possible := by
    obtain ⟨a, w, s, known⟩ := h.possible
    exact ⟨a, w, s, weaker a w s known⟩
  outcome c enough := by
    cases h.outcome c enough with
    | took split soft known runs => exact .took split soft (weaker _ _ _ known) runs
    | stopped split soft hard place possible runs =>
      obtain ⟨a, more, s, known⟩ := possible
      exact .stopped split soft hard place ⟨a, more, s, weaker _ _ _ known⟩ runs

-- A reader spends one unit of fuel on what it does.
theorem spend (h : Locates need fuel (fun k => x (k + 1)) good) : Locates (need + 1) (fuel + 1) x good where
  grows k enough c := by
    obtain ⟨k, rfl⟩ : ∃ j, k = j + 1 := ⟨k - 1, by omega⟩
    exact h.grows k (by omega) c
  possible := h.possible
  outcome c enough := by
    cases h.outcome c (by omega) with
    | @took a w rest softs later split soft known runs =>
      have spent : ∀ k, fuel + 1 ≤ k → ∀ others : List Token, others.head? = rest.head? →
          x k (c.facing (w ++ others)) = .ok a ⟨others, c.stop, later, c.faults ++ softs⟩ := by
        intro k more others same
        obtain ⟨k, rfl⟩ : ∃ j, k = j + 1 := ⟨k - 1, by omega⟩
        exact runs k (by omega) others same
      exact .took split soft known spent
    | stopped split soft hard place possible runs =>
      refine .stopped split soft hard place possible fun k more others same => ?_
      obtain ⟨k, rfl⟩ : ∃ j, k = j + 1 := ⟨k - 1, by omega⟩
      exact runs k (by omega) others same

-- A reader that takes nothing and goes on.
theorem still (h : ∀ c : Cursor, ∃ a later softs, Soft softs ∧ good a [] softs ∧
    ∀ k others, x k (c.facing others) = .ok a ⟨others, c.stop, later, c.faults ++ softs⟩) :
    Locates need fuel x good where
  grows k _ c := by
    obtain ⟨a, later, softs, _, _, runs⟩ := h c
    have same : x k c = _ := runs k c.ahead
    rw [same]
    exact List.prefix_append _ _
  possible := by
    obtain ⟨a, _, softs, _, known, _⟩ := h ⟨[], ⟨.stop, "", .start⟩, 0, []⟩
    exact ⟨a, [], softs, known⟩
  outcome c _ := by
    obtain ⟨a, later, softs, soft, known, runs⟩ := h c
    exact .took (List.nil_append _).symm soft known fun k _ others _ => runs k others

theorem pure {a : α} (known : good a [] []) : Locates need fuel (fun _ => Pure.pure a) good :=
  still fun c => ⟨a, c.next, [], .nil, known, fun _ _ => by rw [List.append_nil]; rfl⟩

theorem fresh : Locates need fuel (fun _ => Reading.fresh) fun _ w s => w = [] ∧ s = [] :=
  still fun c => ⟨c.next, c.next + 1, [], .nil, ⟨rfl, rfl⟩, fun _ _ => by rw [List.append_nil]; rfl⟩

theorem fail {cause : SyntaxCause} (hard : cause.isHard = true) (possible : ∃ a w s, good a w s) :
    Locates need fuel (fun _ => Reading.fail cause) good where
  grows _ _ c := List.prefix_append _ _
  possible := possible
  outcome c _ := by
    have ran : ∀ k, fuel ≤ k → ∀ others : List Token, others.head? = c.ahead.head? →
        c.faults ++ ([] ++ [⟨cause, c.peek⟩]) <+: told ((Reading.fail cause : Reading α) (c.facing ([] ++ others))) := by
      intro k _ others same
      show c.faults ++ [_] <+: c.faults ++ [⟨cause, (c.facing others).peek⟩]
      exact Cursor.facing_peek same ▸ List.prefix_rfl
    exact .stopped (w := []) (f := ⟨cause, c.peek⟩) rfl .nil hard rfl possible ran

-- The second reader has the fuel for the tokens that the first one took.
theorem bindLong (length : α → Nat) (hx : Locates need fuel x good)
    (long : ∀ a w s, good a w s → length a ≤ w.length)
    (hf : ∀ a, Locates (need + 16 * length a) fuel (fun k => f k a)
      fun b v t => ∀ w s, good a w s → goal b (w ++ v) (s ++ t)) :
    Locates need fuel (fun k => x k >>= f k) goal where
  grows k enough c := by
    have first := hx.grows k enough c
    show c.faults <+: told (EStateM.bind (x k) (f k) c)
    unfold EStateM.bind
    cases ran : x k c with
    | error fault after =>
      rw [ran] at first
      exact first
    | ok a middle =>
      rw [ran] at first
      exact first.trans ((hf a).grows k enough middle)
  possible := by
    obtain ⟨a, w, s, known⟩ := hx.possible
    obtain ⟨b, v, t, later⟩ := (hf a).possible
    exact ⟨b, w ++ v, s ++ t, later w s known⟩
  outcome c enough := by
    cases hx.outcome c enough with
    | stopped split soft hard place possible runs =>
      refine .stopped split soft hard place ?_ fun k more others same => ?_
      · obtain ⟨a, more, s, known⟩ := possible
        obtain ⟨b, v, t, later⟩ := (hf a).possible
        exact ⟨b, more ++ v, s ++ t, by simpa using later _ _ known⟩
      · have told := runs k more others same
        show _ <+: Reading.told (EStateM.bind (x k) (f k) _)
        unfold EStateM.bind
        cases ran : x k (c.facing (_ ++ others)) with
        | error fault after =>
          rw [ran] at told
          exact told
        | ok a middle =>
          rw [ran] at told
          exact told.trans ((hf a).grows k more middle)
    | @took a w rest softs later split soft known runs =>
      let middle : Cursor := ⟨rest, c.stop, later, c.faults ++ softs⟩
      have shorter : 16 * middle.ahead.length + (need + 16 * length a) ≤ fuel := by
        have taken := long a w softs known
        rw [split, List.length_append] at enough
        show 16 * rest.length + _ ≤ fuel
        omega
      -- Behind the first reader the second one has the same token ahead as before.
      have passes : ∀ k, fuel ≤ k → ∀ others, others.head? = rest.head? →
          (x k >>= f k) (c.facing (w ++ others)) = f k a (middle.facing others) := by
        intro k more others same
        show EStateM.bind (x k) (f k) _ = _
        unfold EStateM.bind
        rw [runs k more others same]
        rfl
      cases (hf a).outcome middle shorter with
      | @took b v rest' softs' later' split' soft' known' runs' =>
        have parts : rest = v ++ rest' := split'
        have ran : ∀ k, fuel ≤ k → ∀ others : List Token, others.head? = rest'.head? →
            (x k >>= f k) (c.facing (w ++ v ++ others)) =
              .ok b ⟨others, c.stop, later', c.faults ++ (softs ++ softs')⟩ := by
          intro k more others same
          rw [List.append_assoc, passes k more _ (head_behind parts same), runs' k more others same, ← List.append_assoc]
        exact .took (by rw [split, parts, List.append_assoc]) (soft.append soft') (known' w softs known) ran
      | @stopped v rest' softs' fault split' soft' hard place possible runs' =>
        have parts : rest = v ++ rest' := split'
        refine .stopped (by rw [split, parts, List.append_assoc]) (soft.append soft') hard place ?_ ?_
        · obtain ⟨b, more, t, later⟩ := possible
          exact ⟨b, more, softs ++ t, by simpa using later w softs known⟩
        · intro k more others same
          rw [List.append_assoc w, passes k more _ (head_behind parts same)]
          have told := runs' k more others same
          simpa [middle] using told

theorem bind (hx : Locates need fuel x good)
    (hf : ∀ a, Locates need fuel (fun k => f k a) fun b v t => ∀ w s, good a w s → goal b (w ++ v) (s ++ t)) :
    Locates need fuel (fun k => x k >>= f k) goal :=
  bindLong (fun _ => 0) hx (fun _ _ _ _ => Nat.zero_le _) hf

theorem map {g : α → β} (hx : Locates need fuel x good) (h : ∀ a w s, good a w s → goal (g a) w s) :
    Locates need fuel (fun k => g <$> x k) goal := by
  have same : (fun k => g <$> x k) = fun k => x k >>= fun a => Pure.pure (g a) := by
    funext k c
    show EStateM.map g (x k) c = EStateM.bind (x k) _ c
    unfold EStateM.map EStateM.bind
    cases x k c <;> rfl
  rw [same]
  refine bind hx fun a => pure fun w s known => ?_
  simpa using h a w s known

-- A fault inside is told by what goes on behind it.
theorem recovering (hx : Locates need fuel x good) :
    Locates need fuel (fun k => Reading.recovering (x k)) fun o w s => ∃ a, o = some a ∧ good a w s := by
  have same : ∀ k c, told (Reading.recovering (x k) c) = told (x k c) := by
    intro k c
    unfold Reading.recovering
    cases x k c with
    | ok a after => rfl
    | error fault after =>
      show ((after.report fault).recover).faults = _
      unfold Cursor.recover
      split <;> rfl
  constructor
  · intro k enough c
    rw [same]
    exact hx.grows k enough c
  · obtain ⟨a, w, s, known⟩ := hx.possible
    exact ⟨some a, w, s, a, rfl, known⟩
  · intro c enough
    cases hx.outcome c enough with
    | @took a w rest softs later split soft known runs =>
      have ran : ∀ k, fuel ≤ k → ∀ others : List Token, others.head? = rest.head? →
          Reading.recovering (x k) (c.facing (w ++ others)) =
            .ok (some a) ⟨others, c.stop, later, c.faults ++ softs⟩ := by
        intro k more others same
        unfold Reading.recovering
        rw [runs k more others same]
      exact .took split soft ⟨a, rfl, known⟩ ran
    | stopped split soft hard place possible runs =>
      obtain ⟨a, more, s, known⟩ := possible
      refine .stopped split soft hard place ⟨some a, more, s, a, rfl, known⟩ fun k more others heads => ?_
      rw [same]
      exact runs k more others heads

theorem branch {x y z : Nat → Reading β} (decide : Option Token → Bool)
    (same : ∀ k c, x k c = if decide c.ahead.head? = true then y k c else z k c)
    (yes : Locates need fuel y goal) (no : Locates need fuel z goal) : Locates need fuel x goal where
  grows k enough c := by
    rw [same]
    split
    · exact yes.grows k enough c
    · exact no.grows k enough c
  possible := yes.possible
  outcome c enough := by
    by_cases met : decide c.ahead.head? = true
    · exact (yes.outcome c enough).alike fun k ahead heads => by rw [same, if_pos (heads ▸ met)]
    · exact (no.outcome c enough).alike fun k ahead heads => by rw [same, if_neg (heads ▸ met)]

theorem seen {y z : Nat → Reading β} (test : Token → Bool) (yes : Locates need fuel y goal)
    (no : Locates need fuel z goal) :
    Locates need fuel (fun k => Reading.sees test >>= fun b => if b = true then y k else z k) goal := by
  refine branch (·.any test) (fun k c => ?_) yes no
  show (if c.sees test = true then y k else z k) c = _
  unfold Cursor.sees
  split <;> rfl

theorem ended {y z : Nat → Reading β} (yes : Locates need fuel y goal) (no : Locates need fuel z goal) :
    Locates need fuel (fun k => Reading.atEnd >>= fun b => if b = true then y k else z k) goal := by
  refine branch (·.isNone) (fun k c => ?_) yes no
  show (if c.atEnd = true then y k else z k) c = _
  rw [c.atEnd_head]
  split <;> rfl

-- A look for a mark that closes what is read, or for the end.
theorem closed {y z : Nat → Reading β} (test : Token → Bool) (yes : Locates need fuel y goal)
    (no : Locates need fuel z goal) :
    Locates need fuel (fun k => Reading.sees test >>= fun b => Reading.atEnd >>= fun e =>
      if (b || e) = true then y k else z k) goal := by
  refine branch (fun o => o.any test || o.isNone) (fun k c => ?_) yes no
  show (if (c.sees test || c.atEnd) = true then y k else z k) c = _
  rw [c.atEnd_head]
  unfold Cursor.sees
  split <;> rfl

theorem accept? (test : Token → Bool) : Locates need fuel (fun _ => Reading.accept? test) fun o w s => s = [] ∧
    match o with
    | some t => w = [t] ∧ test t = true
    | none => w = [] where
  grows _ _ c := by
    unfold Reading.accept?
    split
    · exact List.prefix_rfl
    · split <;> exact List.prefix_rfl
  possible := ⟨none, [], [], rfl, rfl⟩
  outcome c _ := by
    by_cases met : c.ahead.head?.any test = true
    · cases ahead : c.ahead with
      | nil => simp [ahead] at met
      | cons t rest =>
        have passed : test t = true := by simpa [ahead] using met
        have ran : ∀ k, fuel ≤ k → ∀ others : List Token, others.head? = rest.head? →
            Reading.accept? test (c.facing ([t] ++ others)) = .ok (some t) ⟨others, c.stop, c.next, c.faults ++ []⟩ := by
          intro k _ others _
          simp [Reading.accept?, Cursor.facing, passed]
        exact .took (a := some t) (w := [t]) ahead .nil ⟨rfl, rfl, passed⟩ ran
    · have ran : ∀ k, fuel ≤ k → ∀ others : List Token, others.head? = c.ahead.head? →
          Reading.accept? test (c.facing ([] ++ others)) = .ok none ⟨others, c.stop, c.next, c.faults ++ []⟩ := by
        intro k _ others heads
        rw [List.append_nil]
        refine Gives.accept_refused ?_
        show others.head?.any test = false
        rw [heads]
        exact Bool.eq_false_iff.mpr met
      exact .took (a := none) (w := []) rfl .nil ⟨rfl, rfl⟩ ran

theorem accepting {test : Token → Bool} {f : Nat → Option Token → Reading β}
    (no : Locates need fuel (fun k => f k none) goal)
    (yes : ∀ t, Locates (need + 16) fuel (fun k => f k (some t)) fun b w s => test t = true → goal b (t :: w) s) :
    Locates need fuel (fun k => Reading.accept? test >>= f k) goal := by
  refine bindLong (fun o => o.toList.length) (accept? test) ?_ ?_
  · rintro (_ | t) w s ⟨_, taken⟩
    · exact Nat.zero_le _
    · rw [taken.1]
      exact Nat.le_refl _
  · rintro (_ | t)
    · refine mono no fun b w s known v t => ?_
      rintro ⟨rfl, rfl⟩
      exact known
    · refine mono (yes t) fun b w s known v u => ?_
      rintro ⟨rfl, rfl, passed⟩
      exact known passed

theorem onMark {m : Mark} {y z : Nat → Reading β}
    (yes : Locates (need + 16) fuel y fun b w s => ∀ t : Token, t.kind = .mark m → goal b (t :: w) s)
    (no : Locates need fuel z goal) :
    Locates need fuel (fun k => Reading.acceptMark m >>= fun b => if b = true then y k else z k) goal := by
  have same : (fun k => Reading.acceptMark m >>= fun b => if b = true then y k else z k) =
      fun k => Reading.accept? (·.isMark m) >>= fun o => if o.isSome = true then y k else z k := by
    funext k
    exact bind_assoc _ _ _
  rw [same]
  refine accepting no fun t => mono yes fun b w s known passed => known t ?_
  simpa [Token.isMark] using passed

theorem onKeyword {word : Keyword} {y z : Nat → Reading β}
    (yes : Locates (need + 16) fuel y fun b w s => ∀ t : Token, t.kind = .keyword word → goal b (t :: w) s)
    (no : Locates need fuel z goal) :
    Locates need fuel (fun k => Reading.acceptKeyword word >>= fun b => if b = true then y k else z k) goal := by
  have same : (fun k => Reading.acceptKeyword word >>= fun b => if b = true then y k else z k) =
      fun k => Reading.accept? (·.isKeyword word) >>= fun o => if o.isSome = true then y k else z k := by
    funext k
    exact bind_assoc _ _ _
  rw [same]
  refine accepting no fun t => mono yes fun b w s known passed => known t ?_
  simpa [Token.isKeyword] using passed

theorem expectMark (m : Mark) (slot : Slot) :
    Locates need fuel (fun _ => Reading.expectMark m slot) fun t w s => s = [] ∧ t.kind = .mark m ∧ w = [t] := by
  unfold Reading.expectMark
  refine accepting (fail rfl ?_) fun t => pure fun passed => ?_
  · exact ⟨⟨.mark m, "", .start⟩, _, _, rfl, rfl, rfl⟩
  · exact ⟨rfl, by simpa [Token.isMark] using passed, rfl⟩

theorem expectName (what : Named) :
    Locates need fuel (fun _ => Reading.expectName what) fun t w s => s = [] ∧ t.kind = .identifier ∧ w = [t] := by
  unfold Reading.expectName
  refine accepting (fail rfl ?_) fun t => pure fun passed => ?_
  · exact ⟨⟨.identifier, "", .start⟩, _, _, rfl, rfl, rfl⟩
  · exact ⟨rfl, by simpa [Token.isIdentifier] using passed, rfl⟩

theorem mark {m : Mark} {slot : Slot} {y : Nat → Token → Reading β}
    (hy : ∀ t, Locates (need + 16) fuel (fun k => y k t) fun b w s => t.kind = .mark m → goal b (t :: w) s) :
    Locates need fuel (fun k => Reading.expectMark m slot >>= y k) goal := by
  refine bindLong (fun _ => 1) (expectMark m slot) ?_ fun t => mono (hy t) fun b w s known v u => ?_
  · rintro t w s ⟨_, _, rfl⟩
    exact Nat.le_refl _
  · rintro ⟨rfl, kind, rfl⟩
    exact known kind

theorem name {what : Named} {y : Nat → Token → Reading β}
    (hy : ∀ t, Locates (need + 16) fuel (fun k => y k t) fun b w s => t.kind = .identifier → goal b (t :: w) s) :
    Locates need fuel (fun k => Reading.expectName what >>= y k) goal := by
  refine bindLong (fun _ => 1) (expectName what) ?_ fun t => mono (hy t) fun b w s known v u => ?_
  · rintro t w s ⟨_, _, rfl⟩
    exact Nat.le_refl _
  · rintro ⟨rfl, kind, rfl⟩
    exact known kind

-- An entry of a limited list is told off at its first token before it is read.
theorem entry {what : Limited} {already : Nat} {y : Nat → Reading β}
    (hy : Locates need fuel y fun b w s => w ≠ [] ∧ goal b w (surplus what already w ++ s)) :
    Locates need fuel (fun k => if listLimit ≤ already then do
      Reading.complain (.tooMany what) (← Reading.look)
      y k else y k) goal := by
  by_cases few : already < 255
  · have within : ¬listLimit ≤ already := Nat.not_le_of_lt few
    simp only [if_neg within]
    exact mono hy fun b w s known => by simpa [surplus_few few] using known.2
  have beyond : listLimit ≤ already := Nat.le_of_not_lt few
  simp only [if_pos beyond]
  refine ⟨fun k enough c => ?_, ?_, fun c enough => ?_⟩
  · exact (List.prefix_append _ _).trans (hy.grows k enough (c.report _))
  · obtain ⟨b, w, s, _, known⟩ := hy.possible
    exact ⟨b, w, _, known⟩
  · have soft : ∀ {softs}, Soft softs → Soft (⟨.tooMany what, c.peek⟩ :: softs) := fun h =>
      .append (s := [_]) (fun f member => by rw [List.mem_singleton.mp member]; rfl) h
    cases hy.outcome (c.report ⟨.tooMany what, c.peek⟩) enough with
    | @took b w rest softs later split softly known runs =>
      have parts : c.ahead = w ++ rest := split
      have said := surplus_peek what beyond known.1 parts
      have ran : ∀ k, fuel ≤ k → ∀ others : List Token, others.head? = rest.head? →
          (do
            Reading.complain (.tooMany what) (← Reading.look)
            y k : Reading β) (c.facing (w ++ others)) =
            .ok b ⟨others, c.stop, later, c.faults ++ (⟨.tooMany what, c.peek⟩ :: softs)⟩ := by
        intro k more others next
        show y k ((c.facing (w ++ others)).report _) = _
        rw [Cursor.facing_report (head_behind parts next), runs k more others next, List.append_cons]
        rfl
      refine .took parts (soft softly) ?_ ran
      rw [said] at known
      exact known.2
    | @stopped w rest softs f split softly hard place possible runs =>
      have parts : c.ahead = w ++ rest := split
      obtain ⟨b, more, s, _, known⟩ := possible
      refine .stopped parts (soft softly) hard place ⟨b, more, _, known⟩ fun k more others next => ?_
      show _ <+: told (y k ((c.facing (w ++ others)).report _))
      rw [Cursor.facing_report (head_behind parts next)]
      have told := runs k more others next
      simpa [Cursor.report] using told

-- Where a function is declared.
theorem declared {y : Nat → Token → Reading β} {z : Nat → Reading β} {c : Cursor} {keyword name : Token}
    {more : List Token} (ahead : c.ahead = keyword :: name :: more) (isFun : keyword.kind = .keyword .funWord)
    (named : name.kind = .identifier)
    (yes : Locates (need + 16) fuel (fun k => y k name) fun b w s => goal b (keyword :: name :: w) s)
    (enough : 16 * c.ahead.length + need ≤ fuel) :
    Outcome fuel (fun k => Reading.declaring (y k) (z k)) goal c := by
  have shorter : 16 * (c.facing more).ahead.length + (need + 16) ≤ fuel := by
    rw [ahead] at enough
    simp only [List.length_cons] at enough
    show 16 * more.length + _ ≤ fuel
    omega
  cases yes.outcome (c.facing more) shorter with
  | @took b w rest softs later parts soft known runs =>
    have whole : c.ahead = keyword :: name :: w ++ rest := by rw [ahead, show more = w ++ rest from parts]; rfl
    have ran : ∀ k, fuel ≤ k → ∀ others : List Token, others.head? = rest.head? →
        Reading.declaring (y k) (z k) (c.facing (keyword :: name :: w ++ others)) =
          .ok b ⟨others, c.stop, later, c.faults ++ softs⟩ := by
      intro k more others next
      exact (Reading.declaring_taken _ _ c isFun named (w ++ others)).trans (runs k more others next)
    exact .took whole soft known ran
  | @stopped w rest softs f parts soft hard place possible runs =>
    have whole : c.ahead = keyword :: name :: w ++ rest := by rw [ahead, show more = w ++ rest from parts]; rfl
    refine .stopped whole soft hard place possible fun k more others next => ?_
    have ran := Reading.declaring_taken (y k) (z k) c isFun named (w ++ others)
    rw [show Reading.declaring (y k) (z k) (c.facing (keyword :: name :: w ++ others)) = _ from ran]
    exact runs k more others next

-- Where none is. The second token does not matter, for the other reader takes one: it never stops at
-- a function keyword, since it could go on with it.
theorem undeclared {y : Nat → Token → Reading β} {z : Nat → Reading β} {c : Cursor}
    (other : declares c.ahead = false) (no : Locates need fuel z goal) (filled : ∀ b w s, goal b w s → w ≠ [])
    (goes : ∀ keyword : Token, keyword.kind = .keyword .funWord → ∃ k more softs, fuel ≤ k ∧ Soft softs ∧
      Notes (z k) (keyword :: more) [] softs fun _ => True)
    (enough : 16 * c.ahead.length + need ≤ fuel) :
    Outcome fuel (fun k => Reading.declaring (y k) (z k)) goal c := by
  have behind : ∀ {w others rest : List Token}, c.ahead = w ++ rest → w ≠ [] → others.head? = rest.head? →
      declares (w ++ others) = false := by
    intro w others rest parts filled next
    rw [declares_same filled next, ← parts, other]
  cases no.outcome c enough with
  | @took b w rest softs later parts soft known runs =>
    have ran : ∀ k, fuel ≤ k → ∀ others : List Token, others.head? = rest.head? →
        Reading.declaring (y k) (z k) (c.facing (w ++ others)) = .ok b ⟨others, c.stop, later, c.faults ++ softs⟩ := by
      intro k more others next
      rw [Reading.declaring_passed _ _ (behind parts (filled b w softs known) next), runs k more others next]
    exact .took parts soft known ran
  | @stopped w rest softs f parts soft hard place possible runs =>
    refine .stopped parts soft hard place possible fun k more others next => ?_
    have other : declares (w ++ others) = false := by
      by_cases empty : w = []
      · subst empty
        cases others with
        | nil => rfl
        | cons keyword later =>
          refine declares_other (fun isFun => ?_) later
          obtain ⟨k, others, noted, enough, softly, reads⟩ := goes keyword isFun
          obtain ⟨a, after, ran, _⟩ := reads c.stop c.next c.faults
          rw [List.append_nil] at ran
          have impossible := runs k enough (keyword :: others) next
          rw [show z k (c.facing ([] ++ keyword :: others)) = _ from ran, told,
            List.prefix_append_right_inj] at impossible
          have member : f ∈ noted := impossible.subset (by simp)
          rw [softly f member] at hard
          cases hard
      · exact behind parts empty next
    rw [Reading.declaring_passed _ _ other]
    exact runs k more others next

-- Whether a function is declared takes two tokens to tell.
theorem declaring {y : Nat → Token → Reading β} {z : Nat → Reading β}
    (yes : ∀ name, Locates (need + 16) fuel (fun k => y k name) fun b w s => ∀ keyword : Token,
      keyword.kind = .keyword .funWord → name.kind = .identifier → goal b (keyword :: name :: w) s)
    (no : Locates need fuel z goal) (filled : ∀ b w s, goal b w s → w ≠ [])
    (goes : ∀ keyword : Token, keyword.kind = .keyword .funWord → ∃ k more softs, fuel ≤ k ∧ Soft softs ∧
      Notes (z k) (keyword :: more) [] softs fun _ => True) :
    Locates need fuel (fun k => Reading.declaring (y k) (z k)) goal where
  grows k enough c := by
    cases seen : declares c.ahead with
    | false =>
      rw [Reading.declaring_passed _ _ seen]
      exact no.grows k enough c
    | true =>
      obtain ⟨keyword, name, more, ahead, isFun, named⟩ := declares_inv seen
      have ran := Reading.declaring_taken (y k) (z k) c isFun named more
      rw [← ahead] at ran
      rw [show Reading.declaring (y k) (z k) c = _ from ran]
      exact (yes name).grows k enough (c.facing more)
  possible := no.possible
  outcome c enough := by
    cases seen : declares c.ahead with
    | false => exact undeclared seen no filled goes enough
    | true =>
      obtain ⟨keyword, name, more, ahead, isFun, named⟩ := declares_inv seen
      exact declared ahead isFun named (.mono (yes name) fun b w s known => known keyword isFun named) enough

end Reading.Locates

end ScopeScript
