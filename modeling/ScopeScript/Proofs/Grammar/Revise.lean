import ScopeScript.Proofs.Grammar.Formed

namespace ScopeScript

-- A change of a program: new tokens for declared names and for references, declarations that are
-- left out, and returns behind which the rest of the list is left out.
structure Revision where
  declare : Token → Token
  refer : RefId → Token → Token
  omits : Token → Bool
  cuts : Token → Bool
  -- Spellings that only the changed program uses.
  takes : String → Bool

namespace Revision

-- Only a variable whose initializer cannot do anything is left out.
def drops (V : Revision) : Stmt → Bool
  | .var name none => V.omits name
  | .var name (some (.literal _)) => V.omits name
  | _ => false

def stops (V : Revision) : Stmt → Bool
  | .giveBack keyword _ => V.cuts keyword
  | _ => false

def tokens (V : Revision) (ts : List Token) : List Token := (ts.filter fun t => !V.omits t).map V.declare

-- Nothing is left out.
structure Whole (V : Revision) : Prop where
  omits : ∀ t, V.omits t = false
  cuts : ∀ t, V.cuts t = false

end Revision

def Routine.named (head : Token) : Routine → Routine
  | mk _ parameters body => mk head parameters body

mutual

def Expr.revise (V : Revision) : Expr → Expr
  | .literal value => .literal value
  | .grouping inner => .grouping (inner.revise V)
  | .unary operator operand => .unary operator (operand.revise V)
  | .binary left operator right => .binary (left.revise V) operator (right.revise V)
  | .logical left operator right => .logical (left.revise V) operator (right.revise V)
  | .variable i name => .variable i (V.refer i name)
  | .assign i name value => .assign i (V.refer i name) (value.revise V)
  | .call callee close arguments => .call (callee.revise V) close (Expr.reviseAll V arguments)
  | .lambda routine => .lambda (routine.revise V)
  | .get object name => .get (object.revise V) name
  | .set object name value => .set (object.revise V) name (value.revise V)
  | .this i keyword => .this i (V.refer i keyword)

def Expr.reviseAll (V : Revision) : List Expr → List Expr
  | [] => []
  | e :: rest => e.revise V :: Expr.reviseAll V rest

def Stmt.revise (V : Revision) : Stmt → Stmt
  | .expression value => .expression (value.revise V)
  | .print keyword value => .print keyword (value.revise V)
  | .var name none => .var (V.declare name) none
  | .var name (some initial) => .var (V.declare name) (some (initial.revise V))
  | .block body => .block (Stmt.reviseAll V body)
  | .branch condition yes none => .branch (condition.revise V) (yes.revise V) none
  | .branch condition yes (some no) => .branch (condition.revise V) (yes.revise V) (some (no.revise V))
  | .loop condition body => .loop (condition.revise V) (body.revise V)
  | .leave keyword => .leave keyword
  | .function routine => .function ((routine.revise V).named (V.declare routine.head))
  | .giveBack keyword none => .giveBack keyword none
  | .giveBack keyword (some value) => .giveBack keyword (some (value.revise V))
  | .classes name methods => .classes (V.declare name) (Routine.reviseAll V methods)

def Stmt.reviseAll (V : Revision) : List Stmt → List Stmt
  | [] => []
  | s :: rest =>
    if V.drops s then Stmt.reviseAll V rest
    else if V.stops s then [s.revise V]
    else s.revise V :: Stmt.reviseAll V rest

-- What a routine is called stays.
def Routine.revise (V : Revision) : Routine → Routine
  | .mk head parameters body => .mk head (parameters.map V.declare) (Stmt.reviseAll V body)

def Routine.reviseAll (V : Revision) : List Routine → List Routine
  | [] => []
  | r :: rest => r.revise V :: Routine.reviseAll V rest

end

section

variable (V : Revision)

theorem Expr.reviseAll_eq_map (es : List Expr) : Expr.reviseAll V es = es.map (Expr.revise V) := by
  induction es with
  | nil => rfl
  | cons e rest ih => rw [Expr.reviseAll, ih, List.map_cons]

theorem Routine.reviseAll_eq_map (rs : List Routine) : Routine.reviseAll V rs = rs.map (Routine.revise V) := by
  induction rs with
  | nil => rfl
  | cons r rest ih => rw [Routine.reviseAll, ih, List.map_cons]

@[simp] theorem Routine.revise_head (r : Routine) : (r.revise V).head = r.head := by
  cases r; rfl

@[simp] theorem Routine.revise_name (r : Routine) : (r.revise V).name = r.name := by
  cases r; rfl

@[simp] theorem Routine.revise_parameters (r : Routine) : (r.revise V).parameters = r.parameters.map V.declare := by
  cases r; rfl

@[simp] theorem Routine.revise_body (r : Routine) : (r.revise V).body = Stmt.reviseAll V r.body := by
  cases r; rfl

@[simp] theorem Routine.revise_isInitializer (r : Routine) : (r.revise V).isInitializer = r.isInitializer := by
  cases r; rfl

@[simp] theorem Routine.revise_arity (r : Routine) : (r.revise V).arity = r.arity := by
  unfold Routine.arity
  rw [Routine.revise_parameters, List.length_map]

@[simp] theorem Routine.named_head (r : Routine) : r.named r.head = r := by
  cases r; rfl

theorem Stmt.revise_declares (s : Stmt) : (s.revise V).declares = s.declares.map V.declare := by
  cases s with
  | var name initial => cases initial <;> rfl
  | branch condition yes no => cases no <;> rfl
  | giveBack keyword value => cases value <;> rfl
  | function routine =>
    obtain ⟨head, parameters, body⟩ := routine
    rfl
  | _ => rfl

theorem Stmt.revise_declares_nil {s : Stmt} (none : s.declares = []) : (s.revise V).declares = [] := by
  rw [Stmt.revise_declares, none, List.map_nil]

end

section

variable {V : Revision} {s : Stmt} {rest : List Stmt}

theorem Stmt.reviseAll_dropped (dropped : V.drops s = true) :
    Stmt.reviseAll V (s :: rest) = Stmt.reviseAll V rest := by
  rw [Stmt.reviseAll, if_pos dropped]

theorem Stmt.reviseAll_stopped (kept : V.drops s = false) (stopped : V.stops s = true) :
    Stmt.reviseAll V (s :: rest) = [s.revise V] := by
  rw [Stmt.reviseAll, if_neg (Bool.eq_false_iff.mp kept), if_pos stopped]

theorem Stmt.reviseAll_kept (kept : V.drops s = false) (further : V.stops s = false) :
    Stmt.reviseAll V (s :: rest) = s.revise V :: Stmt.reviseAll V rest := by
  rw [Stmt.reviseAll, if_neg (Bool.eq_false_iff.mp kept), if_neg (Bool.eq_false_iff.mp further)]

theorem Revision.dropped_var (dropped : V.drops s = true) :
    ∃ t initial, s = .var t initial ∧ V.omits t = true ∧ (initial = none ∨ ∃ value, initial = some (.literal value)) := by
  unfold Revision.drops at dropped
  split at dropped
  · exact ⟨_, _, rfl, dropped, .inl rfl⟩
  · exact ⟨_, _, rfl, dropped, .inr ⟨_, rfl⟩⟩
  · cases dropped

theorem Revision.drops_nameless (nameless : s.declares = []) : V.drops s = false := by
  refine Bool.eq_false_iff.mpr fun dropped => ?_
  obtain ⟨t, initial, rfl, _⟩ := Revision.dropped_var dropped
  cases nameless

theorem Revision.Whole.drops (whole : V.Whole) (s : Stmt) : V.drops s = false := by
  refine Bool.eq_false_iff.mpr fun dropped => ?_
  obtain ⟨t, _, _, omitted, _⟩ := Revision.dropped_var dropped
  rw [whole.omits t] at omitted
  cases omitted

theorem Revision.Whole.stops (whole : V.Whole) (s : Stmt) : V.stops s = false := by
  unfold Revision.stops
  split
  · exact whole.cuts _
  · rfl

theorem Revision.Whole.tokens (whole : V.Whole) (ts : List Token) : V.tokens ts = ts.map V.declare := by
  unfold Revision.tokens
  rw [List.filter_eq_self.mpr fun t _ => by rw [whole.omits t]; rfl]

end

-- A revised tree is formed as the tree is.
section

variable (V : Revision)

mutual

theorem Expr.revise_formed : (e : Expr) → e.Formed → (e.revise V).Formed
  | .literal _, _ => trivial
  | .grouping inner, h => inner.revise_formed h
  | .unary _ operand, h => operand.revise_formed h
  | .binary left _ right, h => ⟨left.revise_formed h.1, right.revise_formed h.2⟩
  | .logical left _ right, h => ⟨left.revise_formed h.1, right.revise_formed h.2⟩
  | .variable _ _, _ => trivial
  | .assign _ _ value, h => value.revise_formed h
  | .call callee _ arguments, h => ⟨callee.revise_formed h.1, Expr.reviseAll_formed arguments h.2⟩
  | .lambda routine, h => routine.revise_formed h
  | .get object _, h => object.revise_formed h
  | .set object _ value, h => ⟨object.revise_formed h.1, value.revise_formed h.2⟩
  | .this _ _, _ => trivial

theorem Expr.reviseAll_formed : (es : List Expr) → Expr.FormedAll es → Expr.FormedAll (Expr.reviseAll V es)
  | [], _ => trivial
  | e :: rest, h => ⟨e.revise_formed h.1, Expr.reviseAll_formed rest h.2⟩

theorem Stmt.revise_formed : (s : Stmt) → s.Formed → (s.revise V).Formed
  | .expression value, h => value.revise_formed h
  | .print _ value, h => value.revise_formed h
  | .var _ none, _ => trivial
  | .var _ (some initial), h => initial.revise_formed h
  | .block body, h => Stmt.reviseAll_formed body h
  | .branch condition yes none, h =>
    ⟨condition.revise_formed h.1, yes.revise_formed h.2.1, Stmt.revise_declares_nil V h.2.2⟩
  | .branch condition yes (some no), h =>
    ⟨condition.revise_formed h.1, ⟨yes.revise_formed h.2.1.1, Stmt.revise_declares_nil V h.2.1.2⟩,
      no.revise_formed h.2.2.1, Stmt.revise_declares_nil V h.2.2.2⟩
  | .loop condition body, h =>
    ⟨condition.revise_formed h.1, body.revise_formed h.2.1, Stmt.revise_declares_nil V h.2.2⟩
  | .leave _, _ => trivial
  | .function (.mk _ _ body), h => Stmt.reviseAll_formed body h
  | .giveBack _ none, _ => trivial
  | .giveBack _ (some value), h => value.revise_formed h
  | .classes _ methods, h => Routine.reviseAll_formed methods h

theorem Stmt.reviseAll_formed : (ss : List Stmt) → Stmt.FormedAll ss → Stmt.FormedAll (Stmt.reviseAll V ss)
  | [], _ => trivial
  | s :: rest, h => by
    have later := Stmt.reviseAll_formed rest h.2
    have here := s.revise_formed h.1
    unfold Stmt.reviseAll
    split
    · exact later
    · split
      · exact ⟨here, trivial⟩
      · exact ⟨here, later⟩

theorem Routine.revise_formed : (r : Routine) → r.Formed → (r.revise V).Formed
  | .mk _ _ body, h => Stmt.reviseAll_formed body h

theorem Routine.reviseAll_formed : (rs : List Routine) → Routine.FormedAll rs →
    Routine.FormedAll (Routine.reviseAll V rs)
  | [], _ => trivial
  | r :: rest, h => ⟨r.revise_formed h.1, Routine.reviseAll_formed rest h.2⟩

end

end

def Mention.revise (V : Revision) : Mention → Mention
  | ⟨t, none⟩ => ⟨V.declare t, none⟩
  | ⟨t, some i⟩ => ⟨V.refer i t, some i⟩

-- It mentions what the tree mentions, revised, in the same order; some of it may be gone.
section

variable (V : Revision)

mutual

theorem Expr.revise_mentions : (e : Expr) → (e.revise V).mentions.Sublist (e.mentions.map (Mention.revise V))
  | .literal _ => .slnil
  | .grouping inner => inner.revise_mentions
  | .unary _ operand => operand.revise_mentions
  | .binary left _ right => by
    simpa [Expr.revise, Expr.mentions] using left.revise_mentions.append right.revise_mentions
  | .logical left _ right => by
    simpa [Expr.revise, Expr.mentions] using left.revise_mentions.append right.revise_mentions
  | .variable _ _ => .refl _
  | .assign i name value => by
    simpa [Expr.revise, Expr.mentions, Mention.revise] using
      value.revise_mentions.append (.refl [⟨V.refer i name, some i⟩])
  | .call callee _ arguments => by
    simpa [Expr.revise, Expr.mentions] using callee.revise_mentions.append (Expr.reviseAll_mentions arguments)
  | .lambda routine => routine.revise_mentions
  | .get object _ => object.revise_mentions
  | .set object _ value => by
    simpa [Expr.revise, Expr.mentions] using object.revise_mentions.append value.revise_mentions
  | .this _ _ => .refl _

theorem Expr.reviseAll_mentions : (es : List Expr) →
    (Expr.mentionsAll (Expr.reviseAll V es)).Sublist ((Expr.mentionsAll es).map (Mention.revise V))
  | [] => .slnil
  | e :: rest => by
    simpa [Expr.reviseAll, Expr.mentionsAll] using e.revise_mentions.append (Expr.reviseAll_mentions rest)

theorem Stmt.revise_mentions : (s : Stmt) → (s.revise V).mentions.Sublist (s.mentions.map (Mention.revise V))
  | .expression value => value.revise_mentions
  | .print _ value => value.revise_mentions
  | .var _ none => .refl _
  | .var _ (some initial) => .cons_cons _ initial.revise_mentions
  | .block body => Stmt.reviseAll_mentions body
  | .branch condition yes none => by
    simpa [Stmt.revise, Stmt.mentions] using condition.revise_mentions.append yes.revise_mentions
  | .branch condition yes (some no) => by
    simpa [Stmt.revise, Stmt.mentions] using
      condition.revise_mentions.append (yes.revise_mentions.append no.revise_mentions)
  | .loop condition body => by
    simpa [Stmt.revise, Stmt.mentions] using condition.revise_mentions.append body.revise_mentions
  | .leave _ => .slnil
  | .function (.mk head parameters body) => by
    have inner : ((parameters.map V.declare).map fun t => (⟨t, none⟩ : Mention)) =
        (parameters.map fun t => (⟨t, none⟩ : Mention)).map (Mention.revise V) := by
      rw [List.map_map, List.map_map]
      rfl
    refine .cons_cons _ ?_
    show (List.map _ (parameters.map V.declare) ++ _).Sublist _
    rw [inner, Routine.mentions, List.map_append]
    exact .append (.refl _) (Stmt.reviseAll_mentions body)
  | .giveBack _ none => .slnil
  | .giveBack _ (some value) => value.revise_mentions
  | .classes _ methods => .cons_cons _ (Routine.reviseAll_mentions methods)

theorem Stmt.reviseAll_mentions : (ss : List Stmt) →
    (Stmt.mentionsAll (Stmt.reviseAll V ss)).Sublist ((Stmt.mentionsAll ss).map (Mention.revise V))
  | [] => .slnil
  | s :: rest => by
    have later := Stmt.reviseAll_mentions rest
    have here := s.revise_mentions
    rw [Stmt.mentionsAll, List.map_append]
    unfold Stmt.reviseAll
    split
    · exact later.trans (List.sublist_append_right _ _)
    · split
      · simpa [Stmt.mentionsAll] using here.trans (List.sublist_append_left _ _)
      · exact here.append later

theorem Routine.revise_mentions : (r : Routine) → (r.revise V).mentions.Sublist (r.mentions.map (Mention.revise V))
  | .mk _ parameters body => by
    have inner : ((parameters.map V.declare).map fun t => (⟨t, none⟩ : Mention)) =
        (parameters.map fun t => (⟨t, none⟩ : Mention)).map (Mention.revise V) := by
      rw [List.map_map, List.map_map]
      rfl
    show (List.map _ (parameters.map V.declare) ++ _).Sublist _
    rw [inner, Routine.mentions, List.map_append]
    exact .append (.refl _) (Stmt.reviseAll_mentions body)

theorem Routine.reviseAll_mentions : (rs : List Routine) →
    (Routine.mentionsAll (Routine.reviseAll V rs)).Sublist ((Routine.mentionsAll rs).map (Mention.revise V))
  | [] => .slnil
  | r :: rest => by
    simpa [Routine.reviseAll, Routine.mentionsAll] using r.revise_mentions.append (Routine.reviseAll_mentions rest)

end

end

end ScopeScript
