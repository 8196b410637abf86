import ScopeScript.Proofs.Grammar.Phrase
import ScopeScript.Proofs.Grammar.Mention

namespace ScopeScript

def Token.Earlier (a b : Token) : Prop := b.position.before a.position = false

def Precedes (first second : List Token) : Prop := ∀ a ∈ first, ∀ b ∈ second, a.Earlier b

-- Names stand where a source puts them: a declaration comes before what it is for and between the
-- statements around it, and the body of a conditional or loop declares nothing by itself.
mutual

def Expr.Ordered : Expr → Prop
  | .literal _ => True
  | .grouping inner => inner.Ordered
  | .unary _ operand => operand.Ordered
  | .binary left _ right => left.Ordered ∧ right.Ordered
  | .logical left _ right => left.Ordered ∧ right.Ordered
  | .variable _ _ => True
  | .assign _ _ value => value.Ordered
  | .call callee _ arguments => callee.Ordered ∧ Expr.OrderedAll arguments
  | .lambda routine => routine.Ordered
  | .get object _ => object.Ordered
  | .set object _ value => object.Ordered ∧ value.Ordered
  | .this _ _ => True

def Expr.OrderedAll : List Expr → Prop
  | [] => True
  | e :: rest => e.Ordered ∧ Expr.OrderedAll rest

def Stmt.Ordered : Stmt → Prop
  | .expression value => value.Ordered
  | .print _ value => value.Ordered
  | .var _ none => True
  | .var name (some initial) => initial.Ordered ∧ Precedes [name] (tokensOf initial.mentions)
  | .block body => Stmt.OrderedAll body
  | .branch condition yes none => condition.Ordered ∧ yes.Ordered ∧ yes.declares = []
  | .branch condition yes (some no) =>
    condition.Ordered ∧ (yes.Ordered ∧ yes.declares = []) ∧ no.Ordered ∧ no.declares = []
  | .loop condition body => condition.Ordered ∧ body.Ordered ∧ body.declares = []
  | .leave _ => True
  | .function routine => routine.Ordered ∧ Precedes [routine.head] (tokensOf routine.mentions)
  | .giveBack _ none => True
  | .giveBack _ (some value) => value.Ordered
  | .classes name methods =>
    Routine.OrderedAll methods ∧ Precedes [name] (tokensOf (Routine.mentionsAll methods))

def Stmt.OrderedAll : List Stmt → Prop
  | [] => True
  | s :: rest => (s.Ordered ∧ Stmt.OrderedAll rest) ∧
    Precedes s.declares (tokensOf (Stmt.mentionsAll rest)) ∧
    Precedes (tokensOf s.mentions) (rest.flatMap Stmt.declares)

def Routine.Ordered : Routine → Prop
  | .mk _ parameters body =>
    Stmt.OrderedAll body ∧ Precedes parameters (tokensOf (Stmt.mentionsAll body))

def Routine.OrderedAll : List Routine → Prop
  | [] => True
  | r :: rest => r.Ordered ∧ Routine.OrderedAll rest

end

theorem Precedes.mono (h : Precedes first second) (fewer : ∀ t ∈ a, t ∈ first)
    (fewer' : ∀ t ∈ b, t ∈ second) : Precedes a b :=
  fun t inA u inB => h t (fewer t inA) u (fewer' u inB)

theorem Stmt.declares_mentioned (s : Stmt) : ∀ t ∈ s.declares, t ∈ tokensOf s.mentions := by
  intro t member
  cases s with
  | var name initial => cases initial <;> simp_all [declares, mentions]
  | function routine => simp_all [declares, mentions]
  | classes name methods => simp_all [declares, mentions]
  | _ => cases member

theorem Stmt.declaresAll_mentioned (ss : List Stmt) :
    ∀ t ∈ ss.flatMap Stmt.declares, t ∈ tokensOf (Stmt.mentionsAll ss) := by
  induction ss with
  | nil => simp
  | cons s rest ih =>
    intro t member
    rw [List.flatMap_cons, List.mem_append] at member
    rw [Stmt.mentionsAll, tokensOf_append, List.mem_append]
    exact member.imp (s.declares_mentioned t) (ih t)

-- What the tokens of a phrase say about its tree. The tree after a repetition has the names of the
-- tree before it and names from the tokens.
def Phrase.Placed : Phrase → List Token → Prop
  | .declarations ss, w => Stmt.OrderedAll ss ∧ ∀ t ∈ tokensOf (Stmt.mentionsAll ss), t ∈ w
  | .declaration s, w => s.Ordered ∧ ∀ t ∈ tokensOf s.mentions, t ∈ w
  | .functions rs, w => Routine.OrderedAll rs ∧ ∀ t ∈ tokensOf (Routine.mentionsAll rs), t ∈ w
  | .function r, w => (r.Ordered ∧ Precedes [r.head] (tokensOf r.mentions)) ∧
    ∀ t ∈ r.head :: tokensOf r.mentions, t ∈ w
  | .routine r, w => r.Ordered ∧ ∀ t ∈ tokensOf r.mentions, t ∈ w
  | .parameters ps, w => ∀ t ∈ ps, t ∈ w
  | .names ps, w => ∀ t ∈ ps, t ∈ w
  | .variable s, w => s.Ordered ∧ ∀ t ∈ tokensOf s.mentions, t ∈ w
  | .statement _ s, w => (s.Ordered ∧ s.declares = []) ∧ ∀ t ∈ tokensOf s.mentions, t ∈ w
  | .sentence s, w => (s.Ordered ∧ s.declares = []) ∧ ∀ t ∈ tokensOf s.mentions, t ∈ w
  | .firstClause none, _ => True
  | .firstClause (some s), w => s.Ordered ∧ ∀ t ∈ tokensOf s.mentions, t ∈ w
  | .optional none, _ => True
  | .optional (some e), w => e.Ordered ∧ ∀ t ∈ tokensOf e.mentions, t ∈ w
  | .expression e, w => e.Ordered ∧ ∀ t ∈ tokensOf e.mentions, t ∈ w
  | .rank _ e, w => e.Ordered ∧ ∀ t ∈ tokensOf e.mentions, t ∈ w
  | .further _ before after, w => (before.Ordered → after.Ordered) ∧
    ∀ t ∈ tokensOf after.mentions, t ∈ tokensOf before.mentions ∨ t ∈ w
  | .unary e, w => e.Ordered ∧ ∀ t ∈ tokensOf e.mentions, t ∈ w
  | .call e, w => e.Ordered ∧ ∀ t ∈ tokensOf e.mentions, t ∈ w
  | .suffixes before after, w => (before.Ordered → after.Ordered) ∧
    ∀ t ∈ tokensOf after.mentions, t ∈ tokensOf before.mentions ∨ t ∈ w
  | .values es, w => Expr.OrderedAll es ∧ ∀ t ∈ tokensOf (Expr.mentionsAll es), t ∈ w
  | .expressions es, w => Expr.OrderedAll es ∧ ∀ t ∈ tokensOf (Expr.mentionsAll es), t ∈ w
  | .primary e, w => e.Ordered ∧ ∀ t ∈ tokensOf e.mentions, t ∈ w

theorem Phrase.placed_operand (k : Rank) (e : Expr) (w : List Token) :
    (Phrase.operand k e).Placed w ↔ e.Ordered ∧ ∀ t ∈ tokensOf e.mentions, t ∈ w := by
  cases k <;> rfl

theorem Rank.node_ordered (k : Rank) (left : Expr) (operator : Token) (right : Expr) :
    (k.node left operator right).Ordered ↔ left.Ordered ∧ right.Ordered := by
  cases k <;> rfl

theorem Rank.node_mentions (k : Rank) (left : Expr) (operator : Token) (right : Expr) :
    (k.node left operator right).mentions = left.mentions ++ right.mentions := by
  cases k <;> rfl

-- The last clause of a for loop stands behind the body in the tree and before it in the source;
-- neither declares anything.
theorem spelledLoop_placed {u v w x : List Token} {initial : Option Stmt}
    {condition step : Option Expr} {body : Stmt}
    (first : (Phrase.firstClause initial).Placed u) (test : (Phrase.optional condition).Placed v)
    (last : (Phrase.optional step).Placed w) (inner : (Phrase.statement hungry body).Placed x)
    (apart : Precedes u (v ++ (w ++ x))) :
    (Phrase.statement hungry (spelledLoop initial condition step body)).Placed
      (u ++ (v ++ (w ++ x))) := by
  have declared : ∀ s, initial = some s → ∀ t ∈ s.declares, t ∈ u := by
    rintro s rfl t member
    exact first.2 t (s.declares_mentioned t member)
  cases initial <;> cases condition <;> cases step <;>
    simp_all [Phrase.Placed, spelledLoop, Stmt.Ordered, Stmt.OrderedAll, Expr.Ordered, Stmt.mentions,
      Expr.mentions, Stmt.mentionsAll, Stmt.declares, Precedes, or_imp, forall_and]

theorem Derives.placed (h : Derives p w) : w.Pairwise Token.Earlier → p.Placed w := by
  induction h with
  | noDeclarations => exact fun _ => ⟨trivial, nofun⟩
  | @declarations s v rest w first others ihFirst ihOthers =>
    intro sorted
    obtain ⟨sortedFirst, sortedOthers, apart⟩ := List.pairwise_append.mp sorted
    obtain ⟨ordered, names⟩ := ihFirst sortedFirst
    obtain ⟨orderedAll, namesAll⟩ := ihOthers sortedOthers
    have before : Precedes v w := apart
    refine ⟨⟨⟨ordered, orderedAll⟩, ?_, ?_⟩, ?_⟩
    · exact before.mono (fun t member => names t (s.declares_mentioned t member)) namesAll
    · exact before.mono names fun t member => namesAll t (Stmt.declaresAll_mentioned rest t member)
    · intro t member
      rw [Stmt.mentionsAll, tokensOf_append, List.mem_append] at member
      exact List.mem_append.mpr (member.imp (names t) (namesAll t))
  | @forStatement initial u condition v step w hungry body x _ _ semicolon close opening left first test
      stop last right inner ihFirst ihTest ihLast ihInner =>
    intro sorted
    have tail := (List.pairwise_cons.mp (List.pairwise_cons.mp sorted).2).2
    have inside : (u ++ (v ++ (w ++ x))).Sublist (u ++ (v ++ semicolon :: (w ++ close :: x))) :=
      .append (.refl _) (.append (.refl _) (.cons _ (.append (.refl _) (.cons _ (.refl _)))))
    obtain ⟨sortedFirst, others, apart⟩ := List.pairwise_append.mp (tail.sublist inside)
    obtain ⟨sortedTest, others, _⟩ := List.pairwise_append.mp others
    obtain ⟨sortedLast, sortedInner, _⟩ := List.pairwise_append.mp others
    obtain ⟨ordered, names⟩ := spelledLoop_placed (ihFirst sortedFirst)
      (ihTest sortedTest) (ihLast sortedLast) (ihInner sortedInner) apart
    refine ⟨ordered, fun t member => ?_⟩
    exact List.mem_cons_of_mem _ (List.mem_cons_of_mem _ (inside.subset (names t member)))
  | @returnStatement o w _ _ opening inner stop ihInner =>
    intro sorted
    obtain ⟨_, sortedRest⟩ := List.pairwise_cons.mp sorted
    have known := ihInner (List.pairwise_append.mp sortedRest).1
    cases o with
    | none => exact ⟨⟨trivial, rfl⟩, nofun⟩
    | some e =>
      refine ⟨⟨known.1, rfl⟩, fun t member => ?_⟩
      exact List.mem_cons_of_mem _ (List.mem_append_left _ (known.2 t member))
  | @rank k left v e w first others ihFirst ihOthers =>
    intro sorted
    obtain ⟨sortedFirst, sortedOthers, _⟩ := List.pairwise_append.mp sorted
    obtain ⟨ordered, names⟩ := (Phrase.placed_operand _ _ _).mp (ihFirst sortedFirst)
    obtain ⟨kept, added⟩ := ihOthers sortedOthers
    refine ⟨kept ordered, fun t member => ?_⟩
    exact List.mem_append.mpr ((added t member).imp_left (names t))
  | further spelled next others ihNext ihOthers =>
    intro sorted
    obtain ⟨_, sortedRest⟩ := List.pairwise_cons.mp sorted
    obtain ⟨sortedNext, sortedOthers, _⟩ := List.pairwise_append.mp sortedRest
    obtain ⟨ordered, names⟩ := (Phrase.placed_operand _ _ _).mp (ihNext sortedNext)
    obtain ⟨kept, added⟩ := ihOthers sortedOthers
    refine ⟨fun before => kept ((Rank.node_ordered ..).mpr ⟨before, ordered⟩), fun t member => ?_⟩
    have origin := added t member
    rw [Rank.node_mentions, tokensOf_append, List.mem_append] at origin
    rcases origin with (before | right) | later
    · exact .inl before
    · exact .inr (List.mem_cons_of_mem _ (List.mem_append_left _ (names t right)))
    · exact .inr (List.mem_cons_of_mem _ (List.mem_append_right _ later))
  | @call _ v _ w first others ihFirst ihOthers =>
    intro sorted
    obtain ⟨sortedFirst, sortedOthers, _⟩ := List.pairwise_append.mp sorted
    obtain ⟨ordered, names⟩ := ihFirst sortedFirst
    obtain ⟨kept, added⟩ := ihOthers sortedOthers
    refine ⟨kept ordered, fun t member => ?_⟩
    exact List.mem_append.mpr ((added t member).imp_left (names t))
  | callSuffix left inner right others ihInner ihOthers =>
    intro sorted
    obtain ⟨_, sortedRest⟩ := List.pairwise_cons.mp sorted
    obtain ⟨sortedInner, sortedTail, _⟩ := List.pairwise_append.mp sortedRest
    obtain ⟨ordered, names⟩ := ihInner sortedInner
    obtain ⟨kept, added⟩ := ihOthers (List.pairwise_cons.mp sortedTail).2
    refine ⟨fun before => kept ⟨before, ordered⟩, fun t member => ?_⟩
    have origin := added t member
    rw [Expr.mentions, tokensOf_append, List.mem_append] at origin
    rcases origin with (before | value) | later
    · exact .inl before
    · exact .inr (List.mem_cons_of_mem _ (List.mem_append_left _ (names t value)))
    · exact .inr (List.mem_cons_of_mem _ (List.mem_append_right _ (List.mem_cons_of_mem _ later)))
  | getSuffix point named others ihOthers =>
    intro sorted
    obtain ⟨_, sortedRest⟩ := List.pairwise_cons.mp sorted
    obtain ⟨kept, added⟩ := ihOthers (List.pairwise_cons.mp sortedRest).2
    refine ⟨kept, fun t member => ?_⟩
    exact (added t member).imp_right fun later => List.mem_cons_of_mem _ (List.mem_cons_of_mem _ later)
  | _ =>
    intro sorted
    simp_all [Phrase.Placed, List.pairwise_append, Expr.Ordered,
      Expr.OrderedAll, Stmt.Ordered, Stmt.declares,
      Routine.Ordered, Routine.OrderedAll, Routine.head, Expr.mentions, Expr.mentionsAll, Stmt.mentions,
      Routine.mentions, Routine.mentionsAll, Precedes, or_imp, forall_and]

end ScopeScript