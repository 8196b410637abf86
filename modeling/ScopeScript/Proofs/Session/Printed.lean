import ScopeScript.Proofs.Lexis.Printed
import ScopeScript.Proofs.Session.Marks

namespace ScopeScript

open Request
open Running (Exhausted)

theorem Renaming.indent_orderly (columns : Nat) : (indent columns).Orderly := by
  intro a b
  have later : ∀ p : Position, p.line ≠ 1 → (1 == p.line) = false ∧ (p.line == 1) = false :=
    fun p other => ⟨beq_false_of_ne other.symm, beq_false_of_ne other⟩
  by_cases first : a.line = 1 <;> by_cases second : b.line = 1 <;>
    simp [indent, Position.indent, Position.before, first, second, later]

def Machine.wrote (m : Machine) (text : String) : Machine :=
  { m with sink := { m.sink with written := m.sink.written ++ text.toUTF8 } }

theorem Running.print_unlimited {m : Machine} (limit : m.sink.limit = none) (keyword : Token) (text : String) :
    print keyword text m = .ok () (m.wrote text) := by
  obtain ⟨store, globals, scope, depths, ⟨written, bound, fails⟩, clock⟩ := m
  cases limit
  rfl

theorem Machine.Alike.wrote {place : Position → Position} {m n : Machine} (h : m.Alike place n) (text : String) :
    (m.wrote text).Alike place (n.wrote text) := by
  refine ⟨h.store, h.globals, h.scope, ?_, h.clock⟩
  unfold Machine.wrote
  rw [h.sink]

-- A program that prints one value evaluates it first. Statements spend two more units of fuel.
theorem Stmt.executeAll_print (fuel : Nat) (keyword : Token) (e : Expr) :
    Stmt.executeAll (fuel + 2) [.print keyword e] =
      e.evaluate fuel >>= fun v => Running.print keyword (v.text ++ "\n") >>= fun _ => pure Ending.normal := by
  have executed : Stmt.execute (fuel + 1) (.print keyword e) =
      e.evaluate fuel >>= fun v => Running.print keyword (v.text ++ "\n") >>= fun _ => pure Ending.normal := rfl
  have nothing : Stmt.executeAll (fuel + 1) [] = pure .normal := rfl
  rw [Stmt.executeAll_cons, executed]
  simp only [bind_assoc, pure_bind, nothing]

section

variable {fuel : Nat} {e : Expr} {m after : Machine}

theorem Stmt.print_given {v : Value} (ran : e.evaluate fuel m = .ok v after) (limit : after.sink.limit = none)
    (keyword : Token) :
    Stmt.executeAll (fuel + 2) [.print keyword e] m = .ok .normal (after.wrote (v.text ++ "\n")) := by
  rw [Stmt.executeAll_print]
  show EStateM.bind _ (fun v => EStateM.bind _ _) m = _
  unfold EStateM.bind
  rw [ran]
  dsimp only
  rw [Running.print_unlimited limit]
  rfl

theorem Stmt.print_stopped {halt : Halt} (ran : e.evaluate fuel m = .error halt after) (keyword : Token) :
    Stmt.executeAll (fuel + 2) [.print keyword e] m = .error halt after := by
  rw [Stmt.executeAll_print]
  show EStateM.bind _ _ m = _
  unfold EStateM.bind
  rw [ran]

end

-- One problem as evaluation reports it and as the program that prints the value does. What stands in the
-- expression is farther to the right there; what stands in earlier code is where it was.
inductive Problem.Moved (blames : RuntimeFault → Prop) (before own : Position → Prop) : Problem → Problem → Prop where
  | static (f : StaticFault) : Moved blames before own (.static f) (.static (f.rename (.indent 6)))
  | inside (f : RuntimeFault) (blamed : blames (f.rename ⟨id, Position.asNew⟩)) (here : own f.token.position) :
      Moved blames before own (.runtime f) (.runtime (f.rename (.indent 6)))
  | earlier (f : RuntimeFault) (blamed : blames (f.rename ⟨id, Position.asOld⟩)) (there : before f.token.position) :
      Moved blames before own (.runtime f) (.runtime f)

-- No problem has two places to move to, even where earlier code has a token at the same place.
theorem Problem.Moved.unique {m : Machine} {e : Expr} {before own : Position → Prop} {problem one other : Problem}
    (h : Moved (m.Blames e) before own problem one) (h' : Moved (m.Blames e) before own problem other) :
    one = other := by
  have apart : ∀ f : RuntimeFault, m.Blames e (f.rename ⟨id, Position.asNew⟩) →
      ¬ m.Blames e (f.rename ⟨id, Position.asOld⟩) := by
    intro f new old
    have lines : 2 * f.token.position.line + 1 = 2 * f.token.position.line :=
      congrArg (fun f => f.token.position.line) (new.unique old)
    omega
  cases h with
  | static f =>
    cases h'
    rfl
  | inside f blamed =>
    cases h' with
    | inside => rfl
    | earlier _ blamed' => exact absurd blamed' (apart f blamed)
  | earlier f blamed =>
    cases h' with
    | inside _ blamed' => exact absurd blamed (apart f blamed')
    | earlier => rfl

-- An expression and the one that a program prints, which stands farther to the right, on machines with
-- tables of their own.
structure Paired (m n : Machine) (e e' : Expr) (before own : Position → Prop) : Prop where
  alike : m.Alike id n
  moved : ∀ place, e'.rename ⟨n.depths.code, place⟩ = e.rename ⟨m.depths.code, place ∘ Position.indent 6⟩
  stands : m.From before
  inner : (Code.expr e).From own m.depths
  limit : m.sink.limit = none

namespace Paired

variable {m n : Machine} {e e' : Expr} {before own : Position → Prop}

theorem twins (h : Paired m n e e' before own) (fuel : Nat) :
    Twins (fun _ => .start) (Value.rename ⟨m.depths.code, fun _ => .start⟩)
      (Value.rename ⟨n.depths.code, fun _ => .start⟩) (e.evaluate fuel m) (e'.evaluate fuel n) := by
  obtain ⟨table, agrees, agrees'⟩ := m.depths.common n.depths fun _ => .start
  have one := (commuting agrees fuel).expr e
  have other := (commuting agrees' fuel).expr e'
  rw [h.moved] at other
  exact (h.alike.forget _).twins one other

-- Both come to the same, with the value printed at the end of the one and given by the other.
theorem runs (h : Paired m n e e' before own) (keyword : Token) (fuel : Nat) :
    (∃ v after last, e.evaluate fuel m = .ok v after ∧
      Stmt.executeAll (fuel + 2) [.print keyword e'] n = .ok .normal last ∧
      (after.wrote (v.text ++ "\n")).Alike (fun _ => .start) last) ∨
    (∃ f g after last, e.evaluate fuel m = .error (.fault f) after ∧
      Stmt.executeAll (fuel + 2) [.print keyword e'] n = .error (.fault g) last ∧
      Problem.Moved (m.Blames e) before own (.runtime f) (.runtime g) ∧ after.Alike (fun _ => .start) last) ∨
    (Exhausted (e.evaluate fuel m) ∧ Exhausted (Stmt.executeAll (fuel + 2) [.print keyword e'] n)) := by
  have twins := h.twins fuel
  have keeps : m.Keeps (Running.last (e.evaluate fuel m)) := by
    have agrees : Renaming.Agrees ⟨id, id⟩ m.depths m.depths := fun _ => rfl
    exact (((commuting agrees fuel).expr e).last rfl).1
  cases ran : e.evaluate fuel m with
  | ok v after =>
    rw [ran] at twins keeps
    cases ran' : e'.evaluate fuel n with
    | error halt last =>
      rw [ran'] at twins
      cases twins
    | ok w last =>
      rw [ran'] at twins
      cases twins with
      | ok values alike =>
        have texts : v.text = w.text := by
          have same := congrArg Value.text values
          rwa [Value.rename_text, Value.rename_text] at same
        have limit : last.sink.limit = none := by
          rw [← alike.sink]
          exact keeps.limit.trans h.limit
        refine .inl ⟨v, after, _, rfl, Stmt.print_given ran' limit keyword, ?_⟩
        rw [texts]
        exact alike.wrote _
  | error halt after =>
    rw [ran] at twins
    cases ran' : e'.evaluate fuel n with
    | ok w last =>
      rw [ran'] at twins
      cases twins
    | error halt' last =>
      rw [ran'] at twins
      cases twins with
      | error halts alike =>
        cases halt with
        | fault f =>
          cases halt' with
          | fault g =>
            refine .inr (.inl ⟨f, g, after, last, rfl, Stmt.print_stopped ran' keyword, ?_, alike⟩)
            rcases h.stands.moved_fault h.inner h.alike (h.moved id) ran ran' with
              ⟨there, blamed, rfl⟩ | ⟨here, blamed, rfl⟩
            · exact .earlier _ blamed there
            · exact .inside f blamed here
          | outOfFuel => cases halts
        | outOfFuel =>
          cases halt' with
          | fault g => cases halts
          | outOfFuel => exact .inr (.inr ⟨⟨_, rfl⟩, ⟨_, Stmt.print_stopped ran' keyword⟩⟩)

end Paired

-- What an evaluation comes to, against what comes of printing.
inductive Printing (blames : RuntimeFault → Prop) (before own : Position → Prop) :
    Reply Value × Session → Reply (List Warning) × Session → Prop where
  | done {v : Value} {list : List Warning} {s t : Session}
      (alike : (s.machine.wrote (v.text ++ "\n")).Alike (fun _ => .start) t.machine) :
      Printing blames before own (.done v, s) (.done list, t)
  | rejected {problems others : List Problem} {s t : Session}
      (moved : List.Forall₂ (Problem.Moved blames before own) problems others)
      (alike : s.machine.Alike (fun _ => .start) t.machine) :
      Printing blames before own (.rejected problems, s) (.rejected others, t)

namespace Printing

variable {blames : RuntimeFault → Prop} {before own : Position → Prop} {x : Nat → Reply Value × Session}
  {y : Nat → Reply (List Warning) × Session}

theorem finished {one : Reply Value × Session} {other : Reply (List Warning) × Session}
    (h : Printing blames before own one other) : one.1 ≠ .unfinished ∧ other.1 ≠ .unfinished := by
  cases h <;> exact ⟨nofun, nofun⟩

theorem rejected_sink {one : Reply Value × Session} {other : Reply (List Warning) × Session}
    (h : Printing blames before own one other) {problems : List Problem} (failed : other.1 = .rejected problems) :
    one.2.machine.sink = other.2.machine.sink := by
  cases h with
  | done alike => cases failed
  | rejected moved alike => exact alike.sink

-- Fuel beyond the end changes neither, so any two ends can be compared at one fuel.
theorem settled (steps : ∀ fuel, ((x fuel).1 = .unfinished ∧ (y (fuel + 2)).1 = .unfinished) ∨
      Printing blames before own (x fuel) (y (fuel + 2)))
    (lasts : ∀ fuel more, fuel ≤ more → (x fuel).1 ≠ .unfinished → x more = x fuel)
    (lasts' : ∀ fuel more, fuel ≤ more → (y fuel).1 ≠ .unfinished → y more = y fuel) :
    ((∃ fuel, (x fuel).1 ≠ .unfinished) ↔ ∃ fuel, (y fuel).1 ≠ .unfinished) ∧
      ∀ fuel more, (x fuel).1 ≠ .unfinished → (y more).1 ≠ .unfinished →
        Printing blames before own (x fuel) (y more) := by
  refine ⟨⟨fun ⟨fuel, ended⟩ => ?_, fun ⟨more, ended⟩ => ?_⟩, fun fuel more ended ended' => ?_⟩
  · exact ⟨fuel + 2, ((steps fuel).resolve_left fun short => ended short.1).finished.2⟩
  · have later := lasts' more (more + 2) (Nat.le_add_right _ _) ended
    refine ⟨more, ((steps more).resolve_left fun short => ended ?_).finished.1⟩
    rw [← later]
    exact short.2
  · have one := lasts fuel (fuel + more) (Nat.le_add_right _ _) ended
    have other := lasts' more (fuel + more + 2) (by omega) ended'
    rw [← one, ← other]
    refine (steps (fuel + more)).resolve_left fun short => ended ?_
    rw [← one]
    exact short.1

end Printing

theorem Stmt.print_of_nameless {program : List Stmt} {keyword : Token} {inner : Expr}
    (same : Stmt.renameAll .nameless program = [.print keyword inner]) :
    ∃ e, program = [.print keyword e] ∧ e.rename .nameless = inner := by
  cases program with
  | nil => cases same
  | cons s rest =>
    obtain ⟨first, others⟩ := List.cons.inj same
    cases rest with
    | cons other more => cases others
    | nil =>
      cases s with
      | print word e =>
        cases first
        exact ⟨e, rfl, rfl⟩
      | var name initial => cases initial <;> cases first
      | branch condition yes no => cases no <;> cases first
      | giveBack word value => cases value <;> cases first
      | _ => cases first

namespace Session

variable {s : Session} {source : String} {e : Expr} {next : RefId}

theorem evaluate_parsed (parsed : parseExpression source s = (.done e, ⟨s.machine, next⟩)) (fuel : Nat) :
    evaluate fuel source s = match (resolveExpression e).faults with
      | [] => running (e.evaluate fuel) (s.note (.expr e) next)
      | faults => (.rejected (faults.map .static), s.note (.expr e) next) := by
  unfold evaluate andThen noting accepting
  rw [parsed]
  dsimp only
  cases (resolveExpression e).faults with
  | nil => rfl
  | cons fault rest => rfl

theorem run_faulty {program : List Stmt} (parsed : parse source s = (.done program, ⟨s.machine, next⟩))
    {fault : StaticFault} {rest : List StaticFault} (faulty : (resolveProgram program).faults = fault :: rest)
    (fuel : Nat) :
    run fuel source s = (.rejected ((fault :: rest).map .static), s.noted program next) := by
  unfold run resolve andThen noting accepting
  rw [parsed]
  dsimp only
  rw [faulty]
  rfl

-- The program that prints an expression is read where the expression is.
theorem printing_parsed (given : (parseExpression source s).1 = .done e) : ∃ next e' last,
    parseExpression source s = (.done e, ⟨s.machine, next⟩) ∧
      parse (printing source) s = (.done [.print printToken e'], ⟨s.machine, last⟩) ∧
        e'.rename .nameless = (e.rename (.indent 6)).rename .nameless := by
  have parsed : parseExpression source s = (.done e, (parseExpression source s).2) := Prod.ext given rfl
  obtain ⟨body, stop, scanned, inner, -, derived, -, kept⟩ := Inquiry.root_done (parseExpression_root parsed 0)
  generalize (parseExpression source s).2 = after at parsed kept
  obtain ⟨machine, next⟩ := after
  cases kept
  obtain ⟨semicolon, ending, closing, outer', scanned'⟩ := tokens_printing scanned
  have printed : Derives (.declarations [.print printToken (e.rename (.indent 6))])
      (printToken :: body.map (Token.rename (.indent 6)) ++ [semicolon] ++ []) :=
    match derived with
    | .expr h => .declarations (.statement (.printStatement rfl (h.rename (.indent 6)) closing)) .noDeclarations
  rw [List.append_nil] at printed
  have inner' : ∀ t ∈ printToken :: body.map (Token.rename (.indent 6)) ++ [semicolon], t.isStop = false := by
    intro t member
    rcases List.mem_append.mp member with ahead | last
    · rcases List.mem_cons.mp ahead with rfl | within
      · rfl
      · obtain ⟨t, inside, rfl⟩ := List.mem_map.mp within
        exact inner t inside
    · rw [List.mem_singleton.mp last, Token.isStop, closing]
      rfl
  obtain ⟨program, last, parsed', same⟩ := parse_of_derived scanned' inner' outer' printed s
  obtain ⟨e', rfl, wiped⟩ := Stmt.print_of_nameless same
  exact ⟨next, e', last, parsed, parsed', wiped⟩

theorem printing_faults {e' : Expr} (wiped : e'.rename .nameless = (e.rename (.indent 6)).rename .nameless) :
    (resolveProgram [.print printToken e']).faults =
      (resolveExpression e).faults.map (StaticFault.rename (.indent 6)) := by
  have codes : (Code.expr e').rename .nameless = (Code.expr (e.rename (.indent 6))).rename .nameless :=
    congrArg Code.expr wiped
  have found : (e'.resolve .start).faults = ((e.rename (.indent 6)).resolve .start).faults :=
    (Code.resolve_nameless codes).1
  have blank : Walk.start.rename (.indent 6) .start = .start := by simp [Walk.rename, Walk.start]
  have walked := e.resolve_rename .start (Renaming.indent_orderly 6) .start
  rw [blank] at walked
  show (e'.resolve .start).faults.toList = (e.resolve .start).faults.toList.map _
  rw [found, walked]
  simp [Walk.rename, Walk.start]

-- What both need: where the expression and the program are read, and the sessions they leave.
theorem paired {before : Position → Prop} (tidy : s.Tidy) (stands : s.machine.From before)
    (limit : s.machine.sink.limit = none) {e' : Expr} {last : RefId}
    (parsed : parseExpression source s = (.done e, ⟨s.machine, next⟩))
    (parsed' : parse (printing source) s = (.done [.print printToken e'], ⟨s.machine, last⟩))
    (wiped : e'.rename .nameless = (e.rename (.indent 6)).rename .nameless)
    (clean : (resolveExpression e).faults = []) (clean' : (resolveProgram [.print printToken e']).faults = []) :
    Paired (s.note (.expr e) next).machine (s.noted [.print printToken e'] last).machine e e' before
      (placesOf source) := by
  have fresh := parseExpression_fresh parsed
  have fresh' := parse_fresh parsed'
  have noted := fun place => tidy.alike (parseExpression_grows parsed) fresh.notes place
  have noted' := tidy.alike (parse_grows parsed') fresh'.notes id
  have lawful := fresh.lawful clean s.machine.depths
  have lawful' := fresh'.lawful clean' s.machine.depths
  refine ⟨(noted id).symm.trans noted', fun place => ?_, stands.alike noted, ?_, limit⟩
  · have codes : (Code.expr e').rename .nameless = (Code.expr (e.rename (.indent 6))).rename .nameless :=
      congrArg Code.expr wiped
    have inside : Spot.Within ⟨.outermost, .stmts [.print printToken e']⟩ ⟨.outermost, .expr e'⟩ :=
      .part (.part .root List.mem_cons_self) List.mem_cons_self
    have located := Code.rename_code lawful' inside place
    rw [Code.locate_nameless codes] at located
    have moved := (Code.expr e).locate_rename (.indent 6) place Setting.outermost.visible
    exact Code.expr.inj ((located.trans moved).trans (Code.rename_code lawful .root _).symm)
  · obtain ⟨body, stop, scanned, inner, -, derived, -⟩ := Inquiry.root_done (parseExpression_root parsed 0)
    exact (derived.from inner lawful).widen fun p ⟨t, member, place⟩ =>
      ⟨_, t, scanned, List.mem_append_left _ member, inner t member, place⟩

theorem running_unfinished {action : Running α} {s : Session} :
    (running action s).1 = .unfinished ↔ Exhausted (action s.machine) := by
  unfold running
  cases action s.machine with
  | ok result after => exact ⟨nofun, nofun⟩
  | error halt after =>
    cases halt with
    | fault f => exact ⟨nofun, nofun⟩
    | outOfFuel => exact ⟨fun _ => ⟨after, rfl⟩, fun _ => rfl⟩

theorem evaluation_lasts {fuel more : Nat} (enough : fuel ≤ more)
    (ended : (running (e.evaluate fuel) s).1 ≠ .unfinished) :
    running (e.evaluate more) s = running (e.evaluate fuel) s := by
  have same := ((lasting enough).expr e s.machine).resolve_right fun short => ended (running_unfinished.mpr short)
  unfold running
  rw [same]

-- With fuel for each, both stop short or both come to the same.
theorem printing_at {before : Position → Prop} {e' : Expr} {last : RefId}
    (h : Paired (s.note (.expr e) next).machine (s.noted [.print printToken e'] last).machine e e' before
      (placesOf source)) (list : List Warning) (fuel : Nat) :
    let evaluated := running (e.evaluate fuel) (s.note (.expr e) next)
    let printed := finish list last
      (Stmt.executeAll (fuel + 2) [.print printToken e'] (s.noted [.print printToken e'] last).machine)
    (evaluated.1 = .unfinished ∧ printed.1 = .unfinished) ∨
      Printing ((s.note (.expr e) next).machine.Blames e) before (placesOf source) evaluated printed := by
  intro evaluated printed
  rcases h.runs printToken fuel with ⟨v, after, reached, ran, ran', alike⟩ |
    ⟨f, g, after, reached, ran, ran', moved, alike⟩ | ⟨short, short'⟩
  · right
    have left : evaluated = (.done v, ⟨after, next⟩) := by
      unfold evaluated running
      rw [ran]
      rfl
    have right : printed = (.done list, ⟨reached, last⟩) := congrArg (finish list last) ran'
    rw [left, right]
    exact .done alike
  · right
    have left : evaluated = (.rejected [.runtime f], ⟨after, next⟩) := by
      unfold evaluated running
      rw [ran]
      rfl
    have right : printed = (.rejected [.runtime g], ⟨reached, last⟩) := congrArg (finish list last) ran'
    rw [left, right]
    exact .rejected (.cons moved .nil) alike
  · exact .inl ⟨running_unfinished.mpr short, finish_unfinished.mpr short'⟩

-- Static faults are found before anything runs, and both leave the machine as it was.
theorem printing_faulty {blames : RuntimeFault → Prop} {before own : Position → Prop} (tidy : s.Tidy) {e' : Expr}
    {last : RefId} (parsed : parseExpression source s = (.done e, ⟨s.machine, next⟩))
    (parsed' : parse (printing source) s = (.done [.print printToken e'], ⟨s.machine, last⟩))
    (faults : List StaticFault) :
    Printing blames before own (.rejected (faults.map .static), s.note (.expr e) next)
      (.rejected ((faults.map (StaticFault.rename (.indent 6))).map .static), s.noted [.print printToken e'] last) := by
  have noted := tidy.alike (parseExpression_grows parsed) (parseExpression_fresh parsed).notes fun _ => .start
  have noted' := tidy.alike (parse_grows parsed') (parse_fresh parsed').notes fun _ => .start
  refine .rejected ?_ (noted.symm.trans noted')
  rw [List.map_map, List.forall₂_map_left_iff, List.forall₂_map_right_iff]
  exact List.forall₂_same.mpr fun fault _ => .static fault

-- An expression and the program that prints it come to the same on every session: the same static faults,
-- the same runtime fault, or a value and a run that writes its text. They write the same before, and leave
-- the same globals and the same store up to ids and places.
theorem evaluation_prints (sink : Sink) (clock : Nat) (qs : List Inquiry) (source : String) (e : Expr)
    (limit : sink.limit = none) (flushes : sink.flushFails = false)
    (accepted : (parseExpression source (asked sink clock qs)).1 = .done e) :
    let s := asked sink clock qs
    ((∃ fuel, (evaluate fuel source s).1 ≠ .unfinished) ↔ ∃ fuel, (run fuel (printing source) s).1 ≠ .unfinished) ∧
      ∀ fuel more, (evaluate fuel source s).1 ≠ .unfinished → (run more (printing source) s).1 ≠ .unfinished →
        Printing ((s.note (.expr e) s.nextRef).machine.Blames e) (fun p => ∃ q ∈ qs, placesOf q.source p)
          (placesOf source) (evaluate fuel source s) (run more (printing source) s) := by
  intro s
  obtain ⟨tidy, kept⟩ := (Tidy.start sink clock).performAll qs
  obtain ⟨stands, unlimited⟩ := asked_from sink clock qs
  obtain ⟨next, e', last, parsed, parsed', wiped⟩ := printing_parsed accepted
  have faults := printing_faults wiped
  have evaluated := evaluate_parsed parsed
  cases clean : (resolveExpression e).faults with
  | cons fault rest =>
    rw [clean] at faults evaluated
    have ran := run_faulty parsed' faults
    refine Printing.settled (fun fuel => .inr ?_) (fun fuel more _ _ => ?_) (fun fuel more _ _ => ?_)
    · rw [evaluated, ran]
      exact printing_faulty tidy parsed parsed' (fault :: rest)
    · rw [evaluated, evaluated]
    · rw [ran, ran]
  | nil =>
    rw [clean] at faults evaluated
    have accepts : s.Accepted (printing source) [.print printToken e'] last := ⟨parsed', faults⟩
    have ran := accepts.run (kept.trans flushes)
    have both := paired tidy stands (unlimited.trans limit) parsed parsed' wiped clean faults
    refine Printing.settled (fun fuel => ?_) (fun fuel more enough ended => ?_) (fun fuel more enough ended => ?_)
    · rw [evaluated, ran]
      exact printing_at both _ fuel
    · rw [evaluated] at ended ⊢
      rw [evaluated]
      exact evaluation_lasts enough ended
    · rw [ran] at ended ⊢
      rw [ran]
      have same := ((lasting enough).stmts _ _).resolve_right fun short => ended (finish_unfinished.mpr short)
      rw [same]

-- A property of what a function of the first source gives: the function has printed before it is read.
theorem evaluation_prints_fault :
    let s := asked .unlimited 0 [.run 10 "fun f(x) \x7b print x; return x; \x7d"]
    let source := "f(true).y // read"
    let token : Token := ⟨.identifier, "y", ⟨1, 9⟩⟩
    (evaluate 20 source s).1.map (fun _ => ()) = .rejected [.runtime ⟨.noProperties, token⟩] ∧
      (run 20 (printing source) s).1 =
        .rejected [.runtime ⟨.noProperties, token.rename (.indent 6)⟩] ∧
      (run 20 (printing source) s).2.machine.sink = (evaluate 20 source s).2.machine.sink := by
  intro s source token
  have read : (parseExpression source s).1.map (fun _ => ()) = .done () := by decide +kernel
  have failed : (evaluate 20 source s).1.map (fun _ => ()) =
      .rejected [.runtime ⟨.noProperties, token⟩] := by decide +kernel
  have failed' : (run 20 (printing source) s).1 =
      .rejected [.runtime ⟨.noProperties, token.rename (.indent 6)⟩] := by decide +kernel
  refine ⟨failed, failed', ?_⟩
  cases given : (parseExpression source s).1 with
  | done e =>
    have ended : (evaluate 20 source s).1 ≠ .unfinished := by
      intro short
      rw [short] at failed
      cases failed
    have same := (evaluation_prints .unlimited 0 _ source e rfl rfl given).2 20 20 ended (by rw [failed']; exact nofun)
    exact (same.rejected_sink failed').symm
  | rejected problems =>
    rw [given] at read
    cases read
  | unfinished =>
    rw [given] at read
    cases read

end Session

end ScopeScript
