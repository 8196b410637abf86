import ScopeScript.Proofs.Lexis.Seam
import ScopeScript.Proofs.Scoping.Nameless
import ScopeScript.Proofs.Session.Accept

namespace ScopeScript

open Request

theorem Renaming.lower_orderly (lines : Nat) : (lower lines).Orderly := by
  intro a b
  have level : (a.line + lines == b.line + lines) = (a.line == b.line) := by
    rw [Bool.eq_iff_iff, beq_iff_eq, beq_iff_eq, Nat.add_right_cancel_iff]
  simp only [lower, Position.lower, Position.before, level, Nat.add_lt_add_iff_right]
  rfl

-- Behind the first program the walk stands where it began.
theorem Stmt.resolveAll_behind {ss : List Stmt} (ordered : Stmt.OrderedAll ss) (more : List Stmt) {ρ : Renaming}
    (orderly : ρ.Orderly) : Stmt.resolveAll (ss ++ Stmt.renameAll ρ more) .start =
      (Stmt.resolveAll more .start).rename ρ (Stmt.resolveAll ss .start) := by
  have start : Walk.start.Follows .outermost := ⟨.nil, rfl, rfl, rfl⟩
  have follows : (Stmt.resolveAll ss .start).Follows .outermost := Stmt.resolveAll_follows ss ordered.formed start
  have back : Stmt.resolveAll ss .start = Walk.start.rename ρ (Stmt.resolveAll ss .start) := by
    obtain ⟨scopes, body, loops, inClass⟩ := follows
    cases given : Stmt.resolveAll ss .start with
    | mk scopes' body' inClass' loops' faults warnings notes =>
      rw [given] at scopes body loops inClass
      cases scopes
      cases body
      cases loops
      cases inClass
      simp [Walk.rename, Walk.start]
  rw [Stmt.resolveAll_append]
  exact (congrArg (Stmt.resolveAll (Stmt.renameAll ρ more)) back).trans (Stmt.resolveAll_rename _ orderly more .start)

namespace Session

-- Reads and resolves a program without running it.
def check (source : String) : Request (List Warning) := (parse source).andThen resolve

-- The program of an accepted source, and the counter behind its ids.
structure Accepted (s : Session) (source : String) (program : List Stmt) (next : RefId) : Prop where
  parsed : parse source s = (.done program, ⟨s.machine, next⟩)
  clean : (resolveProgram program).faults = []

variable {s : Session} {source : String}

theorem parse_done {program : List Stmt} {read : Session} (given : parse source s = (.done program, read)) :
    ∃ ts next, tokens source = .ok ts ∧ readProgram ts s.nextRef = (.ok program, next) ∧
      read = ⟨s.machine, next⟩ := by
  unfold parse scanning andThen at given
  cases scanned : tokens source with
  | error faults =>
    rw [scanned] at given
    cases given
  | ok ts =>
    rw [scanned] at given
    dsimp only [Request.ofExcept, reply, reading] at given
    cases result : readProgram ts s.nextRef with
    | mk answer next =>
      rw [result] at given
      cases answer with
      | error faults => cases given
      | ok stmts =>
        cases given
        exact ⟨ts, next, rfl, result, rfl⟩

theorem parse_of_derived {body : List Token} {stop : Token} {tree : List Stmt}
    (scanned : tokens source = .ok (body ++ [stop])) (inner : ∀ t ∈ body, t.isStop = false) (outer : stop.isStop = true)
    (derived : Derives (.declarations tree) body) (s : Session) : ∃ program next,
      parse source s = (.done program, ⟨s.machine, next⟩) ∧
        Stmt.renameAll .nameless program = Stmt.renameAll .nameless tree := by
  obtain ⟨program, next, given, same⟩ := readProgram_of_derived inner outer s.nextRef derived
  rw [Stmt.anonymousAll_eq, Stmt.anonymousAll_eq] at same
  refine ⟨program, next, ?_, same⟩
  unfold parse scanning andThen
  rw [scanned]
  dsimp only [Request.ofExcept, reply, reading]
  rw [given]
  rfl

theorem check_done {warnings : List Warning} (h : (check source s).1 = .done warnings) :
    ∃ program next, s.Accepted source program next ∧ warnings = (resolveProgram program).warnings := by
  unfold check andThen at h
  cases given : parse source s with
  | mk answer read =>
    rw [given] at h
    cases answer with
    | rejected problems => cases h
    | unfinished => cases h
    | done program =>
      obtain ⟨ts, next, -, -, rfl⟩ := parse_done given
      unfold resolve andThen noting accepting at h
      dsimp only at h
      cases clean : (resolveProgram program).faults with
      | cons fault rest =>
        rw [clean] at h
        cases h
      | nil =>
        rw [clean] at h
        cases h
        exact ⟨program, next, ⟨given, clean⟩, rfl⟩

namespace Accepted

variable {program : List Stmt} {next : RefId}

theorem check (h : s.Accepted source program next) :
    (check source s).1 = .done (resolveProgram program).warnings := by
  unfold Session.check resolve andThen noting accepting
  rw [h.parsed]
  dsimp only
  rw [h.clean]
  rfl

theorem derived (h : s.Accepted source program next) : ∃ body stop, tokens source = .ok (body ++ [stop]) ∧
    (∀ t ∈ body, t.isStop = false) ∧ stop.isStop = true ∧ Derives (.declarations program) body := by
  obtain ⟨ts, last, scanned, given, -⟩ := parse_done h.parsed
  obtain ⟨body, stop, rfl, outer, inner, -⟩ := tokens_sorted scanned
  exact ⟨body, stop, scanned, inner, outer, readProgram_derived inner outer given⟩

theorem of_derived {body : List Token} {stop : Token} {tree : List Stmt} (scanned : tokens source = .ok (body ++ [stop]))
    (inner : ∀ t ∈ body, t.isStop = false) (outer : stop.isStop = true) (derived : Derives (.declarations tree) body)
    (clean : (resolveProgram tree).faults = []) (s : Session) : ∃ program next, s.Accepted source program next ∧
      Stmt.renameAll .nameless program = Stmt.renameAll .nameless tree := by
  obtain ⟨program, next, given, same⟩ := parse_of_derived scanned inner outer derived s
  exact ⟨program, next, ⟨given, (congrArg Array.toList (Stmt.resolveAll_nameless same).1).trans clean⟩, same⟩

-- Whether a source is accepted does not depend on the session, nor does its tree up to ids.
theorem again (h : s.Accepted source program next) (other : Session) : ∃ program' next',
    other.Accepted source program' next' ∧ Stmt.renameAll .nameless program' = Stmt.renameAll .nameless program := by
  obtain ⟨body, stop, scanned, inner, outer, derived⟩ := h.derived
  exact of_derived scanned inner outer derived h.clean other

theorem fresh (h : s.Accepted source program next) :
    s.nextRef ≤ next ∧ Spot.Fresh ⟨.outermost, .stmts program⟩ s.nextRef next :=
  ⟨parse_grows h.parsed, parse_fresh h.parsed⟩

-- Two accepted programs one behind the other: the second begins on a new line.
theorem joined {first second : String} {one two : List Stmt} {next' : RefId} (h : s.Accepted first one next)
    (h' : s.Accepted second two next') : ∃ lines program last, s.Accepted (first ++ "\n" ++ second) program last ∧
      Stmt.renameAll .nameless program = Stmt.renameAll .nameless (one ++ Stmt.renameAll (.lower lines) two) ∧
      (resolveProgram program).warnings.Perm ((resolveProgram one).warnings ++
        (resolveProgram two).warnings.map (Warning.rename (.lower lines))) := by
  obtain ⟨body, stop, scanned, inner, outer, derived⟩ := h.derived
  obtain ⟨body', stop', scanned', inner', outer', derived'⟩ := h'.derived
  obtain ⟨ahead, last, lines, same, both⟩ := tokens_onNewLine scanned scanned'
  obtain ⟨rfl, -⟩ := List.append_inj' same rfl
  rw [List.map_append, List.map_cons, List.map_nil, ← List.append_assoc] at both
  have walked := Stmt.resolveAll_behind h.fresh.2.ordered two (Renaming.lower_orderly lines)
  have faults : (Stmt.resolveAll (one ++ Stmt.renameAll (.lower lines) two) .start).faults.toList =
      (Stmt.resolveAll one .start).faults.toList ++
        (Stmt.resolveAll two .start).faults.toList.map (StaticFault.rename (.lower lines)) := by
    rw [walked]
    simp [Walk.rename]
  have warnings : (Stmt.resolveAll (one ++ Stmt.renameAll (.lower lines) two) .start).warnings.toList =
      (Stmt.resolveAll one .start).warnings.toList ++
        (Stmt.resolveAll two .start).warnings.toList.map (Warning.rename (.lower lines)) := by
    rw [walked]
    simp [Walk.rename]
  have clean : (resolveProgram (one ++ Stmt.renameAll (.lower lines) two)).faults = [] := by
    rw [show (Stmt.resolveAll one .start).faults.toList = [] from h.clean,
      show (Stmt.resolveAll two .start).faults.toList = [] from h'.clean] at faults
    exact faults
  have within : ∀ t ∈ body ++ body'.map (Token.rename (.lower lines)), t.isStop = false := by
    intro t member
    rcases List.mem_append.mp member with ahead | behind
    · exact inner t ahead
    · obtain ⟨t, inside, rfl⟩ := List.mem_map.mp behind
      exact inner' t inside
  obtain ⟨program, last, accepted, tree⟩ :=
    of_derived both within outer' (derived.followed (derived'.rename (.lower lines))) clean s
  refine ⟨lines, program, last, accepted, tree, ?_⟩
  have same := congrArg Array.toList (Stmt.resolveAll_nameless tree).2
  have sorted : (resolveProgram program).warnings.Perm (Stmt.resolveAll program .start).warnings.toList :=
    List.mergeSort_perm _ _
  rw [same.trans warnings] at sorted
  exact sorted.trans ((List.mergeSort_perm _ _).symm.append ((List.mergeSort_perm _ _).symm.map _))

end Accepted

end Session

end ScopeScript
