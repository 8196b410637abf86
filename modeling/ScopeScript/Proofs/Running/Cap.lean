import ScopeScript.Proofs.Running.Commute
import ScopeScript.Proofs.Running.Erase

namespace ScopeScript

open Watching

-- The same with room for so many bytes in all, of which the first ones were written.
def Sink.capped (n : Nat) (s : Sink) : Sink := { s with written := s.written.extract 0 n, limit := some n }

def Machine.capped (n : Nat) (m : Machine) : Machine := { m with sink := m.sink.capped n }

def Scene.capped (n : Nat) (a : Scene) : Scene := { a with machine := a.machine.capped n }

def Moment.capped (n : Nat) (m : Moment) : Moment := { m with scene := m.scene.capped n }

def Record.capped (n : Nat) (r : Record) : Record := ⟨r.scene.capped n, r.moments.map (Moment.capped n)⟩

def Watching.capped (n : Nat) : EStateM.Result Halt Record α → EStateM.Result Halt Record α
  | .ok a r => .ok a (r.capped n)
  | .error halt r => .error halt (r.capped n)

theorem Watching.after_capped (n : Nat) (result : EStateM.Result Halt Record α) :
    Record.after (capped n result) = (Record.after result).capped n := by
  cases result <;> rfl

def Scene.printed (a : Scene) (text : String) : Scene :=
  { a with machine := { a.machine with sink := (a.machine.sink.write text).2 } }

def Scene.written (a : Scene) : ByteArray := a.machine.sink.written

theorem Sink.write_unlimited {s : Sink} (unlimited : s.limit = none) (text : String) :
    s.write text = (none, { s with written := s.written ++ text.toUTF8 }) := by
  unfold Sink.write
  rw [unlimited]

theorem extract_short {bytes : ByteArray} {n : Nat} (short : bytes.size ≤ n) : bytes.extract 0 n = bytes := by
  have whole := bytes.extract_zero_max_size (i := n)
  rwa [Nat.max_eq_left short] at whole

-- Under a cap the sink takes what the other one takes, up to the cap.
theorem Sink.write_capped {s : Sink} {n : Nat} (unlimited : s.limit = none) (room : s.written.size ≤ n) (text : String) :
    (s.capped n).write text =
      (if (s.written ++ text.toUTF8).size ≤ n then none else some .full, (s.write text).2.capped n) := by
  have start : s.written.extract 0 n = s.written := extract_short room
  rw [write_unlimited unlimited]
  unfold Sink.write Sink.capped
  dsimp only
  rw [start, ByteArray.size_append]
  by_cases small : text.toUTF8.size ≤ n - s.written.size
  · have all : s.written.size + text.toUTF8.size ≤ n := by omega
    rw [if_pos small, if_pos all, extract_short (by rwa [ByteArray.size_append])]
  · have beyond : ¬ s.written.size + text.toUTF8.size ≤ n := by omega
    rw [if_neg small, if_neg beyond, ByteArray.extract_append, start, Nat.zero_sub]

-- What is written only grows, and so does the record.
structure Record.Appends (r after : Record) : Prop where
  limit : after.scene.machine.sink.limit = none
  written : ∃ more, after.scene.written = r.scene.written ++ more
  moments : r.moments <+: after.moments

structure Record.Fits (n : Nat) (r : Record) : Prop where
  scene : r.scene.written.size ≤ n
  moments : ∀ m ∈ r.moments, m.scene.written.size ≤ n

-- A print with whose bytes the text goes past the cap.
structure Moment.Overruns (n : Nat) (keyword : Token) (m : Moment) : Prop where
  event : ∃ e, m.event = .ends (.print keyword e) .normal
  written : ∃ early v, m.scene.written = early ++ (Value.text v ++ "\n").toUTF8 ∧ early.size ≤ n
  past : n < m.scene.written.size

-- A run and the same run under a cap. Either all bytes fit and only the cap tells the two apart, or
-- the second run ends inside the first print that overruns it.
inductive Watching.Meets (n : Nat) (whole cut : EStateM.Result Halt Record α) : Prop where
  | fits (room : (Record.after whole).Fits n) (same : cut = capped n whole)
  | overruns {before behind : List Moment} {m : Moment} {keyword : Token} {scope : ScopeId}
      (moments : (Record.after whole).moments = before ++ m :: behind)
      (earlier : ∀ p ∈ before, p.scene.written.size ≤ n) (beyond : m.Overruns n keyword)
      (more : ∃ more, (Record.after whole).scene.written = m.scene.written ++ more)
      (stopped : cut = .error (.fault ⟨.output .full, keyword⟩)
        ⟨(m.scene.capped n).move scope, before.map (Moment.capped n)⟩)

def Watching.Capping (n : Nat) (x : Watching α) : Prop := ∀ here r, r.scene.machine.sink.limit = none →
  r.Appends (.after (x here r)) ∧ (r.Fits n → Meets n (x here r) (x here (r.capped n)))

namespace Running

def withSink (sink : Sink) : EStateM.Result Halt Machine α → EStateM.Result Halt Machine α
  | .ok a m => .ok a { m with sink := sink }
  | .error halt m => .error halt { m with sink := sink }

-- An action that does not look at the sink.
def Mute (x : Running α) : Prop := ∀ m sink, x { m with sink := sink } = withSink sink (x m)

namespace Mute

theorem pure (a : α) : Mute (Pure.pure a) := fun _ _ => rfl

theorem outOfFuel : Mute (outOfFuel : Running α) := fun _ _ => rfl

theorem fail (cause : RuntimeCause) (t : Token) : Mute (fail cause t : Running α) := fun _ _ => rfl

theorem bind {x : Running α} {k : α → Running β} (first : Mute x) (next : ∀ a, Mute (k a)) : Mute (x >>= k) := by
  intro m sink
  have given := first m sink
  show EStateM.bind x k _ = withSink sink (EStateM.bind x k m)
  unfold EStateM.bind
  rw [given]
  cases x m with
  | ok a middle => exact next a middle sink
  | error halt after => rfl

theorem currentScope : Mute currentScope := fun _ _ => rfl

theorem store : Mute store := fun _ _ => rfl

theorem withStore (step : Store → α × Store) : Mute (withStore step) := fun _ _ => rfl

theorem bindHere (name : String) (v : Value) : Mute (bindHere name v) := fun _ _ => rfl

theorem seconds : Mute seconds := fun _ _ => rfl

theorem read (i : RefId) (name : Token) : Mute (read i name) := by
  intro m sink
  have same : ((({ m with sink := sink } : Machine).target? i name.lexeme).bind fun scope =>
      ({ m with sink := sink } : Machine).store.own? scope name.lexeme) =
      (m.target? i name.lexeme).bind fun scope => m.store.own? scope name.lexeme := rfl
  unfold Running.read
  rw [same]
  cases (m.target? i name.lexeme).bind fun scope => m.store.own? scope name.lexeme with
  | some v => rfl
  | none => rfl

theorem rebind (target : Option ScopeId) (name : Token) (v : Value) : Mute (rebind target name v) := by
  intro m sink
  cases target with
  | some scope => rfl
  | none => rfl

theorem write (i : RefId) (name : Token) (v : Value) : Mute (write i name v) :=
  fun m sink => rebind (m.target? i name.lexeme) name v m sink

theorem reassign (name : Token) (v : Value) : Mute (reassign name v) :=
  fun m sink => rebind (m.store.binder? m.scope name.lexeme) name v m sink

theorem ofExcept (e : Except RuntimeFault α) : Mute (ofExcept e) := by
  cases e with
  | ok a => exact .pure a
  | error f => exact fun _ _ => rfl

theorem attach (m : Method) (receiver : Instance) : Mute (m.attach receiver) := .withStore _

theorem receiver (f : Function) : Mute f.receiver := .bind .store fun _ => .pure _

theorem making {make : ScopeId → Identity → Value} : Mute (do
    let closure ← Running.currentScope
    let identity ← Running.withStore Store.identity
    return make closure identity) :=
  .bind .currentScope fun _ => .bind (.withStore _) fun _ => .pure _

theorem checkedCall (close : Token) (callee : Value) (arguments : List Value) :
    Mute (checkedCall close callee arguments) := by
  unfold ScopeScript.checkedCall
  split
  · exact .fail _ _
  · split
    · exact .pure _
    · exact .fail _ _

theorem enterBlock : Mute enterBlock := .bind .currentScope fun _ => .withStore _

theorem enterBody (routine : Routine) (closure : ScopeId) (values : List Value) :
    Mute (enterBody routine closure values) := .withStore _

theorem kept {x : Running α} (h : Mute x) (m : Machine) : (last (x m)).sink = m.sink := by
  have given : x m = withSink m.sink (x m) := h m m.sink
  rw [given]
  cases x m with
  | ok a after => rfl
  | error halt after => rfl

end Mute

end Running

open Running (Mute)

theorem Record.Appends.refl {r : Record} (unlimited : r.scene.machine.sink.limit = none) : r.Appends r :=
  ⟨unlimited, ⟨.empty, ByteArray.append_empty.symm⟩, List.prefix_refl _⟩

theorem Record.Appends.trans {r middle after : Record} (first : r.Appends middle) (second : middle.Appends after) :
    r.Appends after := by
  obtain ⟨v, early⟩ := first.written
  obtain ⟨w, late⟩ := second.written
  exact ⟨second.limit, ⟨v ++ w, by rw [late, early, ByteArray.append_assoc]⟩, first.moments.trans second.moments⟩

-- A step that leaves the sink alone.
theorem Record.Appends.quiet {r after : Record} (unlimited : r.scene.machine.sink.limit = none)
    (same : after.scene.machine.sink = r.scene.machine.sink) (moments : r.moments <+: after.moments) :
    r.Appends after where
  limit := same ▸ unlimited
  written := ⟨.empty, (congrArg Sink.written same).trans ByteArray.append_empty.symm⟩
  moments := moments

theorem Record.Fits.quiet {r after : Record} {n : Nat} (room : r.Fits n)
    (same : after.scene.machine.sink = r.scene.machine.sink) (moments : after.moments = r.moments) : after.Fits n where
  scene := Nat.le_trans (Nat.le_of_eq (congrArg (·.written.size) same)) room.scene
  moments := moments ▸ room.moments

namespace Watching

def movedBack (around : ScopeId) : EStateM.Result Halt Record α → EStateM.Result Halt Record α
  | .ok a r => .ok a { r with scene := r.scene.move around }
  | .error halt r => .error halt { r with scene := r.scene.move around }

theorem inside_moves (there : Standpoint) (scope : ScopeId) (x : Watching α) (here : Standpoint) (r : Record) :
    inside there scope x here r =
      movedBack r.scene.machine.scope (x there { r with scene := r.scene.move scope }) := by
  unfold inside
  cases x there { r with scene := r.scene.move scope } <;> rfl

theorem Meets.moves {n : Nat} {whole cut : EStateM.Result Halt Record α} (h : Meets n whole cut) (around : ScopeId) :
    Meets n (movedBack around whole) (movedBack around cut) := by
  cases h with
  | fits room same =>
    rw [same]
    cases whole with
    | ok a after => exact .fits ⟨room.scene, room.moments⟩ rfl
    | error halt after => exact .fits ⟨room.scene, room.moments⟩ rfl
  | overruns moments earlier beyond more stopped =>
    rw [stopped]
    cases whole with
    | ok a after => exact .overruns moments earlier beyond more rfl
    | error halt after => exact .overruns moments earlier beyond more rfl

-- What a print statement does once it has its value.
theorem printing_runs (here : Standpoint) (r : Record) (keyword : Token) (e : Expr) (text : String) :
    ending (.print keyword e) (do
        lift (Running.print keyword text)
        return .normal) here r =
      match (r.scene.machine.sink.write text).1 with
      | none => .ok .normal ⟨r.scene.printed text,
        r.moments ++ [⟨here, r.scene.printed text, .ends (.print keyword e) .normal⟩]⟩
      | some failure => .error (.fault ⟨.output failure, keyword⟩) ⟨r.scene.printed text, r.moments⟩ := by
  show EStateM.bind (EStateM.bind (lift (Running.print keyword text) here) _) _ r = _
  unfold EStateM.bind lift Running.print Scene.printed
  dsimp only
  cases (r.scene.machine.sink.write text).1 with
  | none => rfl
  | some failure => rfl

end Watching

namespace Watching.Capping

variable {n : Nat}

theorem bind {x : Watching α} {k : α → Watching β} (first : Capping n x) (next : ∀ a, Capping n (k a)) :
    Capping n (x >>= k) := by
  intro here r unlimited
  have given := first here r unlimited
  show r.Appends (.after (EStateM.bind (x here) (fun a => k a here) r)) ∧
    (r.Fits n → Meets n (EStateM.bind (x here) (fun a => k a here) r)
      (EStateM.bind (x here) (fun a => k a here) (r.capped n)))
  unfold EStateM.bind
  cases ran : x here r with
  | error halt after =>
    rw [ran] at given
    refine ⟨given.1, fun room => ?_⟩
    cases given.2 room with
    | fits room same =>
      rw [same]
      exact .fits room rfl
    | overruns moments earlier beyond more stopped =>
      rw [stopped]
      exact .overruns moments earlier beyond more rfl
  | ok a middle =>
    rw [ran] at given
    have later := next a here middle given.1.limit
    refine ⟨given.1.trans later.1, fun room => ?_⟩
    cases given.2 room with
    | fits room same =>
      rw [same]
      exact later.2 room
    | @overruns before behind m keyword scope moments earlier beyond more stopped =>
      obtain ⟨rest, longer⟩ := later.1.moments
      obtain ⟨v, early⟩ := more
      obtain ⟨w, late⟩ := later.1.written
      have known : middle.moments = before ++ m :: behind := moments
      have bytes : middle.scene.written = m.scene.written ++ v := early
      rw [known, List.append_assoc, List.cons_append] at longer
      rw [bytes, ByteArray.append_assoc] at late
      rw [stopped]
      exact .overruns longer.symm earlier beyond ⟨v ++ w, late⟩ rfl

theorem pure (a : α) : Capping n (Pure.pure a) := fun _ _ unlimited =>
  ⟨.refl unlimited, fun room => .fits room rfl⟩

-- A step that leaves the sink alone and adds no moment.
theorem quiet {x : Watching α} (steps : ∀ here r, (Record.after (x here r)).scene.machine.sink = r.scene.machine.sink ∧
    (Record.after (x here r)).moments = r.moments ∧ x here (r.capped n) = Watching.capped n (x here r)) :
    Capping n x := by
  intro here r unlimited
  obtain ⟨same, still, both⟩ := steps here r
  exact ⟨.quiet unlimited same (still ▸ List.prefix_refl _), fun room => .fits (room.quiet same still) both⟩

theorem lift {y : Running α} (mute : Mute y) : Capping n (Watching.lift y) := by
  refine quiet fun here r => ?_
  have same := mute r.scene.machine (r.scene.machine.sink.capped n)
  have kept := mute.kept r.scene.machine
  have apart : Watching.lift y here (r.capped n) =
      (match y { r.scene.machine with sink := r.scene.machine.sink.capped n } with
        | .ok a machine => .ok a { r.capped n with scene := { r.scene.capped n with machine := machine } }
        | .error halt machine => .error halt { r.capped n with scene := { r.scene.capped n with machine := machine } }) :=
    rfl
  rw [apart, same]
  unfold Watching.lift
  cases ran : y r.scene.machine with
  | ok a after =>
    rw [ran] at kept
    have sink : after.sink = r.scene.machine.sink := kept
    refine ⟨sink, rfl, ?_⟩
    simp only [Running.withSink, Watching.capped, Record.capped, Scene.capped, Machine.capped, sink]
  | error halt after =>
    rw [ran] at kept
    have sink : after.sink = r.scene.machine.sink := kept
    refine ⟨sink, rfl, ?_⟩
    simp only [Running.withSink, Watching.capped, Record.capped, Scene.capped, Machine.capped, sink]

theorem change {step : Scene → Scene} (same : ∀ a, (step a).machine = a.machine)
    (both : ∀ a, step (a.capped n) = (step a).capped n) : Capping n (Watching.change step) :=
  quiet fun _ r => ⟨congrArg Machine.sink (same r.scene), rfl,
    congrArg (fun a => (.ok () ⟨a, r.moments.map (Moment.capped n)⟩ : EStateM.Result Halt Record Unit)) (both r.scene)⟩

theorem reading {k : Standpoint → Watching α} (next : ∀ here, Capping n (k here)) : Capping n (read >>= k) :=
  fun here r unlimited => next here here r unlimited

theorem mark (event : Event) : Capping n (Watching.mark event) := by
  intro here r unlimited
  refine ⟨.quiet unlimited rfl (List.prefix_append _ _), fun room => .fits ⟨room.scene, ?_⟩ ?_⟩
  · intro m member
    rcases List.mem_append.mp member with old | new
    · exact room.moments m old
    · rw [List.mem_singleton.mp new]
      exact room.scene
  · unfold Watching.mark Watching.capped Record.capped
    simp only [List.map_append, List.map_cons, List.map_nil, Moment.capped]

theorem nested {x : Watching α} (s : Stmt) (inner : Capping n x) : Capping n (Watching.nested s x) :=
  fun here => inner (here.nest s)

-- A run inside another scope meets the same print; only the scope to come back to is another.
theorem inside {x : Watching α} (there : Standpoint) (scope : ScopeId) (inner : Capping n x) :
    Capping n (Watching.inside there scope x) := by
  intro here r unlimited
  obtain ⟨appends, meets⟩ := inner there { r with scene := r.scene.move scope } unlimited
  rw [inside_moves, inside_moves]
  refine ⟨?_, fun room => (meets ⟨room.scene, room.moments⟩).moves _⟩
  cases ran : x there { r with scene := r.scene.move scope } with
  | ok a after =>
    rw [ran] at appends
    exact ⟨appends.limit, appends.written, appends.moments⟩
  | error halt after =>
    rw [ran] at appends
    exact ⟨appends.limit, appends.written, appends.moments⟩

theorem opening {x : Watching α} {enter : Running ScopeId} (mute : Mute enter) (region : Region)
    (there : ScopeId → Standpoint) (inner : Capping n x) : Capping n (Watching.opening enter region there x) :=
  .bind (.lift mute) fun scope => .bind (.change (fun _ => rfl) fun _ => rfl) fun _ => .inside (there scope) scope inner

theorem homeOf (identity : Identity) : Capping n (Watching.homeOf identity) := quiet fun _ _ => ⟨rfl, rfl, rfl⟩

theorem making {make : Running α} (mute : Mute make) (methods : List Routine) :
    Capping n (Watching.making make methods) :=
  .bind (.lift mute) fun _ => .reading fun _ => .bind (.change (fun _ => rfl) fun _ => rfl) fun _ => .pure _

theorem beginning (name : String) : Capping n (Watching.beginning name) := by
  refine .reading fun here => ?_
  split
  · exact .pure _
  · exact .change (fun _ => rfl) fun _ => rfl

theorem binding (name : String) (v : Value) : Capping n (Watching.binding name v) :=
  .bind (.lift (.bindHere name v)) fun _ => .change (fun _ => rfl) fun _ => rfl

theorem referring (i : RefId) (name : Token) {look : Running α} (mute : Mute look) :
    Capping n (Watching.referring i name look) :=
  .bind (.mark _) fun _ => .lift mute

theorem ending (s : Stmt) {x : Watching Ending} (h : Capping n x) : Capping n (Watching.ending s x) :=
  .bind h fun _ => .bind (.mark _) fun _ => .pure _

theorem returning (c : Callee) {x : Watching Ending} (h : Capping n x) : Capping n (Watching.returning c x) :=
  .bind h fun _ => .bind (.mark _) fun _ => .pure _

theorem answering (c : Callee) {x : Watching Value} (h : Capping n x) : Capping n (Watching.answering c x) :=
  .bind (.lift .store) fun _ => .bind h fun _ => .bind (.mark _) fun _ => .pure _

theorem attach (m : Method) (receiver : Instance) : Capping n (m.watchAttach receiver) :=
  .bind (.lift (.attach m receiver)) fun _ => .bind (.homeOf _) fun _ =>
    .bind (.change (fun _ => rfl) fun _ => rfl) fun _ => .pure _

theorem get (i : Instance) (name : Token) : Capping n (i.watchGet name) := by
  refine .bind (.lift .store) fun store => ?_
  cases store.field? i name.lexeme with
  | some value => exact .pure _
  | none =>
    cases i.madeBy.methods.get? name.lexeme with
    | some m => exact .bind (.attach m i) fun _ => .pure _
    | none => exact .lift (.fail _ _)

-- The only step that writes. It stops where the bytes go past the cap, before its statement has ended.
theorem printing (keyword : Token) (e : Expr) (v : Value) : Capping n (Watching.ending (.print keyword e) do
    Watching.lift (Running.print keyword (v.text ++ "\n"))
    return .normal) := by
  intro here r unlimited
  have wrote := Sink.write_unlimited unlimited (v.text ++ "\n")
  have sink : (r.scene.printed (v.text ++ "\n")).machine.sink = _ := congrArg Prod.snd wrote
  have bytes : (r.scene.printed (v.text ++ "\n")).written = r.scene.written ++ (v.text ++ "\n").toUTF8 :=
    congrArg Sink.written sink
  have free := printing_runs here r keyword e (v.text ++ "\n")
  simp only [wrote] at free
  rw [free]
  refine ⟨⟨(congrArg Sink.limit sink).trans unlimited, ⟨_, bytes⟩, List.prefix_append _ _⟩, fun room => ?_⟩
  have cut := Sink.write_capped unlimited room.scene (v.text ++ "\n")
  have capped : (r.capped n).scene.printed (v.text ++ "\n") = (r.scene.printed (v.text ++ "\n")).capped n :=
    congrArg (fun sink : Sink => { r.scene with machine := { r.scene.machine with sink := sink } }) (congrArg Prod.snd cut)
  have tight := printing_runs here (r.capped n) keyword e (v.text ++ "\n")
  rw [capped, show (r.capped n).scene.machine.sink = r.scene.machine.sink.capped n from rfl, cut] at tight
  rw [tight]
  by_cases small : (r.scene.written ++ (v.text ++ "\n").toUTF8).size ≤ n
  · rw [if_pos (show (r.scene.machine.sink.written ++ _).size ≤ n from small)]
    rw [← bytes] at small
    refine .fits ⟨small, fun m member => ?_⟩ ?_
    · rcases List.mem_append.mp member with old | new
      · exact room.moments m old
      · rw [List.mem_singleton.mp new]
        exact small
    · simp [Watching.capped, Record.capped, Moment.capped]
  · rw [if_neg (show ¬ (r.scene.machine.sink.written ++ _).size ≤ n from small)]
    rw [← bytes] at small
    exact .overruns rfl room.moments
      ⟨⟨e, rfl⟩, ⟨r.scene.written, v, bytes, room.scene⟩, Nat.lt_of_not_le small⟩
      ⟨.empty, ByteArray.append_empty.symm⟩ rfl

theorem flush : Capping n (Watching.lift Running.flush) := by
  refine quiet fun here r => ?_
  cases fails : r.scene.machine.sink.flushFails <;>
    simp [Watching.lift, Running.flush, Sink.flush, fails, Record.capped, Scene.capped, Machine.capped, Sink.capped,
      Watching.capped, Record.after]

end Watching.Capping

structure RunsCap (n fuel : Nat) : Prop where
  expr : ∀ e : Expr, Capping n (e.watch fuel)
  exprs : ∀ es, Capping n (Expr.watchAll fuel es)
  callee : ∀ (c : Callee) values, Capping n (c.watch fuel values)
  routine : ∀ c (r : Routine) identity closure values, Capping n (Routine.watch fuel c r identity closure values)
  stmt : ∀ s : Stmt, Capping n (s.watch fuel)
  stmts : ∀ ss, Capping n (Stmt.watchAll fuel ss)
  turn : ∀ condition body, Capping n (Stmt.watchTurn fuel condition body)

namespace RunsCap

theorem zero (n : Nat) : RunsCap n 0 where
  expr _ := .lift .outOfFuel
  exprs _ := .lift .outOfFuel
  callee _ _ := .lift .outOfFuel
  routine _ _ _ _ _ := .lift .outOfFuel
  stmt _ := .lift .outOfFuel
  stmts _ := .lift .outOfFuel
  turn _ _ := .lift .outOfFuel

variable {n fuel : Nat}

theorem expr_succ (h : RunsCap n fuel) (e : Expr) : Capping n (e.watch (fuel + 1)) := by
  cases e with
  | literal value => exact .pure _
  | grouping inner => exact h.expr inner
  | unary operator operand => exact .bind (h.expr operand) fun _ => .lift (.ofExcept _)
  | binary left operator right =>
    exact .bind (h.expr left) fun _ => .bind (h.expr right) fun _ => .lift (.ofExcept _)
  | logical left operator right =>
    refine .bind (h.expr left) fun a => ?_
    split
    · exact .pure _
    · exact h.expr right
  | assign i name value =>
    exact .bind (h.expr value) fun v => .bind (.referring i name (.write i name v)) fun _ => .pure _
  | call callee close arguments =>
    exact .bind (h.expr callee) fun f => .bind (h.exprs arguments) fun values =>
      .bind (.lift (.checkedCall close f values)) fun c => h.callee c values
  | lambda routine => exact .making .making []
  | get object name =>
    refine .bind (h.expr object) fun v => ?_
    cases v with
    | nil | bool | number | string | callee => exact .lift (.fail _ _)
    | _ i => exact .get i name
  | set object name value =>
    refine .bind (h.expr object) fun v => ?_
    cases v with
    | nil | bool | number | string | callee => exact .lift (.fail _ _)
    | _ i => exact .bind (h.expr value) fun _ => .bind (.lift (.withStore _)) fun _ => .pure _
  | _ i name => exact .referring i name (.read i name)

theorem exprs_succ (h : RunsCap n fuel) (es : List Expr) : Capping n (Expr.watchAll (fuel + 1) es) := by
  cases es with
  | nil => exact .pure _
  | cons e rest => exact .bind (h.expr e) fun _ => .bind (h.exprs rest) fun _ => .pure _

theorem callee_succ (h : RunsCap n fuel) (c : Callee) (values : List Value) :
    Capping n (c.watch (fuel + 1) values) := by
  refine .answering c ?_
  cases c with
  | clock => exact .lift .seconds
  | function f =>
    refine .bind (h.routine _ _ _ _ _) fun flow => ?_
    split
    · exact .lift (.receiver f)
    · exact .pure _
  | lambda l => exact .bind (h.routine _ _ _ _ _) fun _ => .pure _
  | classes c =>
    refine .bind (.lift (.withStore _)) fun i => ?_
    cases c.initializer? with
    | none => exact .pure _
    | some m => exact .bind (.attach m i) fun _ => .bind (h.callee _ _) fun _ => .pure _

theorem routine_succ (h : RunsCap n fuel) (c : Callee) (r : Routine) (identity : Identity) (closure : ScopeId)
    (values : List Value) : Capping n (Routine.watch (fuel + 1) c r identity closure values) :=
  .bind (.homeOf identity) fun _ => .returning c (.opening (.enterBody r closure values) _ _ (h.stmts r.body))

theorem stmt_succ (h : RunsCap n fuel) (s : Stmt) : Capping n (s.watch (fuel + 1)) := by
  cases s with
  | print keyword value =>
    -- The end of the statement belongs to what follows its value.
    have apart : Stmt.watch (fuel + 1) (.print keyword value) = value.watch fuel >>= fun v =>
        Watching.ending (.print keyword value) do
          Watching.lift (Running.print keyword (v.text ++ "\n"))
          return .normal :=
      bind_assoc (value.watch fuel) _ _
    rw [apart]
    exact .bind (h.expr value) fun v => .printing keyword value v
  | expression value => exact .ending _ (.bind (h.expr value) fun _ => .pure _)
  | var name initial =>
    cases initial with
    | none => exact .ending _ (.bind (.binding _ _) fun _ => .pure _)
    | some e =>
      exact .ending _ (.bind (.beginning _) fun _ => .bind (h.expr e) fun v => .bind (.binding _ v) fun _ => .pure _)
  | block body => exact .ending _ (.reading fun here => .opening .enterBlock _ _ (h.stmts body))
  | branch condition yes no =>
    refine .ending _ (.bind (h.expr condition) fun v => ?_)
    split
    · exact .nested _ (h.stmt yes)
    · cases no with
      | none => exact .pure _
      | some other => exact .nested _ (h.stmt other)
  | loop condition body => exact .ending _ (.nested _ (h.turn condition body))
  | leave keyword => exact .ending _ (.pure _)
  | function routine =>
    exact .ending _ (.bind (.making .making []) fun _ => .bind (.binding _ _) fun _ => .pure _)
  | giveBack keyword value =>
    cases value with
    | none => exact .ending _ (.pure _)
    | some e => exact .ending _ (.bind (h.expr e) fun _ => .pure _)
  | classes name methods =>
    exact .ending _ (.bind (.binding _ _) fun _ => .bind (.making .making methods) fun made =>
      .bind (.lift (.reassign name made)) fun _ => .pure _)

theorem stmts_succ (h : RunsCap n fuel) (ss : List Stmt) : Capping n (Stmt.watchAll (fuel + 1) ss) := by
  cases ss with
  | nil => exact .pure _
  | cons s rest =>
    refine .bind (h.stmt s) fun flow => ?_
    cases flow with
    | normal => exact h.stmts rest
    | leave => exact .pure _
    | giveBack value => exact .pure _

theorem turn_succ (h : RunsCap n fuel) (condition : Expr) (body : Stmt) :
    Capping n (Stmt.watchTurn (fuel + 1) condition body) := by
  refine .bind (h.expr condition) fun v => ?_
  split
  · refine .bind (h.stmt body) fun flow => ?_
    cases flow with
    | normal => exact h.turn condition body
    | leave => exact .pure _
    | giveBack value => exact .pure _
  · exact .pure _

end RunsCap

theorem runs_cap (n fuel : Nat) : RunsCap n fuel := by
  induction fuel with
  | zero => exact .zero n
  | succ fuel ih =>
    exact ⟨ih.expr_succ, ih.exprs_succ, ih.callee_succ, ih.routine_succ, ih.stmt_succ, ih.stmts_succ, ih.turn_succ⟩

end ScopeScript
