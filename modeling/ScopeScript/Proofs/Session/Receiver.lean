import ScopeScript.Proofs.Session.Address

namespace ScopeScript

-- The keyword stands for the receiver of the innermost method around it: the body that is so far
-- out was opened in the scope that the method was given with its receiver.
def Moment.Receives (m : Moment) (i : RefId) (keyword : Token) : Prop :=
  ∃ d body f receiver, m.scene.machine.depths[i]? = some (d + 1) ∧
    m.standpoint.display[d]? = some body ∧ m.standpoint.display[d + 1]? = some f.closure ∧
    (f, receiver) ∈ m.scene.attached ∧ m.scene.labels[body]? = some (some (.routine f.routine)) ∧
    (∃ methods, m.scene.labels[f.closure]? = some (some (.receiver methods)) ∧ f.routine ∈ methods) ∧
    (∀ nearer ∈ m.standpoint.display.take (d + 1), ¬ m.scene.Receives nearer) ∧
    Running.read i keyword m.scene.machine = .ok (.instance receiver) m.scene.machine

-- Only a receiver's own region knows its name.
theorem Frame.declares_receiver {f : Frame} (free : ∀ t ∈ f.seen, t.Free) :
    f.declares receiverName = f.region.isReceiver := by
  have others : f.seen.any (·.lexeme == receiverName) = false := by
    refine List.any_eq_false.mpr fun t member same => free t member (beq_iff_eq.mp same)
  unfold Frame.declares
  rw [others, beq_self_eq_true, Bool.and_true, Bool.false_or]

theorem Region.isReceiver_iff {region : Region} :
    region.isReceiver = true ↔ ∃ methods, region = .receiver methods := by
  cases region with
  | receiver methods => exact ⟨fun _ => ⟨methods, rfl⟩, fun _ => rfl⟩
  | block body => exact ⟨nofun, nofun⟩
  | routine r => exact ⟨nofun, nofun⟩

section Looks

variable {m : Moment} {σ : Setting} {i : RefId} {keyword : Token}

-- The nearest receiver's scope, from which a method of its class stands inwards.
theorem Moment.Looks.receiver (h : m.Looks σ i keyword) (spelled : keyword.lexeme = receiverName)
    (inClass : σ.inClass = true) (proper : Spot.Proper ⟨σ, .expr e⟩) :
    ∃ d scope r methods, m.scene.machine.depths[i]? = some (d + 1) ∧
      m.standpoint.display[d + 1]? = some scope ∧
      m.scene.labels[scope]? = some (some (.receiver methods)) ∧ r ∈ methods ∧
      (∃ body, m.standpoint.display[d]? = some body ∧ m.scene.labels[body]? = some (some (.routine r))) ∧
      ∀ nearer ∈ m.standpoint.display.take (d + 1), ¬ m.scene.Receives nearer := by
  have own : ∀ f ∈ σ.frames, f.declares keyword.lexeme = f.region.isReceiver := fun f member => by
    rw [spelled]
    exact f.declares_receiver (proper.seen f member)
  have found : ∃ depth, m.scene.machine.depths[i]? = some depth := by
    obtain ⟨region, member, receiver⟩ := List.any_eq_true.mp inClass
    obtain ⟨f, inside, rfl⟩ := List.mem_map.mp member
    rw [h.depth]
    refine Option.isSome_iff_exists.mp (List.findIdx?_isSome.trans ?_)
    exact List.any_eq_true.mpr ⟨f, inside, (own f inside).trans receiver⟩
  obtain ⟨depth, found⟩ := found
  obtain ⟨f, scope, frame, declares, there, holds, before⟩ := h.near found
  have nested : Region.Nested σ.regions := proper.nested
  have receiver := (own f (List.mem_of_getElem? frame)).symm.trans declares
  obtain ⟨methods, region⟩ := Region.isReceiver_iff.mp receiver
  have at_depth : σ.regions[depth]? = some (.receiver methods) := by
    unfold Setting.regions
    rw [List.getElem?_map, frame, ← region]
    rfl
  obtain ⟨d, r, rfl, inner, member⟩ := nested.inside at_depth
  obtain ⟨g, inside, body⟩ := Option.map_eq_some_iff.mp ((List.getElem?_map ..).symm.trans inner)
  obtain ⟨activation, near, opened⟩ := forall₂_at h.stands.frames inside
  refine ⟨d, scope, r, methods, found, there, region ▸ holds.label, member, ⟨activation, near, body ▸ opened.label⟩, ?_⟩
  intro nearer inFront receives
  obtain ⟨j, bound, at_j⟩ := List.mem_take_iff_getElem.mp inFront
  obtain ⟨f, frame, holds⟩ := forall₂_at h.stands.frames.flip (List.getElem?_eq_some_iff.mpr ⟨_, at_j⟩)
  obtain ⟨others, label⟩ := receives
  have same : f.region = .receiver others := Option.some.inj (Option.some.inj (holds.label.symm.trans label))
  have plain := before j (Nat.lt_of_lt_of_le bound (Nat.min_le_left _ _)) f frame
  rw [own f (List.mem_of_getElem? frame), same] at plain
  cases plain

theorem Moment.Looks.receives (h : m.Looks σ i keyword) (spelled : keyword.lexeme = receiverName)
    (inClass : σ.inClass = true) (proper : Spot.Proper ⟨σ, .expr e⟩) (receivers : m.scene.Receivers) :
    m.Receives i keyword := by
  obtain ⟨d, scope, r, methods, found, there, label, member, ⟨body, near, opened⟩, front⟩ :=
    h.receiver spelled inClass proper
  obtain ⟨f, receiver, attached, rfl⟩ := receivers.made scope ⟨methods, label⟩
  have inner := h.link near
  have outer := h.link there
  have same : r = f.routine := by
    have own := receivers.bodies _ d body f receiver inner outer attached
    cases opened.symm.trans own
    rfl
  have value := (receivers.kept f receiver attached).own receiverName
  rw [if_pos rfl] at value
  have read : Running.read i keyword m.scene.machine = .ok (.instance receiver) m.scene.machine := by
    have bound : m.scene.machine.store.binds f.closure receiverName = true :=
      (Store.binds_exact ..).mpr ⟨_, value⟩
    unfold Running.read
    rw [h.target_near found there, spelled, if_pos bound]
    dsimp only [Option.bind]
    rw [value]
  exact ⟨d, body, f, receiver, found, near, there, attached, same ▸ opened, ⟨methods, label, same ▸ member⟩, front, read⟩

end Looks

-- A call of an initializer gives its receiver back. A call of a class gives a new instance of it.
def Moment.AnswersProperly (m : Moment) (callee : Callee) (before : Store) (v : Value) : Prop :=
  match callee with
  | .function f => (f.initializer = true → ∃ i, (f, i) ∈ m.scene.attached) ∧
      ∀ i, (f, i) ∈ m.scene.attached → f.routine.isInitializer = true → v = .instance i
  | .classes c => ∃ i, v = .instance i ∧ i.madeBy = c ∧ m.scene.machine.store.Has i ∧
      (∀ j, before.Has j → j ≠ i) ∧ (∀ j, before.Holds j → before.Has j) ∧
      ∀ init, c.initializer? = some init → ∃ f, (f, i) ∈ m.scene.attached ∧ f.routine = init.routine
  | _ => True

theorem Scene.Keeps.same {a : Scene} (first : a.Keeps f i) (second : a.Keeps f j) : i = j := by
  have own := first.own receiverName
  rw [second.own receiverName, if_pos rfl, if_pos rfl] at own
  cases own
  rfl

theorem Moment.Sound.answers {lies : Spot → Prop} {m : Moment} (h : m.Sound lies)
    (event : m.event = .answers callee before v) : m.AnswersProperly callee before v := by
  have tells := h.tells
  unfold Moment.Tells at tells
  rw [event] at tells
  obtain ⟨counts, answers⟩ := tells
  cases callee with
  | clock => trivial
  | lambda l => trivial
  | function f =>
    refine ⟨fun initializes => ?_, fun i member initializer => ?_⟩
    · obtain ⟨i, member, _⟩ := answers initializes
      exact ⟨i, member⟩
    · have keeps := h.receivers.kept f i member
      obtain ⟨j, other, same⟩ := answers (keeps.initializer.trans initializer)
      rw [same, keeps.same (h.receivers.kept f j other)]
  | classes c =>
    obtain ⟨i, same, madeBy, absent, present, initialized⟩ := answers
    refine ⟨i, same, madeBy, present, fun j has equal => ?_, counts, initialized⟩
    exact absent (equal ▸ has)

namespace Chronicle

theorem Sound.run_extends {c : Chronicle} (h : c.Sound) {root : Spot} (member : root ∈ c.accepted)
    (outermost : root.setting = .outermost) (fuel : Nat) :
    c.record.scene.Extends (c.run fuel root.code).record.scene :=
  (h.upholds member outermost fuel).after.1.toExtends

theorem Sound.ask_extends {c : Chronicle} (h : c.Sound) (q : Inquiry) :
    c.record.scene.Extends (c.ask q).record.scene := by
  have noted : ∀ next notes, c.record.scene.Extends ({ c with nextRef := next }.note notes).record.scene :=
    fun next notes => { Scene.Extends.refl c.record.scene with }
  unfold ask
  cases given : q.root c.session with
  | mk answer read =>
    cases answer with
    | rejected problems => exact .refl _
    | unfinished => exact .refl _
    | done root =>
      obtain ⟨outermost, _, accepted⟩ := h.ready given
      dsimp only
      cases clean : root.code.resolution.faults with
      | cons fault rest => exact noted _ _
      | nil =>
        have ran := (accepted clean).run_extends (List.mem_append_right _ List.mem_cons_self) outermost q.fuel
        exact (noted read.nextRef root.code.resolution.notes).trans ran

theorem Sound.askAll_extends {c : Chronicle} (h : c.Sound) (qs : List Inquiry) :
    c.record.scene.Extends (c.askAll qs).record.scene := by
  induction qs generalizing c with
  | nil => exact .refl _
  | cons q rest ih => exact (h.ask_extends q).trans (ih (h.ask_sound q))

end Chronicle

-- Whatever a session was asked before and is asked later, at any moment of any run and between runs:
-- methods keep the receivers they were given in scopes of their own, the keyword always stands
-- for the receiver of the method around it, and initializers and classes answer their calls.
theorem receivers_kept (sink : Sink) (clock : Nat) (qs later : List Inquiry) :
    let before := (Chronicle.start sink clock).askAll qs
    let c := before.askAll later
    before.session = qs.foldl (fun s q => (q.perform s).2) (.start sink clock) ∧
      c.session = later.foldl (fun s q => (q.perform s).2) before.session ∧
      (∀ f i, (f, i) ∈ before.record.scene.attached →
        before.record.scene.Keeps f i ∧ c.record.scene.Keeps f i) ∧
      (c.record.moments.Pairwise fun m n => ∀ f i, (f, i) ∈ m.scene.attached → n.scene.Keeps f i) ∧
      (∀ m ∈ c.record.moments,
        (∀ f i, (f, i) ∈ m.scene.attached → m.scene.Keeps f i ∧ c.record.scene.Keeps f i) ∧
        (∀ scope, m.scene.Receives scope → ∃ f i, (f, i) ∈ m.scene.attached ∧ f.closure = scope) ∧
        (∀ i keyword, m.event = .refers i keyword → keyword.lexeme = receiverName →
          m.Receives i keyword) ∧
        ∀ callee asked v, m.event = .answers callee asked v → m.AnswersProperly callee asked v) := by
  intro before c
  have first : before.Sound := .from_start sink clock qs
  have sound : c.Sound := Chronicle.askAll_sound later first
  have kept := sound.record.scene.receivers.kept
  have grown := (first.askAll_extends later).attached
  refine ⟨(Chronicle.start sink clock).session_askAll qs, before.session_askAll later,
    fun f i member => ⟨first.record.scene.receivers.kept f i member, kept f i (grown.subset member)⟩, ?_,
    fun m member => ⟨fun f i given => ⟨?_, kept f i ((sound.record.attached m member).subset given)⟩, ?_, ?_, ?_⟩⟩
  · refine sound.record.ordered.imp_of_mem fun {m n} _ last grows f i given => ?_
    exact (sound.record.moments n last).receivers.kept f i (grows.subset given)
  · exact (sound.record.moments m member).receivers.kept f i given
  · exact (sound.record.moments m member).receivers.made
  · intro i keyword event spelled
    obtain ⟨root, accepted, σ, e, inside, refers, looks⟩ := sound.looks member event
    have lawful := (sound.accepts root accepted).lawful
    have proper := lawful.proper inside
    have inClass : σ.inClass = true := by
      cases refers with
      | this => exact lawful.receives inside
      | look => exact absurd spelled proper.code
      | assign => exact absurd spelled proper.code.1
    exact looks.receives spelled inClass proper (sound.record.moments m member).receivers
  · intro callee asked v event
    exact (sound.record.moments m member).answers event

end ScopeScript
