import Mathlib.Data.List.Pairwise
import ScopeScript.Proofs.Scoping.Enclose
import ScopeScript.Proofs.Session.Receiver

namespace ScopeScript

-- The names that statements and parameter lists give to scopes of a region, classes apart.
inductive Spot.Declaration (root : Spot) : Region → Token → Prop where
  | var (inside : root.Within ⟨σ, .stmt (.var t initial)⟩) (frames : σ.frames = f :: outer) :
      Declaration root f.region t
  | function (inside : root.Within ⟨σ, .stmt (.function r)⟩) (frames : σ.frames = f :: outer) :
      Declaration root f.region r.head
  | parameter (inside : root.Within ⟨σ, .routine kind r⟩) (member : t ∈ r.parameters) :
      Declaration root (.routine r) t

-- An assignment whose depth leads to the region.
def Spot.Assigns (root : Spot) (depths : Depths) (region : Region) (name : String) : Prop :=
  ∃ σ i t value d, root.Within ⟨σ, .expr (.assign i t value)⟩ ∧ t.lexeme = name ∧
    depths[i]? = some d ∧ σ.regions[d]? = some region

-- Every scope of the region that has the name keeps its value.
def Scene.Fixes (region : Region) (name : String) (a b : Scene) : Prop :=
  ∀ scope v, a.labels[scope]? = some (some region) → a.machine.store.own? scope name = some v →
    b.machine.store.own? scope name = some v

theorem Spot.Declaration.mentioned {root : Spot} {region : Region} {t : Token} (h : root.Declaration region t)
    (outermost : root.setting = .outermost) : ∀ m ∈ region.mentions, m ∈ root.code.mentions := by
  have around : ∀ {σ : Setting} {f : Frame} {outer : List Frame}, σ.frames = f :: outer → f.region ∈ σ.regions := by
    intro σ f outer frames
    unfold Setting.regions
    rw [frames]
    exact List.mem_cons_self
  cases h with
  | var inside frames => exact (inside.region outermost (around frames)).2
  | function inside frames => exact (inside.region outermost (around frames)).2
  | parameter inside => exact inside.mentions

theorem Scene.Leads.fixes {lies : Spot → Prop} {a b : Scene} {region : Region} (h : a.Leads lies b)
    (free : ¬ region.Assigned lies name) : a.Fixes region name b :=
  fun scope v label own => h.own scope name v (fun loose => free (loose region label)) own

namespace Chronicle

-- No two accepted sources share an id.
def Apart (c : Chronicle) : Prop :=
  c.accepted.Pairwise fun x y => ∀ i ∈ refsOf x.code.mentions, i ∉ refsOf y.code.mentions

structure Rooted (c : Chronicle) : Prop where
  apart : c.Apart
  outermost : ∀ root ∈ c.accepted, root.setting = .outermost

theorem Sound.ask_rooted {c : Chronicle} (h : c.Sound) (rooted : c.Rooted) (q : Inquiry) : (c.ask q).Rooted := by
  obtain ⟨later, fresh⟩ := q.root_fresh c.session
  unfold ask
  cases given : q.root c.session with
  | mk answer read =>
    rw [given] at fresh
    cases answer with
    | rejected problems => exact ⟨rooted.apart, rooted.outermost⟩
    | unfinished => exact ⟨rooted.apart, rooted.outermost⟩
    | done root =>
      have new := fresh root rfl
      dsimp only
      cases root.code.resolution.faults with
      | cons fault rest => exact ⟨rooted.apart, rooted.outermost⟩
      | nil =>
        refine ⟨List.pairwise_append.mpr ⟨rooted.apart, List.pairwise_singleton .., fun x old y last i used => ?_⟩,
          fun other member => ?_⟩
        · rw [List.mem_singleton.mp last]
          intro again
          exact absurd ((h.accepts x old).old i used) (Nat.not_lt_of_le (new.numbered.2 i again).1)
        · rcases List.mem_append.mp member with old | last
          · exact rooted.outermost other old
          · rw [List.mem_singleton.mp last]
            exact new.outermost

theorem Sound.askAll_rooted {c : Chronicle} (h : c.Sound) (rooted : c.Rooted) (qs : List Inquiry) :
    (c.askAll qs).Rooted := by
  induction qs generalizing c with
  | nil => exact rooted
  | cons q rest ih => exact ih (h.ask_sound q) (h.ask_rooted rooted q)

theorem Rooted.from_start (sink : Sink) (clock : Nat) (qs : List Inquiry) :
    ((start sink clock).askAll qs).Rooted :=
  (start_sound sink clock).askAll_rooted ⟨.nil, nofun⟩ qs

theorem Rooted.same {c : Chronicle} (h : c.Rooted) {x y : Spot} (first : x ∈ c.accepted) (second : y ∈ c.accepted)
    {i : RefId} (here : i ∈ refsOf x.code.mentions) (there : i ∈ refsOf y.code.mentions) : x = y := by
  have symm : Std.Symm fun x y : Spot => ∀ i ∈ refsOf x.code.mentions, i ∉ refsOf y.code.mentions :=
    ⟨fun x y apart j used again => apart j again used⟩
  by_contra other
  exact h.apart.forall first second other i here there

-- An assignment to a region of a source lies in that source.
theorem Sound.assigns {c : Chronicle} (h : c.Sound) (rooted : c.Rooted) {root : Spot} (accepted : root ∈ c.accepted)
    (declared : root.Declaration region t) (assigned : region.Assigned c.Lies name) :
    root.Assigns c.record.scene.machine.depths region name := by
  obtain ⟨σ, i, u, value, d, ⟨other, member, inside⟩, rfl, depth, there⟩ := assigned
  have around := (inside.region (rooted.outermost other member) (List.mem_of_getElem? there)).1
  have mentioned : ⟨u, some i⟩ ∈ (Expr.assign i u value).mentions := Expr.Refers.assign.mentioned
  have mine := declared.mentioned (rooted.outermost root accepted) _ (around _ mentioned)
  have same : other = root := rooted.same member accepted (inside.ref_mem .assign)
    (List.mem_filterMap.mpr ⟨_, mine, rfl⟩)
  subst same
  exact ⟨σ, i, u, value, d, inside, rfl, ((h.accepts other member).lawful.refers inside .assign).trans depth, there⟩

end Chronicle

namespace Chronicle

theorem Sound.ask_leads {c : Chronicle} (h : c.Sound) (q : Inquiry) :
    c.record.scene.Leads (c.ask q).Lies (c.ask q).record.scene := by
  unfold ask
  cases given : q.root c.session with
  | mk answer read =>
    cases answer with
    | rejected problems => exact .refl _
    | unfinished => exact .refl _
    | done root =>
      obtain ⟨outermost, _, accepted⟩ := h.ready given
      let noted := { c with nextRef := read.nextRef }.note root.code.resolution.notes
      have kept : c.record.scene.Leads (noted.accept root).Lies noted.record.scene :=
        { Scene.Leads.refl c.record.scene with }
      dsimp only
      cases clean : root.code.resolution.faults with
      | cons fault rest => exact { Scene.Leads.refl c.record.scene with }
      | nil =>
        have ran := (accepted clean).upholds (List.mem_append_right _ List.mem_cons_self) outermost q.fuel
        exact kept.trans ran.after.1.leads

theorem ask_accepted (c : Chronicle) (q : Inquiry) : c.accepted ⊆ (c.ask q).accepted := by
  unfold ask
  cases q.root c.session with
  | mk answer read =>
    cases answer with
    | rejected problems => exact fun _ => id
    | unfinished => exact fun _ => id
    | done root =>
      dsimp only
      cases root.code.resolution.faults with
      | cons fault rest => exact fun _ => id
      | nil => exact List.subset_append_left _ _

theorem askAll_accepted (c : Chronicle) (qs : List Inquiry) : c.accepted ⊆ (c.askAll qs).accepted := by
  induction qs generalizing c with
  | nil => exact fun _ => id
  | cons q rest ih => exact List.Subset.trans (c.ask_accepted q) (ih (c.ask q))

theorem Sound.askAll_leads {c : Chronicle} (h : c.Sound) (qs : List Inquiry) :
    c.record.scene.Leads (c.askAll qs).Lies (c.askAll qs).record.scene := by
  induction qs generalizing c with
  | nil => exact .refl _
  | cons q rest ih =>
    refine ((h.ask_leads q).widen ?_).trans (ih (h.ask_sound q))
    rintro S ⟨root, member, inside⟩
    exact ⟨root, (c.ask q).askAll_accepted rest member, inside⟩

end Chronicle

-- At any moment of any run on a session and between its runs: a declaration that has ended has bound
-- its name in a scope of its region, and every scope of a routine has its parameters. Where no assignment of
-- its source goes to such a name, its slots keep their values for good, and no call changes its caller's.
theorem unassigned_constant (sink : Sink) (clock : Nat) (qs later : List Inquiry) :
    let before := (Chronicle.start sink clock).askAll qs
    let c := before.askAll later
    before.session = qs.foldl (fun s q => (q.perform s).2) (.start sink clock) ∧
      c.session = later.foldl (fun s q => (q.perform s).2) before.session ∧
      (∀ m ∈ c.record.moments,
        (∀ s, m.event = .ends s .normal → ∃ root ∈ c.accepted, ∃ σ, root.Within ⟨σ, .stmt s⟩ ∧
          m.scene.labels[m.scene.machine.scope]? = some σ.regions.head? ∧
          ∀ t ∈ s.declares, m.scene.machine.store.binds m.scene.machine.scope t.lexeme = true) ∧
        ∀ scope r, m.scene.labels[scope]? = some (some (.routine r)) → ∀ t ∈ r.parameters,
          m.scene.machine.store.binds scope t.lexeme = true) ∧
      ∀ root ∈ c.accepted, ∀ region t, root.Declaration region t →
        ¬ root.Assigns c.record.scene.machine.depths region t.lexeme →
          (c.record.moments.Pairwise fun m n => m.scene.Fixes region t.lexeme n.scene) ∧
          (∀ m ∈ c.record.moments, m.scene.Fixes region t.lexeme c.record.scene) ∧
          before.record.scene.Fixes region t.lexeme c.record.scene ∧
          ∀ m ∈ c.record.moments, ∀ callee asked answer, m.event = .answers callee asked answer →
            ∀ scope v, m.scene.labels[scope]? = some (some region) → asked.own? scope t.lexeme = some v →
              m.scene.machine.store.own? scope t.lexeme = some v := by
  intro before c
  have first : before.Sound := .from_start sink clock qs
  have sound : c.Sound := Chronicle.askAll_sound later first
  have rooted : c.Rooted := first.askAll_rooted (.from_start sink clock qs) later
  refine ⟨(Chronicle.start sink clock).session_askAll qs, before.session_askAll later, fun m member => ?_,
    fun root accepted region t declared unassigned => ?_⟩
  · have holds := sound.record.moments m member
    refine ⟨fun s event => ?_, holds.furnished⟩
    have shows := holds.shows
    unfold Moment.Shows at shows
    rw [event] at shows
    obtain ⟨σ, ⟨root, accepted, inside⟩, rest⟩ := shows
    exact ⟨root, accepted, σ, inside, rest⟩
  · have free : ¬ region.Assigned c.Lies t.lexeme := fun assigned =>
      unassigned (sound.assigns rooted accepted declared assigned)
    refine ⟨sound.record.constant.imp fun leads => leads.fixes free,
      fun m member => (sound.record.leads m member).fixes free, (first.askAll_leads later).fixes free,
      fun m member callee asked answer event scope v label own => ?_⟩
    have shows := (sound.record.moments m member).shows
    unfold Moment.Shows at shows
    rw [event] at shows
    exact shows scope t.lexeme v (fun loose => free (loose region label)) own

end ScopeScript
