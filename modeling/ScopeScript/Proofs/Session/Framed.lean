import ScopeScript.Proofs.Grammar.Numbered
import ScopeScript.Proofs.Scoping.Breach
import ScopeScript.Proofs.Scoping.Remain
import ScopeScript.Session

namespace ScopeScript

open Request

namespace Depths

-- What notes leave of a table: their own entries, whatever stood there, and all others as they were.
structure Framed (notes : List Note) (before after : Depths) : Prop where
  noted : ∀ note ∈ notes, after[note.id]? = note.depth
  others : ∀ i, i ∉ notes.map Note.id → after[i]? = before[i]?

-- Notes on different references may come in any order.
theorem record_framed (depths : Depths) {notes looked : List Note} (same : notes.Perm looked)
    (single : (notes.map Note.id).Nodup) : Framed looked depths (depths.record notes) where
  noted := fun note member => depths.record_exact notes single note (same.mem_iff.mpr member)
  others := fun i apart => depths.record_other notes i fun member => apart ((same.map _).mem_iff.mp member)

-- Saying the same again changes no entry.
theorem Framed.again {notes : List Note} {before middle after : Depths} (first : Framed notes before middle)
    (second : Framed notes middle after) : middle.Equiv after := by
  refine Std.TreeMap.Equiv.of_forall_constGet?_eq fun i => ?_
  by_cases member : i ∈ notes.map Note.id
  · obtain ⟨note, inside, rfl⟩ := List.mem_map.mp member
    rw [first.noted note inside, second.noted note inside]
  · exact (second.others i member).symm

end Depths

namespace Session

-- The same session with another table.
def withTable (s : Session) (depths : Depths) : Session :=
  { s with machine := { s.machine with depths := depths } }

-- The resolution of a program that was read, from whatever tokens, in any two sessions. It reports the same
-- in both, and both tables then hold what the program alone says of each reference that it looks up. No other
-- entry changes, and nothing else of the session. Once more, it reports the same again and changes no entry.
theorem resolution_framed {ts : List Token} {next later : RefId} {program : List Stmt}
    (given : readProgram ts next = (.ok program, later)) (s t : Session) :
    ∃ ours theirs again : Depths,
      let report := noting (resolveProgram program)
      let looked := (Stmt.root program).lookings
      report s = (.done (resolveProgram program), s.withTable ours) ∧
        report t = (.done (resolveProgram program), t.withTable theirs) ∧
        (∀ i ∈ looked.map Note.id, ours[i]? = theirs[i]?) ∧
        Depths.Framed looked s.machine.depths ours ∧ Depths.Framed looked t.machine.depths theirs ∧
        report (s.withTable ours) = (.done (resolveProgram program), s.withTable again) ∧ ours.Equiv again := by
  have same := resolveProgram_looks (readProgram_formed given)
  have numbered := (readProgram_numbered ts next).2 program (by rw [given])
  have framed (depths : Depths) := depths.record_framed same (numbered.1.sublist (resolveProgram_ids program))
  refine ⟨_, _, _, rfl, rfl, fun i member => ?_, framed _, framed _, rfl, (framed _).again (framed _)⟩
  obtain ⟨note, looked, rfl⟩ := List.mem_map.mp member
  rw [(framed _).noted note looked, (framed _).noted note looked]

-- The first reference is to a local and the second one to a global. One of the two tables had it the other way.
section

def outerLookSource : String := "\x7b var a = true; print a; \x7d print b;"

def outerLookTokens : List Token := (tokens outerLookSource).toOption.getD []

def outerLookProgram : List Stmt := (readProgram outerLookTokens 0).1.toOption.getD []

def staleTable : Depths := Depths.record ∅ [⟨1, some 3⟩, ⟨8, some 2⟩]

theorem resolution_framed_stale :
    let s := start .unlimited 0
    let report := noting (resolveProgram outerLookProgram)
    readProgram outerLookTokens 0 = (.ok outerLookProgram, 2) ∧
      ∃ ours theirs, (report (s.withTable staleTable)).2 = s.withTable ours ∧ (report s).2 = s.withTable theirs ∧
        ours[0]? = some 0 ∧ ours[1]? = none ∧ ours[8]? = some 2 ∧
        theirs[0]? = some 0 ∧ theirs[1]? = none ∧ theirs[8]? = none := by
  intro s report
  have accepted : (readProgram outerLookTokens 0).1.toOption.isSome := by decide +kernel
  have counted : (readProgram outerLookTokens 0).2 = 2 := by decide +kernel
  have given : readProgram outerLookTokens 0 = (.ok outerLookProgram, 2) := by
    refine Prod.ext ?_ counted
    unfold outerLookProgram
    cases read : (readProgram outerLookTokens 0).1 with
    | error faults =>
      rw [read] at accepted
      cases accepted
    | ok program => rfl
  have looked : (Stmt.root outerLookProgram).lookings = [⟨0, some 0⟩, ⟨1, none⟩] := by decide +kernel
  obtain ⟨ours, theirs, -, one, other, -, framed, framed', -⟩ := resolution_framed given (s.withTable staleTable) s
  rw [looked] at framed framed'
  have others : staleTable[8]? = some 2 := by decide +kernel
  refine ⟨given, ours, theirs, congrArg Prod.snd one, congrArg Prod.snd other, ?_⟩
  exact ⟨framed.noted ⟨0, some 0⟩ (by simp), framed.noted ⟨1, none⟩ (by simp), (framed.others 8 (by decide)).trans others,
    framed'.noted ⟨0, some 0⟩ (by simp), framed'.noted ⟨1, none⟩ (by simp),
    (framed'.others 8 (by decide)).trans Std.TreeMap.getElem?_emptyc⟩

end

end Session

end ScopeScript
