import ScopeScript.Proofs.Scoping.Due
import ScopeScript.Proofs.Session.Advice

namespace ScopeScript

-- Sorted warnings stand in strict order where each points at a token of its own in a source.
theorem sort_strict {ws : List Warning} {body : List Token} (sorted : body.Pairwise Token.Earlier)
    (pointed : (ws.map Warning.token).Subperm body) :
    (ws.mergeSort fun a b => a.token.position.before b.token.position).Pairwise fun a b => a.token.Earlier b.token := by
  have same := List.mergeSort_perm ws fun a b => a.token.position.before b.token.position
  have weak : (ws.mergeSort fun a b => a.token.position.before b.token.position).Pairwise fun a b =>
      a.token.position.before b.token.position = true :=
    List.pairwise_mergeSort (fun a b c => Position.before_trans a.token.position b.token.position c.token.position)
      (fun a b => Position.before_total a.token.position b.token.position) ws
  have single := nodup_of_subperm pointed (sorted_nodup sorted)
  have differ := List.pairwise_map.mp ((same.map Warning.token).nodup_iff.mpr single)
  have known : ∀ w ∈ ws.mergeSort fun a b => a.token.position.before b.token.position, w.token ∈ body :=
    fun w member => pointed.subset (List.mem_map_of_mem (same.mem_iff.mp member))
  have apart : body.Pairwise fun a b => a.Earlier b ∨ b.Earlier a := sorted.imp .inl
  have symmetric : Std.Symm fun a b : Token => a.Earlier b ∨ b.Earlier a := ⟨fun _ _ => Or.symm⟩
  refine (weak.and differ).imp_of_mem fun {a b} here there ⟨before, other⟩ => ?_
  rcases apart.forall (known a here) (known b there) other with earlier | later
  · exact earlier
  · exact absurd before (Bool.eq_false_iff.mp later)

-- A program is warned of tokens of its own, of each one once.
theorem Stmt.alerts_subperm (program : List Stmt) :
    ((Stmt.root program).alerts.map Warning.token).Subperm (Stmt.subjectsAll program) := by
  refine List.subperm_ext_iff.mpr fun t _ => ?_
  have names := (namesOf_sublist (Stmt.mentionsAll program)).count_le t
  have alerts := Spot.alerts_counted t (Stmt.root program)
  rw [Stmt.subjectsAll, List.count_append]
  exact Nat.le_trans alerts (Nat.add_le_add_right names _)

-- The warnings of an accepted program stand in strict order of the source. They are one for each local
-- declaration that the table leads no variable and no assignment to, and one for each return right in the body of
-- a routine with a statement behind it there.
theorem Session.warnings_exact {source : String} {s read t ready : Session} {program : List Stmt} {warnings : List Warning}
    (parsed : Session.parse source s = (.done program, read))
    (accepted : Session.resolve program t = (.done warnings, ready)) :
    warnings.Pairwise (fun a b => a.token.Earlier b.token) ∧
      ∀ w, w ∈ warnings ↔ w.Due (Stmt.root program) ready.machine.depths := by
  have known := Session.parse_accepted parsed accepted
  obtain ⟨body, sorted, subjects⟩ := Session.parse_subjects parsed
  obtain ⟨faultless, rfl, rfl⟩ := Session.resolve_done accepted
  rw [resolveProgram_warns known.clean.obeys known.formed known.names]
  refine ⟨sort_strict sorted ((Stmt.alerts_subperm program).trans subjects), fun w => ?_⟩
  rw [List.mem_mergeSort]
  exact known.clean.due_iff known.names ((Session.parse_fresh parsed).lawful faultless t.machine.depths) w

-- Nothing else is due in that program: not the variable in the block around, which the function prints.
theorem Session.warnings_exact_advised :
    let read : Session := ⟨.start .unlimited 0, 3⟩
    let unused : Warning := ⟨.unusedVariable, firstLine 40 .identifier "a"⟩
    let behind : Warning := ⟨.unreachableCode, firstLine 43 (.keyword .returnWord) "return"⟩
    Session.parse advisedSource (.start .unlimited 0) = (.done advisedTree, read) ∧
      ∃ ready, Session.resolve advisedTree read = (.done [unused, behind], ready) ∧
        unused.token.Earlier behind.token ∧
        ∀ w : Warning, w.Due (Stmt.root advisedTree) ready.machine.depths ↔ w = unused ∨ w = behind := by
  intro read unused behind
  have resolved : Session.resolve advisedTree read = (.done [unused, behind], read.tabled advisedTree) := by
    rw [Session.resolve_clean (by decide +kernel), advisedTree_warned]
  obtain ⟨sorted, exact⟩ := Session.warnings_exact advisedTree_read resolved
  refine ⟨advisedTree_read, _, resolved, (List.pairwise_cons.mp sorted).1 _ List.mem_cons_self, fun w => ?_⟩
  rw [← exact w]
  simp

end ScopeScript
