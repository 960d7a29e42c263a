import Badger.Proofs.Session.Replay

/-!
# Dead code makes no difference

What stands after a return among the statements of a program, of a block or of a function is never
run. A program does the same without it, from any session.

## Main statements

* `Session.dead_code_unobserved`: a program and the program without dead code run alike

## Design notes

The functions that a program declares keep what stands after their returns, and so do those that
are there before it runs. Both runs are therefore compared with a third one, of the program without
dead code in a session whose functions are without dead code too: pruning takes both to it.
-/

namespace Badger

namespace Session

/-- **Dead code makes no difference.** From any session, a program and the program without dead
code end alike within the same budget: with the same value, with the same error in all its fields,
or not at all. They have written the same, and leave the same bindings in every scope. Functions,
among the values and in the scopes, are the same but for dead code in their bodies. -/
theorem dead_code_unobserved (s : Session) (fuel : Nat) (stmts : List Stmt) :
    let V : Variant := { pruned := true }
    let r := s.runProgram fuel stmts
    let r' := s.runProgram fuel (Stmt.listPrune stmts)
    V.answer r'.1 = V.answer r.1 ∧ r'.2.writes = r.2.writes ∧
    V.recast.castMemory r'.2.memory = V.recast.castMemory r.2.memory ∧
    r'.2.globals = r.2.globals := by
  intro V r r'
  have hs : V.InStep s (V.session s) := Variant.inStep_session s
  -- the run that both are compared with
  let q := (V.session s).runProgram fuel (V.stmts stmts)
  have hwhole : V.Answers r q := hs.runProgram rfl fuel stmts
  have hpruned : V.Answers r' q := by
    have hrun := hs.runProgram rfl fuel (Stmt.listPrune stmts)
    have hstmts : V.stmts (Stmt.listPrune stmts) = V.stmts stmts :=
      congrArg (List.map _) (Stmt.listPrune_listPrune stmts)
    rwa [hstmts] at hrun
  rcases hwhole with ⟨hanswer, hsession⟩ | ⟨hcut, -, -⟩
  case cut => cases hcut
  rcases hpruned with ⟨hanswer', hsession'⟩ | ⟨hcut, -, -⟩
  case cut => cases hcut
  refine ⟨hanswer'.symm.trans hanswer, ?_, ?_, ?_⟩
  · rw [← Array.toList_inj]
    have hwrites := hsession'.writes_eq.symm.trans hsession.writes_eq
    rwa [Variant.writes_eq_append rfl, Variant.writes_eq_append rfl] at hwrites
  · rw [← hsession'.memory.eq_cast rfl rfl, ← hsession.memory.eq_cast rfl rfl]
  · exact Recast.scope_inj.mp (hsession'.globals_eq.symm.trans hsession.globals_eq)

end Session

end Badger
