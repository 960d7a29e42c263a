import Badger.Proofs.Session.Budget
import Badger.Proofs.Session.Replay

/-!
# Limits only cut runs short

A session admits so many active calls, and searches for names so many scopes. A session with wider
limits does the same, evaluation by evaluation, up to the first one that ends at a limit; and what
that one has written by then is where its output starts with wider limits too.

## Main statements

* `Session.ofSession_wider`: a new session with wider limits is a variant
* `Session.limits_cut_short`: limits make no other difference than to cut runs short

## Design notes

The evaluation that is cut short may need a larger budget in order to end with wider limits, since
it goes on there. The two budgets are therefore independent, and are compared within the larger one.
-/

namespace Badger

namespace Session

/-- A new session with wider limits. -/
theorem ofSession_wider {options : Options} {calls scopes : Nat}
    (hcalls : options.callDepth ≤ calls) (hscopes : options.scopeDepth ≤ scopes) :
    ({ wider := true } : Variant).OfSession (new options)
      (new { options with callDepth := calls, scopeDepth := scopes }) where
  memory := by
    have hempty : (Variant.recast { wider := true }).OfMemory {} {} := Recast.ofMemory_empty rfl
    exact (hempty.add ⟨rfl, rfl, .inr ⟨rfl, hscopes⟩⟩).2
  globals_eq := rfl
  callStack_eq := rfl
  callDepth := .inr ⟨rfl, hcalls⟩
  scopeDepth := .inr ⟨rfl, hscopes⟩
  echo_eq := (Bool.and_true _).symm
  strict_eq := rfl
  writes_eq := rfl

end Session

/-- Where only limits differ, everything written is the same. -/
theorem Variant.OfSession.writes_eq_self {s s' : Session}
    (hs : ({ wider := true } : Variant).OfSession s s') : s'.writes = s.writes := by
  rw [← Array.toList_inj, hs.writes_eq, writes_eq_append rfl]
  rfl

/-- Where only limits differ, the global bindings are the same. -/
theorem Variant.OfSession.globalBindings_eq_self {s s' : Session}
    (hs : ({ wider := true } : Variant).OfSession s s') :
    s'.globalBindings = s.globalBindings := by
  rw [hs.globalBindings_eq, recast_bindings_eq_self ⟨rfl, rfl⟩ rfl]

namespace Session

/-- **Limits only cut runs short.** The same texts are evaluated in a session and in one with wider
limits, and none of the first ones ends in an error because of a limit. Then both have written the
same and have the same global bindings. If the next one does not end at a limit either, it has the
same answer in both, with the same value or the same error in all its fields, writes the same and
leaves the same global bindings. If it does, then what has been written by then is a prefix of what
has been written with wider limits when the evaluation ends there, within whatever budget. -/
theorem limits_cut_short (options : Options) {calls scopes : Nat}
    (hcalls : options.callDepth ≤ calls) (hscopes : options.scopeDepth ≤ scopes)
    (past : List Evaluation) (hpast : (new options).WithinLimits past) (e : Evaluation) :
    let narrow := (new options).after (past.map Evaluation.step)
    let wide := (new { options with callDepth := calls, scopeDepth := scopes }).after
      (past.map Evaluation.step)
    let r := narrow.eval e.fuel e.file e.text
    (wide.writes = narrow.writes ∧ wide.globalBindings = narrow.globalBindings) ∧
    (r.1.isLimit = false →
      (wide.eval e.fuel e.file e.text).1 = r.1 ∧
      (wide.eval e.fuel e.file e.text).2.writes = r.2.writes ∧
      (wide.eval e.fuel e.file e.text).2.globalBindings = r.2.globalBindings) ∧
    (r.1.isLimit = true → ∀ fuel, (wide.eval fuel e.file e.text).1 ≠ .outOfFuel →
      r.2.writes.toList <+: (wide.eval fuel e.file e.text).2.writes.toList) := by
  intro narrow wide r
  have hs : ({ wider := true } : Variant).OfSession narrow wide :=
    (ofSession_wider hcalls hscopes).after ⟨rfl, rfl⟩ fun _ => hpast
  refine ⟨⟨hs.writes_eq_self, hs.globalBindings_eq_self⟩, fun hlimit => ?_,
    fun hlimit fuel hends => ?_⟩
  · rcases hs.eval ⟨rfl, rfl⟩ e.fuel e.file e.text with ⟨hanswer, hsession⟩ | ⟨-, hcut, -⟩
    · rw [Variant.answer_eq_self ⟨rfl, rfl⟩ rfl] at hanswer
      exact ⟨hanswer, hsession.writes_eq_self, hsession.globalBindings_eq_self⟩
    · exact Bool.noConfusion (hlimit.symm.trans hcut)
  · -- both evaluations have ended within the larger one of the two budgets
    have hnarrow : narrow.eval (max e.fuel fuel) e.file e.text = r :=
      eval_of_le (Nat.le_max_left _ _) fun h => by
        have : r.1.isLimit = false := by rw [h]; rfl
        simp [hlimit] at this
    have hwide := eval_of_le (Nat.le_max_right e.fuel fuel) hends
    have heval := hs.eval ⟨rfl, rfl⟩ (max e.fuel fuel) e.file e.text
    rw [hnarrow, hwide] at heval
    rcases heval with ⟨-, hsession⟩ | ⟨-, -, hwritten⟩
    · exact hsession.writes_eq_self ▸ List.prefix_rfl
    · rw [Variant.writes_eq_append rfl] at hwritten
      exact hwritten

/-- A function that calls itself three times, in a session that admits two calls: what the first two
have printed is where the output of a session starts that admits three. -/
theorem limits_cut_short_recursion :
    let options : Options := { callDepth := 2 }
    let a : Evaluation := ⟨60, utf8 "a", utf8 "fxn f(s) \x7b
  print(s);
  if (s == \"bb\") \x7b return s; \x7d else \x7b f(s + \"b\"); \x7d
\x7d"⟩
    let e : Evaluation := ⟨60, utf8 "b", utf8 "print(\"a\"); f(\"\");"⟩
    let narrow := (new options).after ([a].map Evaluation.step)
    let wide := (new { options with callDepth := 3, scopeDepth := options.scopeDepth }).after
      ([a].map Evaluation.step)
    let r := narrow.eval e.fuel e.file e.text
    let r' := wide.eval e.fuel e.file e.text
    r.1.isLimit = true ∧ r.2.output = utf8 "ab" ∧ r'.2.output = utf8 "abbbbb\n" ∧
    r.2.writes.toList <+: r'.2.writes.toList := by
  intro options a e
  have hpast : (new options).WithinLimits [a] := ⟨by decide +kernel, trivial⟩
  obtain ⟨-, -, hcut⟩ :=
    limits_cut_short options (by decide : 2 ≤ 3) (Nat.le_refl options.scopeDepth) [a] hpast e
  exact ⟨by decide +kernel, by decide +kernel, by decide +kernel,
    hcut (by decide +kernel) e.fuel (by decide +kernel)⟩

end Session

end Badger
