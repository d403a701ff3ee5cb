import FusedKernel.Kernel.Step
import FusedKernel.Proofs.Graph.Paths

/-!
# Settling the expressions of a run

Whether an expression can be written depends on its graph and the symbol table alone, not on the
body it is written to.  So the expressions of a run may be settled beforehand: those that have no
text are left out, and the others become lines like any other.  The run goes through the same
bodies then, with the failures missing.

* `Step.settle` — the step that does the same without looking at an expression, if there is one.

Principal results: `perform_of_settle_eq_none`, `perform_of_settle_eq_some` — what a step does by
how it is settled; `history_filterMap_settle` — the history loses its failures and nothing else;
`run_settled` — failures leave no trace in a body.
-/

set_option autoImplicit false

namespace FusedKernel

namespace Step

/-- The line that is written for an expression, if it has a text; other steps stay as they are. -/
def settle (context : Context) : Step → Option Step
  | expression root =>
    match Expression.text context root with
    | .ok text => some (writeLine (text ++ ";"))
    | .error _ => none
  | step => some step

variable {context : Context} {step : Step}

theorem perform_of_settle_eq_none (h : step.settle context = none) (body : KernelBody) :
    ∃ e, step.perform context body = (.error e, body) := by
  cases step with
  | expression root =>
    cases htext : Expression.text context root with
    | error e => exact ⟨e, KernelBody.writeExpression_error htext⟩
    | ok text => simp [settle, htext] at h
  | _ => simp [settle] at h

/-- A settled step succeeds, and needs no graph. -/
theorem perform_of_settle_eq_some {plain : Step} (h : step.settle context = some plain)
    (context' : Context) (body : KernelBody) :
    ∃ body', step.perform context body = (.ok (), body') ∧
      plain.perform context' body = (.ok (), body') := by
  cases step with
  | expression root =>
    cases htext : Expression.text context root with
    | error e => simp [settle, htext] at h
    | ok text =>
      have hplain : writeLine (text ++ ";") = plain := by simpa [settle, htext] using h
      subst hplain
      exact ⟨_, KernelBody.writeExpression_ok htext, rfl⟩
  | _ =>
    cases h
    exact ⟨_, rfl, rfl⟩

/-- The history of a settled run is that of the run without its failures. -/
theorem history_filterMap_settle (context context' : Context) (steps : List Step)
    (body : KernelBody) :
    history context' (steps.filterMap (settle context)) body =
      (history context steps body).filter (·.1.isOk) := by
  induction steps generalizing body with
  | nil => rfl
  | cons step steps ih =>
    cases hsettle : step.settle context with
    | none =>
      obtain ⟨e, hperform⟩ := perform_of_settle_eq_none hsettle body
      rw [List.filterMap_cons_none hsettle, history, hperform, ih]
      rfl
    | some plain =>
      obtain ⟨body', hperform, hplain⟩ := perform_of_settle_eq_some hsettle context' body
      rw [List.filterMap_cons_some hsettle, history, history, hperform, hplain, ih]
      rfl

theorem run_cons (context : Context) (step : Step) (steps : List Step) (body : KernelBody) :
    run context (step :: steps) body = run context steps (step.perform context body).2 := by
  simp [run]

theorem run_filterMap_settle (context context' : Context) (steps : List Step)
    (body : KernelBody) :
    run context' (steps.filterMap (settle context)) body = run context steps body := by
  induction steps generalizing body with
  | nil => simp [run]
  | cons step steps ih =>
    cases hsettle : step.settle context with
    | none =>
      obtain ⟨e, hperform⟩ := perform_of_settle_eq_none hsettle body
      rw [List.filterMap_cons_none hsettle, run_cons, hperform, ih]
    | some plain =>
      obtain ⟨body', hperform, hplain⟩ := perform_of_settle_eq_some hsettle context' body
      rw [List.filterMap_cons_some hsettle, run_cons, run_cons, hperform, hplain, ih]

/-- **Failures leave no trace in a body.**  Writing an expression either fails, as its text does,
and leaves the body as it was, or does what writing its text as a line does.  So if the expressions
that fail are left out and the others are written as plain lines, the run goes through the same
bodies and ends with the same one. -/
theorem run_settled (context context' : Context) :
    (∀ (root : NodeId) (e : GenerationError) (body body' : KernelBody),
      (expression root).perform context body = (.error e, body') →
        Expression.text context root = .error e ∧ body' = body) ∧
    (∀ (root : NodeId) (body body' : KernelBody),
      (expression root).perform context body = (.ok (), body') →
        ∃ text, Expression.text context root = .ok text ∧
          (writeLine (text ++ ";")).perform context' body = (.ok (), body')) ∧
    ∀ (steps : List Step) (body : KernelBody),
      history context' (steps.filterMap (settle context)) body =
          (history context steps body).filter (·.1.isOk) ∧
        run context' (steps.filterMap (settle context)) body = run context steps body := by
  refine ⟨?_, ?_, fun steps body => ⟨?_, ?_⟩⟩
  · intro root e body body' h
    cases htext : Expression.text context root with
    | error e' =>
      rw [perform, KernelBody.writeExpression_error htext] at h
      cases h
      exact ⟨rfl, rfl⟩
    | ok text =>
      rw [perform, KernelBody.writeExpression_ok htext] at h
      cases h
  · intro root body body' h
    cases htext : Expression.text context root with
    | error e =>
      rw [perform, KernelBody.writeExpression_error htext] at h
      cases h
    | ok text =>
      rw [perform, KernelBody.writeExpression_ok htext] at h
      exact ⟨text, rfl, h⟩
  · exact history_filterMap_settle context context' steps body
  · exact run_filterMap_settle context context' steps body

/-- A sum with symbols, and a second one over it that lacks the symbol of its right operand. -/
def partlyMapped : Context where
  graph := ⟨#[⟨.canonical .add, Walk.anyLeaf, some Walk.anyLeaf⟩,
    ⟨.canonical .add, .node 0, some Walk.anyLeaf⟩]⟩
  symbols := .ofList [((0, .left), .hostScalar "x"), ((0, .right), .vector "y")]
  format := .standard

/-- The second sum fails within a scope, and behind the text of the first one. -/
theorem partlyMapped_settled :
    (expression 1).perform partlyMapped .empty = (.error (.unmapped 1 .right), .empty) ∧
      Expression.text partlyMapped 1 = .error (.unmapped 1 .right) ∧
      run partlyMapped [.writeLine "x", .openScope, .expression 1, .expression 0, .closeScope]
          .empty =
        run partlyMapped [.writeLine "x", .openScope, .writeLine "(x+y[i]);", .closeScope]
          .empty := by
  have hfails : (expression 1).perform partlyMapped .empty =
      (.error (.unmapped 1 .right), .empty) := by rfl
  obtain ⟨hfailure, _, hsettled⟩ := run_settled partlyMapped partlyMapped
  refine ⟨hfails, (hfailure 1 _ _ _ hfails).1, ?_⟩
  rw [← (hsettled _ _).2]
  rfl

end Step

end FusedKernel
