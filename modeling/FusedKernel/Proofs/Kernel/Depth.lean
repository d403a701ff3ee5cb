import FusedKernel.Proofs.Kernel.Layout
import Mathlib.Algebra.Order.Group.Int
import Mathlib.Order.Bounds.Basic
import Mathlib.Order.Bounds.Image

/-!
# The depth after a run

Each step moves the depth by one level at most, and never below zero: there, going back is absorbed.
So the depth after a run is not the initial depth and the sum of all moves.  Where the run is at its
lowest, moves may have been absorbed, and only what follows counts in full.  The depth is as if the
run had started there, if that is more.

* `Step.shift`, `Step.climb` — the move of a step and of a run, were there no bottom.
* `Step.levels` — what the depth after a run is the greatest of.
* `Step.NeverSinks` — no front part of a run goes back further than it went.
* `Step.Nested` — scopes are opened and closed in pairs, and nothing else moves the depth.

Principal results: `depthAfter_eq_max` — a move stops at the bottom; `isGreatest_levels` — the depth
after a run; `runEach_depth` — what that means for runs that never sink, for nested scopes and for a
surplus step back.
-/

set_option autoImplicit false

namespace FusedKernel

namespace Step

/-! ## Moves -/

/-- The move of a step, were there no bottom. -/
def shift : Step → Int
  | indent | openScope => 1
  | dedent | closeScope => -1
  | write _ | writeLine _ | expression _ => 0

/-- The move of all steps together, were there no bottom. -/
def climb : List (Context × Step) → Int
  | [] => 0
  | step :: steps => step.2.shift + climb steps

/-- A move stops at the bottom. -/
theorem depthAfter_eq_max (step : Step) (depth : Nat) :
    (step.depthAfter depth : Int) = max (depth + step.shift) 0 := by
  cases step <;> simp only [depthAfter, shift] <;> omega

@[simp] theorem climb_nil : climb [] = 0 := rfl

@[simp] theorem climb_cons (step : Context × Step) (steps : List (Context × Step)) :
    climb (step :: steps) = step.2.shift + climb steps := rfl

@[simp] theorem climb_append (steps steps' : List (Context × Step)) :
    climb (steps ++ steps') = climb steps + climb steps' := by
  induction steps with
  | nil => exact (Int.zero_add _).symm
  | cons step steps ih => rw [List.cons_append, climb, climb, ih, Int.add_assoc]

theorem runEach_append (steps steps' : List (Context × Step)) (body : KernelBody) :
    runEach (steps ++ steps') body = runEach steps' (runEach steps body) := by
  simp [runEach]

theorem depth_runEach_concat (steps : List (Context × Step)) (step : Context × Step)
    (body : KernelBody) :
    (runEach (steps ++ [step]) body).depth = step.2.depthAfter (runEach steps body).depth := by
  rw [Layout.runEach_eq_foldl_writeAt, Layout.runEach_eq_foldl_writeAt, List.foldl_append]
  rfl

/-! ## The greatest level -/

/-- The depth without a bottom, and the move from each point of the run to its end. -/
def levels (start : Nat) (steps : List (Context × Step)) : Set Int :=
  {level | level = start + climb steps ∨
    ∃ k ≤ steps.length, level = climb steps - climb (steps.take k)}

theorem levels_nil (start : Nat) : levels start [] = {(start : Int), 0} := by
  ext level
  simp [levels]

/-- One more step moves all levels, and its end is a point of the run of its own. -/
theorem levels_concat (start : Nat) (steps : List (Context × Step)) (step : Context × Step) :
    levels start (steps ++ [step]) =
      insert 0 ((fun level => level + step.2.shift) '' levels start steps) := by
  ext level
  simp only [levels, Set.mem_ofPred_eq, Set.mem_insert_iff, Set.mem_image, climb_append, climb_cons,
    climb_nil, List.length_append, List.length_singleton]
  constructor
  · rintro (rfl | ⟨k, hk, rfl⟩)
    · exact .inr ⟨_, .inl rfl, by omega⟩
    · rcases Nat.lt_or_eq_of_le hk with hk | rfl
      · have hk : k ≤ steps.length := Nat.le_of_lt_succ hk
        rw [List.take_append_of_le_length hk]
        exact .inr ⟨_, .inr ⟨k, hk, rfl⟩, by omega⟩
      · rw [List.take_of_length_le (by simp)]
        simp
  · rintro (rfl | ⟨_, rfl | ⟨k, hk, rfl⟩, rfl⟩)
    · refine .inr ⟨steps.length + 1, Nat.le_refl _, ?_⟩
      rw [List.take_of_length_le (by simp)]
      simp
    · exact .inl (by omega)
    · refine .inr ⟨k, Nat.le_succ_of_le hk, ?_⟩
      rw [List.take_append_of_le_length hk]
      omega

/-- **The depth after a run is its greatest level.**  By induction on the run: a step moves the
greatest level with all others, and stops at the bottom. -/
theorem isGreatest_levels (steps : List (Context × Step)) (body : KernelBody) :
    IsGreatest (levels body.depth steps) (runEach steps body).depth := by
  induction steps using List.reverseRecOn with
  | nil =>
    rw [levels_nil]
    exact ⟨.inl rfl, by simp [runEach]⟩
  | append_singleton steps step ih =>
    have hmoves : Monotone fun level : Int => level + step.2.shift :=
      fun _ _ h => Int.add_le_add_right h _
    rw [depth_runEach_concat, depthAfter_eq_max, levels_concat, max_comm]
    exact (hmoves.map_isGreatest ih).insert 0

/-! ## Runs that never sink -/

/-- No front part of the run goes back further than it went. -/
def NeverSinks (steps : List (Context × Step)) : Prop := ∀ k, 0 ≤ climb (steps.take k)

namespace NeverSinks

variable {steps steps' : List (Context × Step)}

theorem nil : NeverSinks [] := fun k => by simp

theorem take (h : NeverSinks steps) (k : Nat) : NeverSinks (steps.take k) := by
  intro j
  rw [List.take_take]
  exact h _

theorem append (h : NeverSinks steps) (h' : NeverSinks steps') : NeverSinks (steps ++ steps') := by
  intro k
  rw [List.take_append, climb_append]
  exact Int.add_nonneg (h _) (h' _)

theorem cons {step : Context × Step} (hstep : 0 ≤ step.2.shift) (h : NeverSinks steps) :
    NeverSinks (step :: steps) := by
  intro k
  cases k with
  | zero => simp
  | succ k =>
    rw [List.take_succ_cons, climb_cons]
    exact Int.add_nonneg hstep (h k)

theorem enclosed {first last : Context × Step} (hfirst : first.2.shift = 1)
    (hlast : last.2.shift = -1) (h : NeverSinks steps) : NeverSinks (first :: steps ++ [last]) := by
  have hend : ∀ k, -1 ≤ climb ([last].take k) := by
    intro k
    cases k <;> simp [hlast]
  intro k
  cases k with
  | zero => simp
  | succ k =>
    have hinside := h k
    have hclose := hend (k - steps.length)
    rw [List.cons_append, List.take_succ_cons, climb_cons, List.take_append, climb_append, hfirst]
    omega

/-- Nothing is absorbed from a run that never sinks. -/
theorem depth_eq (h : NeverSinks steps) (body : KernelBody) :
    ((runEach steps body).depth : Int) = body.depth + climb steps := by
  refine (isGreatest_levels steps body).unique ⟨.inl rfl, ?_⟩
  rintro level (rfl | ⟨k, _, rfl⟩)
  · exact Int.le_refl _
  · have := h k
    omega

theorem le_depth (h : NeverSinks steps) (body : KernelBody) (k : Nat) :
    body.depth ≤ (runEach (steps.take k) body).depth := by
  have hdepth := (h.take k).depth_eq body
  have := h k
  omega

end NeverSinks

/-- Scopes are opened and closed in pairs, and nothing else moves the depth. -/
inductive Nested : List (Context × Step) → Prop
  | nil : Nested []
  | text {context : Context} {step : Step} {rest : List (Context × Step)} (hstep : step.shift = 0)
      (hrest : Nested rest) : Nested ((context, step) :: rest)
  | scope {context context' : Context} {inside rest : List (Context × Step)}
      (hinside : Nested inside) (hrest : Nested rest) :
      Nested ((context, openScope) :: inside ++ (context', closeScope) :: rest)

theorem Nested.neverSinks {steps : List (Context × Step)} (h : Nested steps) :
    NeverSinks steps ∧ climb steps = 0 := by
  induction h with
  | nil => exact ⟨.nil, rfl⟩
  | text hstep _ ih => exact ⟨.cons hstep.ge ih.1, by simp [hstep, ih.2]⟩
  | scope _ _ ihinside ihrest =>
    refine ⟨?_, by simp [ihinside.2, ihrest.2, shift]⟩
    rw [List.append_cons]
    exact (ihinside.1.enclosed rfl rfl).append ihrest.1

/-! ## A surplus step back -/

/-- At the bottom, going back does nothing. -/
theorem perform_of_depth_eq_zero {step : Step} (hstep : step = dedent ∨ step = closeScope)
    (context : Context) {body : KernelBody} (hdepth : body.depth = 0) :
    (step.perform context body).2 = body := by
  have hdedent : body.dedent = body := by
    rw [KernelBody.dedent, hdepth, Nat.zero_sub, ← hdepth]
  rcases hstep with rfl | rfl <;> exact hdedent

/-- **The depth after a run.**  It is the greatest of the levels of the run.  So a run that never
sinks and goes back as often as it went, as one of nested scopes does, ends at the depth it began
with and is never below it; and a surplus step back at the bottom is not remembered. -/
theorem runEach_depth (steps : List (Context × Step)) (body : KernelBody) :
    IsGreatest (levels body.depth steps) (runEach steps body).depth ∧
    (NeverSinks steps → climb steps = 0 →
      (runEach steps body).depth = body.depth ∧
        ∀ k, body.depth ≤ (runEach (steps.take k) body).depth) ∧
    (Nested steps → NeverSinks steps ∧ climb steps = 0) ∧
    ∀ context step rest, step = dedent ∨ step = closeScope → (runEach steps body).depth = 0 →
      runEach (steps ++ (context, step) :: rest) body = runEach (steps ++ rest) body := by
  refine ⟨isGreatest_levels steps body, fun hsinks hclimb => ⟨?_, hsinks.le_depth body⟩,
    Nested.neverSinks, ?_⟩
  · have hdepth := hsinks.depth_eq body
    omega
  · intro context step rest hstep hdepth
    have hback : runEach [(context, step)] (runEach steps body) = runEach steps body :=
      perform_of_depth_eq_zero hstep context hdepth
    rw [List.append_cons, runEach_append, runEach_append, hback, runEach_append]

/-- A scope with another one in it, and lines in both. -/
def nestedScopes : List (Context × Step) :=
  [.writeLine "for(;;)", .openScope, .write "x;\n", .openScope, .closeScope, .closeScope,
    .writeLine "y;"].map (Layout.noExpressions, ·)

theorem nested_nestedScopes : Nested nestedScopes :=
  .text rfl (.scope (.text rfl (.scope .nil .nil)) (.text rfl .nil))

/-- Behind nested scopes, one step back too many changes nothing of what follows. -/
theorem nestedScopes_depth :
    Nested nestedScopes ∧ (runEach nestedScopes .empty).depth = 0 ∧
      runEach (nestedScopes ++ [(Layout.noExpressions, .dedent), (Layout.noExpressions, .indent)])
          .empty =
        runEach (nestedScopes ++ [(Layout.noExpressions, .indent)]) .empty := by
  obtain ⟨_, hreturns, hnested, hsurplus⟩ := runEach_depth nestedScopes .empty
  obtain ⟨hsinks, hclimb⟩ := hnested nested_nestedScopes
  have hdepth := (hreturns hsinks hclimb).1
  exact ⟨nested_nestedScopes, hdepth, hsurplus _ .dedent _ (.inl rfl) hdepth⟩

end Step

end FusedKernel
