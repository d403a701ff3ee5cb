import FusedKernel.Kernel.Step
import Mathlib.Data.List.Permutation
import Mathlib.Data.List.SplitBy

/-!
# The layout of a kernel body

A body is laid out line by line: every line stands behind four spaces for each level of depth
that was in force when its first character was written.  Which steps wrote the line, how many of
them, and what depth they left it at, is all the same.

* `Layout.lines` — the lines of a text, each with the break that ends it.
* `Layout.ink` — the characters that steps write, each with the depth in force when it is written.
* `Step.runEach` — steps that have a graph and a symbol table of their own.

Principal results: `write_eq_foldl_writePiece` — a text may be written a line at a time;
`runEach_eq_foldl_writeAt` — what a run writes is its ink; `runEach_layout` — the body after a
run, line by line.
-/

set_option autoImplicit false

namespace FusedKernel

namespace Layout

/-- The lines of a text, each with the break that ends it; the last one may have none. -/
def lines (text : List Char) : List (List Char) :=
  text.splitBy fun c _ => c != '\n'

/-- A line holds no break but the one that ends it, and all lines but the last one end with one. -/
theorem lines_spec (text : List Char) :
    (lines text).flatten = text ∧
      (∀ line ∈ lines text, line ≠ [] ∧ '\n' ∉ line.dropLast) ∧
      ∀ line ∈ (lines text).dropLast, line.getLast? = some '\n' := by
  have hdropLast : ∀ line : List Char, line.IsChain (fun c _ => c != '\n') →
      '\n' ∉ line.dropLast := by
    intro line hline
    induction line with
    | nil => simp
    | cons c line ih =>
      cases line with
      | nil => simp
      | cons c' line =>
        obtain ⟨hc, hline⟩ := List.isChain_cons_cons.1 hline
        rw [List.dropLast_cons_cons, List.mem_cons, not_or]
        exact ⟨fun heq => by simp [← heq] at hc, ih hline⟩
  have hends : ∀ pieces : List (List Char),
      pieces.IsChain (fun piece next =>
        ∃ h, ∃ _ : next ≠ [], (piece.getLast h != '\n') = false) →
      ∀ line ∈ pieces.dropLast, line.getLast? = some '\n' := by
    intro pieces hpieces
    induction pieces with
    | nil => simp
    | cons piece pieces ih =>
      cases pieces with
      | nil => simp
      | cons next pieces =>
        obtain ⟨⟨hne, _, hbreak⟩, hpieces⟩ := List.isChain_cons_cons.1 hpieces
        rw [List.dropLast_cons_cons, List.forall_mem_cons]
        exact ⟨by simpa [List.getLast?_eq_some_getLast hne] using hbreak, ih hpieces⟩
  refine ⟨List.flatten_splitBy _ text, fun line hline => ⟨?_, ?_⟩, ?_⟩
  · exact List.ne_nil_of_mem_splitBy hline
  · exact hdropLast line (List.isChain_of_mem_splitBy hline)
  · exact hends _ (List.isChain_getLast_head_splitBy (fun c _ => c != '\n') text)

/-- A line behind its indentation. -/
def indented (depth : Nat) (line : List Char) : List Char :=
  List.replicate (4 * depth) ' ' ++ line

end Layout

theorem toList_indentation (depth : Nat) :
    (indentation depth).toList = List.replicate (4 * depth) ' ' := by
  induction depth with
  | zero => rfl
  | succ depth ih =>
    have hunit : indentUnit.toList = List.replicate 4 ' ' := by decide
    rw [indentation, String.toList_append, ih, hunit, List.replicate_append_replicate]
    congr 1
    omega

/-! ## Characters and their depths -/

namespace KernelBody

/-- Appends a character at a depth. -/
def writeAt (body : KernelBody) (mark : Char × Nat) : KernelBody :=
  { body with depth := mark.2 }.writeChar mark.1

theorem toList_writeAt (body : KernelBody) (mark : Char × Nat) :
    (body.writeAt mark).text.toList = body.text.toList ++
      if body.startsLine then Layout.indented mark.2 [mark.1] else [mark.1] := by
  unfold writeAt writeChar
  cases body.startsLine <;> simp [Layout.indented, toList_indentation]

/-- Ink does not ask for the depth of the body it is put on. -/
theorem foldl_writeAt_setDepth (ink : List (Char × Nat)) (body : KernelBody) (depth depth' : Nat) :
    { ink.foldl writeAt { body with depth := depth } with depth := depth' } =
      { ink.foldl writeAt body with depth := depth' } := by
  cases ink <;> rfl

theorem write_eq_foldl_writeAt (body : KernelBody) (text : String) :
    body.write text = (text.toList.map (·, body.depth)).foldl writeAt body := by
  rw [write]
  generalize text.toList = cs
  induction cs generalizing body with
  | nil => rfl
  | cons c cs ih => exact ih (body.writeChar c)

/-- A line that begins where a line is due stands behind its indentation, and the next line is due
when its break has been written. -/
theorem foldl_writeAt_line {line : List (Char × Nat)} (hne : line ≠ [])
    (hline : line.IsChain fun mark _ => mark.1 != '\n') (body : KernelBody) :
    (line.foldl writeAt body).text.toList = body.text.toList ++
        (if body.startsLine then Layout.indented (line.head hne).2 (line.map (·.1))
          else line.map (·.1)) ∧
      (line.foldl writeAt body).startsLine = ((line.getLast hne).1 == '\n') := by
  induction line generalizing body with
  | nil => exact absurd rfl hne
  | cons mark line ih =>
    cases line with
    | nil => exact ⟨toList_writeAt body mark, rfl⟩
    | cons mark' line =>
      obtain ⟨hmark, hrest⟩ := List.isChain_cons_cons.1 hline
      have hstarts : (body.writeAt mark).startsLine = false := by
        simpa [writeAt, writeChar] using hmark
      obtain ⟨htext, hends⟩ := ih (List.cons_ne_nil _ _) hrest (body.writeAt mark)
      refine ⟨?_, hends⟩
      rw [List.foldl_cons, htext, hstarts, toList_writeAt]
      cases body.startsLine <;> simp [Layout.indented]

/-- Appends a line or a part of one, behind the indentation if it begins a line. -/
def writePiece (body : KernelBody) (piece : List Char) : KernelBody where
  text :=
    (if body.startsLine then body.text ++ indentation body.depth else body.text) ++
      String.ofList piece
  depth := body.depth
  startsLine := piece.getLast? == some '\n'

theorem foldl_writeChar_piece {piece : List Char} (hne : piece ≠ [])
    (hpiece : piece.IsChain fun c _ => c != '\n') (body : KernelBody) :
    piece.foldl writeChar body = body.writePiece piece := by
  have hmarks : piece.map (·, body.depth) ≠ [] := by simpa using hne
  have hwrite : piece.foldl writeChar body = (piece.map (·, body.depth)).foldl writeAt body := by
    simpa [write] using write_eq_foldl_writeAt body (String.ofList piece)
  obtain ⟨htext, hstarts⟩ := foldl_writeAt_line hmarks ((List.isChain_map _).2 hpiece) body
  rw [← hwrite] at htext hstarts
  have hdepth := depth_foldl_writeChar piece body
  generalize piece.foldl writeChar body = after at htext hstarts hdepth ⊢
  cases after
  simp only [writePiece, KernelBody.mk.injEq]
  refine ⟨?_, hdepth, ?_⟩
  · rw [← String.toList_inj, htext]
    cases body.startsLine <;>
      simp [Layout.indented, toList_indentation, Function.comp_def]
  · simpa [List.getLast?_eq_some_getLast hne] using hstarts

/-- **A text may be written a line at a time**, with one look at each piece for whether it begins
a line and one for whether it ends it. -/
theorem write_eq_foldl_writePiece (body : KernelBody) (text : String) :
    body.write text = (Layout.lines text.toList).foldl writePiece body := by
  have hpieces : ∀ pieces : List (List Char), [] ∉ pieces →
      (∀ piece ∈ pieces, piece.IsChain fun c _ => c != '\n') → ∀ body : KernelBody,
      pieces.flatten.foldl writeChar body = pieces.foldl writePiece body := by
    intro pieces
    induction pieces with
    | nil => intro _ _ body; rfl
    | cons piece pieces ih =>
      intro hne hchain body
      rw [List.mem_cons, not_or] at hne
      rw [List.forall_mem_cons] at hchain
      rw [List.flatten_cons, List.foldl_append, List.foldl_cons,
        foldl_writeChar_piece (Ne.symm hne.1) hchain.1, ih hne.2 hchain.2]
  have hlines := hpieces (Layout.lines text.toList) (List.nil_notMem_splitBy _ _)
    (fun _ => List.isChain_of_mem_splitBy) body
  rwa [Layout.lines, List.flatten_splitBy] at hlines

end KernelBody

/-! ## Lines and their depths -/

namespace Layout

/-- The lines of an ink. -/
def inkLines (ink : List (Char × Nat)) : List (List (Char × Nat)) :=
  ink.splitBy fun mark _ => mark.1 != '\n'

/-- The depth in force when the first character of a line was written. -/
def lineDepth (line : List (Char × Nat)) : Nat := (line.map (·.2)).headD 0

theorem lineDepth_of_ne_nil {line : List (Char × Nat)} (hne : line ≠ []) :
    lineDepth line = (line.head hne).2 := by
  cases line with
  | nil => exact absurd rfl hne
  | cons => rfl

/-- Lines do not look at depths. -/
theorem lines_map_fst (ink : List (Char × Nat)) :
    lines (ink.map (·.1)) = (inkLines ink).map (List.map (·.1)) := by
  refine List.splitBy_eq_iff.2 ⟨?_, ?_, ?_, ?_⟩
  · rw [← List.map_flatten, inkLines, List.flatten_splitBy]
  · simp [inkLines]
  · intro line hline
    obtain ⟨marks, hmarks, rfl⟩ := List.mem_map.1 hline
    exact (List.isChain_map _).2 (List.isChain_of_mem_splitBy hmarks)
  · refine (List.isChain_map _).2 ((List.isChain_getLast_head_splitBy _ ink).imp ?_)
    rintro marks marks' ⟨hne, hne', hbreak⟩
    exact ⟨by simpa using hne, by simpa using hne', by simpa using hbreak⟩

/-- Ink that begins a line stands on the body line by line.  By induction on its lines: each of them
but the last one ends with a break, so that the next one begins a line again. -/
theorem text_foldl_writeAt_flatten {pieces : List (List (Char × Nat))} (hne : [] ∉ pieces)
    (hpieces : ∀ piece ∈ pieces, piece.IsChain fun mark _ => mark.1 != '\n')
    (hbreaks : pieces.IsChain fun piece next => ∃ h, ∃ _ : next ≠ [],
      ((piece.getLast h).1 != '\n') = false)
    {body : KernelBody} (hstarts : body.startsLine = true) :
    (pieces.flatten.foldl KernelBody.writeAt body).text.toList = body.text.toList ++
      pieces.flatMap fun piece => indented (lineDepth piece) (piece.map (·.1)) := by
  induction pieces generalizing body with
  | nil => simp
  | cons piece pieces ih =>
    rw [List.mem_cons, not_or] at hne
    rw [List.forall_mem_cons] at hpieces
    obtain ⟨htext, hends⟩ := KernelBody.foldl_writeAt_line (Ne.symm hne.1) hpieces.1 body
    rw [hstarts, if_pos rfl, ← lineDepth_of_ne_nil] at htext
    rw [List.flatten_cons, List.foldl_append, List.flatMap_cons, ← List.append_assoc, ← htext]
    cases pieces with
    | nil => simp
    | cons next pieces =>
      obtain ⟨⟨_, _, hbreak⟩, hbreaks⟩ := List.isChain_cons_cons.1 hbreaks
      exact ih hne.2 hpieces.2 hbreaks (by simpa [hends] using hbreak)

theorem text_foldl_writeAt (ink : List (Char × Nat)) {body : KernelBody}
    (hstarts : body.startsLine = true) :
    (ink.foldl KernelBody.writeAt body).text.toList = body.text.toList ++
      (List.zipWith indented ((inkLines ink).map lineDepth) (lines (ink.map (·.1)))).flatten := by
  have hlaid := text_foldl_writeAt_flatten (List.nil_notMem_splitBy _ ink)
    (fun _ => List.isChain_of_mem_splitBy)
    (List.isChain_getLast_head_splitBy (fun mark _ => mark.1 != '\n') ink) hstarts
  rw [List.flatten_splitBy] at hlaid
  rw [hlaid, lines_map_fst, List.zipWith_map, List.zipWith_self]
  rfl

end Layout

/-! ## Runs -/

namespace Step

/-- The body after all steps, each with a graph and a symbol table of its own. -/
def runEach (steps : List (Context × Step)) (body : KernelBody) : KernelBody :=
  steps.foldl (fun body step => (step.2.perform step.1 body).2) body

theorem run_eq_runEach (context : Context) (steps : List Step) (body : KernelBody) :
    run context steps body = runEach (steps.map (context, ·)) body := by
  rw [run, runEach, List.foldl_map]

/-- What a step writes; an expression that has no text writes nothing. -/
def written (context : Context) : Step → String
  | write text => text
  | writeLine line => line ++ "\n"
  | expression root =>
    match Expression.text context root with
    | .ok text => text ++ ";" ++ "\n"
    | .error _ => ""
  | indent | dedent | openScope | closeScope => ""

/-- The depth that a step leaves. -/
def depthAfter (depth : Nat) : Step → Nat
  | indent | openScope => depth + 1
  | dedent | closeScope => depth - 1
  | write _ | writeLine _ | expression _ => depth

theorem perform_eq_write (context : Context) (step : Step) (body : KernelBody) :
    (step.perform context body).2 =
      { body.write (step.written context) with depth := step.depthAfter body.depth } := by
  have hwrite : ∀ text, body.write text = { body.write text with depth := body.depth } := by
    intro text
    conv_rhs => rw [← KernelBody.depth_write body text]
  cases step with
  | write text => exact hwrite text
  | writeLine line =>
    show body.writeLine line = _
    rw [KernelBody.writeLine_eq_write]
    exact hwrite _
  | indent => rfl
  | dedent => rfl
  | openScope => rfl
  | closeScope => rfl
  | expression root =>
    cases htext : Expression.text context root with
    | error e => simp [perform, KernelBody.writeExpression_error htext, written, htext, depthAfter]
    | ok text =>
      simp only [perform, KernelBody.writeExpression_ok htext, written, htext, depthAfter]
      rw [KernelBody.writeLine_eq_write]
      exact hwrite _

end Step

namespace Layout

/-- What all steps write. -/
def written (steps : List (Context × Step)) : List Char :=
  steps.flatMap fun step => (step.2.written step.1).toList

/-- The characters that steps write from a depth on, each with the depth in force. -/
def ink (depth : Nat) : List (Context × Step) → List (Char × Nat)
  | [] => []
  | (context, step) :: steps =>
    (step.written context).toList.map (·, depth) ++ ink (step.depthAfter depth) steps

/-- For every line of what steps write, the depth in force when its first character was written. -/
def lineDepths (steps : List (Context × Step)) : List Nat := (inkLines (ink 0 steps)).map lineDepth

theorem ink_map_fst (depth : Nat) (steps : List (Context × Step)) :
    (ink depth steps).map (·.1) = written steps := by
  induction steps generalizing depth with
  | nil => rfl
  | cons step steps ih => simp [ink, written, ih, Function.comp_def]

/-- What a run writes is its ink, and the depth goes by the steps alone. -/
theorem runEach_eq_foldl_writeAt (steps : List (Context × Step)) (body : KernelBody) :
    Step.runEach steps body =
      { (ink body.depth steps).foldl KernelBody.writeAt body with
        depth := steps.foldl (fun depth step => step.2.depthAfter depth) body.depth } := by
  induction steps generalizing body with
  | nil => rfl
  | cons step steps ih =>
    obtain ⟨context, step⟩ := step
    have hrun : Step.runEach ((context, step) :: steps) body =
        Step.runEach steps (step.perform context body).2 := by
      simp [Step.runEach]
    rw [hrun, ih, Step.perform_eq_write, KernelBody.write_eq_foldl_writeAt, ink,
      List.foldl_append, List.foldl_cons]
    exact KernelBody.foldl_writeAt_setDepth _ _ _ _

/-- **A kernel body is laid out line by line.**  Whatever steps are performed on a new body, its
text is the lines of what they write, each behind four spaces for each level of depth in force
when its first character was written.  So only what is written and these depths count, not how the
lines were cut into steps. -/
theorem runEach_layout (steps : List (Context × Step)) :
    (Step.runEach steps .empty).text.toList =
        (List.zipWith indented (lineDepths steps) (lines (written steps))).flatten ∧
      (lineDepths steps).length = (lines (written steps)).length ∧
      ∀ steps', written steps' = written steps → lineDepths steps' = lineDepths steps →
        (Step.runEach steps' .empty).text = (Step.runEach steps .empty).text := by
  have hlaid : ∀ steps, (Step.runEach steps .empty).text.toList =
      (List.zipWith indented (lineDepths steps) (lines (written steps))).flatten := by
    intro steps
    rw [runEach_eq_foldl_writeAt]
    show ((ink 0 steps).foldl KernelBody.writeAt .empty).text.toList = _
    rw [text_foldl_writeAt _ rfl, ink_map_fst]
    rfl
  refine ⟨hlaid steps, ?_, ?_⟩
  · rw [lineDepths, ← ink_map_fst 0, lines_map_fst, List.length_map, List.length_map]
  · intro steps' hwritten hdepths
    rw [← String.toList_inj, hlaid, hlaid, hwritten, hdepths]

/-- A context that nothing is looked up in. -/
def noExpressions : Context := ⟨⟨#[]⟩, .ofList [], .standard⟩

/-- A line stays where it began, although the depth changes within it. -/
def brokenLine : List (Context × Step) :=
  [.write "x", .indent, .writeLine " = 0;", .writeLine "y = 0;"].map (noExpressions, ·)

/-- The same lines, written one at a time. -/
def wholeLines : List (Context × Step) :=
  [.writeLine "x = 0;", .openScope, .write "y = 0;\n", .closeScope].map (noExpressions, ·)

theorem brokenLine_layout : lineDepths brokenLine = [0, 1] ∧
    written wholeLines = written brokenLine ∧ lineDepths wholeLines = lineDepths brokenLine ∧
    (Step.runEach wholeLines .empty).text = (Step.runEach brokenLine .empty).text := by
  have hwritten : written wholeLines = written brokenLine := by cbv
  have hdepths : lineDepths wholeLines = lineDepths brokenLine := by cbv
  refine ⟨by cbv, hwritten, hdepths, ?_⟩
  exact (runEach_layout brokenLine).2.2 wholeLines hwritten hdepths

end Layout

end FusedKernel
