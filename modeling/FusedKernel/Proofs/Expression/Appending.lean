import FusedKernel.Proofs.Expression.Composition
import FusedKernel.Proofs.Graph.Replay

/-!
# Appending to a text

An expression is written right behind whatever is there already, and it can fail at any depth, with
any part of it written.  But no hook of the writer reads what has been written or takes some of it
away.  So the text in front never shows in the outcome, and cutting back to its length restores it.

* `Expression.written` — the text that is there at the end, also after a failure.
* `Expression.KeepsFront` — an action leaves the text it begins with in front.
* `Expression.appendEach` — appends one expression after another, whichever of them fail.

Principal results: `keepsFront_hook`, `keepsFront_replay` — what one hook keeps, and what all the
hooks of a walk keep; `appends_write` — the outcome is the same behind any text; `append_verdict`.
-/

set_option autoImplicit false

namespace FusedKernel

namespace Expression

/-- What has been written when an action ends, one way or the other. -/
def written : EStateM.Result GenerationError String Unit → String
  | .ok _ out => out
  | .error _ out => out

/-- However the action ends, the text it begins with is still there, in front of all else. -/
def KeepsFront (action : WalkM String Unit) : Prop :=
  ∀ out, ∃ added, written (action out) = out ++ added

/-- Appends the expressions to a text, one after the other. -/
def appendEach (calls : List (Context × NodeId)) (out : String) : String :=
  calls.foldl (fun out call => (appendTo call.1 call.2 out).2) out

/-! ## Nothing is taken away -/

theorem keepsFront_pure : KeepsFront (pure ()) := by
  intro out
  exact ⟨"", String.append_empty.symm⟩

theorem keepsFront_throw (e : GenerationError) : KeepsFront (throw e) := by
  intro out
  exact ⟨"", String.append_empty.symm⟩

theorem keepsFront_emitResult (text : Except GenerationError String) :
    KeepsFront (emitResult text) := by
  cases text with
  | ok t => exact fun _ => ⟨t, rfl⟩
  | error e => exact keepsFront_throw e

theorem KeepsFront.seq {action action' : WalkM String Unit} (h : KeepsFront action)
    (h' : KeepsFront action') : KeepsFront (action >>= fun _ => action') := by
  intro out
  obtain ⟨added, hadded⟩ := h out
  show ∃ more, written (EStateM.bind action (fun _ => action') out) = out ++ more
  unfold EStateM.bind
  cases hrun : action out with
  | ok _ mid =>
    obtain ⟨more, hmore⟩ := h' mid
    rw [hrun] at hadded
    refine ⟨added ++ more, ?_⟩
    rw [← String.append_assoc, ← hadded]
    exact hmore
  | error e mid =>
    rw [hrun] at hadded
    exact ⟨added, hadded⟩

theorem keepsFront_conclude (verdict : Except GenerationError Unit) :
    KeepsFront (Walk.conclude verdict) := by
  cases verdict with
  | ok => exact keepsFront_pure
  | error e => exact keepsFront_throw e

/-- **No hook of the writer touches what has been written.** -/
theorem keepsFront_hook (symbols : SymbolTable) (format : AccessFormat) (g : ExprGraph)
    (event : Event) : KeepsFront ((writer symbols format).hook g event) := by
  unfold Visitor.hook
  cases g.node? event.node with
  | none => exact keepsFront_pure
  | some node =>
    cases event with
    | opened id => exact keepsFront_emitResult _
    | visited side id => cases side <;> exact keepsFront_emitResult _
    | closed id => exact keepsFront_emitResult (.ok ")")

/-- So no walk of the writer does. -/
theorem keepsFront_replay (symbols : SymbolTable) (format : AccessFormat) (g : ExprGraph)
    (events : List Event) : KeepsFront ((writer symbols format).replay g events) := by
  induction events with
  | nil => exact keepsFront_pure
  | cons event events ih => exact (keepsFront_hook symbols format g event).seq ih

theorem keepsFront_write (context : Context) (root : NodeId) : KeepsFront (write context root) := by
  unfold write Walk.run
  rw [Walk.descend_eq_replay]
  exact (keepsFront_replay _ _ _ _).seq (keepsFront_conclude _)

/-- Cut back to the length of the text in front, what has been written is that text. -/
theorem truncate?_written (context : Context) (root : NodeId) (out : String) :
    truncate? (written (write context root out)) out.utf8ByteSize = some out := by
  obtain ⟨added, hadded⟩ := keepsFront_write context root out
  rw [hadded, truncate?_append]

/-! ## Nothing is read -/

/-- Behind any text, the outcome is that behind the empty one. -/
theorem appends_write (context : Context) (root : NodeId) :
    Appends (write context root) (text context root) := by
  obtain ⟨outcome, happends⟩ : ∃ outcome, Appends (write context root) outcome :=
    exists_appends_descend _ root
  rw [text_eq_of_appends happends]
  exact happends

theorem appendTo_eq (context : Context) (root : NodeId) (out : String) :
    appendTo context root out =
      match text context root with
      | .ok t => (.ok (), out ++ t)
      | .error e => (.error e, out) := by
  have happends := appends_write context root
  have hcut := truncate?_written context root out
  unfold appendTo
  cases htext : text context root with
  | ok t =>
    rw [htext] at happends
    rw [happends out]
  | error e =>
    rw [htext] at happends
    obtain ⟨left, hleft⟩ := happends out
    rw [hleft] at hcut ⊢
    simp only [show truncate? left out.utf8ByteSize = some out from hcut, Option.getD_some]

/-! ## One after the other -/

theorem appendEach_eq (calls : List (Context × NodeId)) (out : String) :
    appendEach calls out =
      out ++ String.join (calls.filterMap fun call => (text call.1 call.2).toOption) := by
  induction calls generalizing out with
  | nil => exact String.append_empty.symm
  | cons call calls ih =>
    show appendEach calls (appendTo call.1 call.2 out).2 = _
    rw [ih, appendTo_eq]
    cases htext : text call.1 call.2 with
    | ok t => simp [htext, Except.toOption, String.join_cons, String.append_assoc]
    | error e => simp [htext, Except.toOption]

/-- **Appending takes back what it cannot complete.**  Whatever the text in front is, cutting back to
its length restores it, so an expression is appended in full or not at all, with the error it has on
its own; and of any number of expressions the texts of those that do not fail are appended. -/
theorem append_verdict :
    (∀ context root out,
      truncate? (written (write context root out)) out.utf8ByteSize = some out) ∧
    (∀ context root out, appendTo context root out =
      match text context root with
      | .ok t => (.ok (), out ++ t)
      | .error e => (.error e, out)) ∧
    ∀ calls out, appendEach calls out =
      out ++ String.join (calls.filterMap fun call => (text call.1 call.2).toOption) := by
  refine ⟨?_, ?_, ?_⟩
  · exact truncate?_written
  · exact appendTo_eq
  · exact appendEach_eq

end Expression

end FusedKernel
