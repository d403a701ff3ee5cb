import FusedKernel.Proofs.Expression.Formula
import FusedKernel.Proofs.Graph.WalkVerdict

/-!
# Which expressions have a text

An expression has a text exactly when everything met below its root is in order, every operator
that is written has a token, and every symbol that is shown is in the table.  The walk stops at
the first thing that is missing, so its error names one of them.

* `Context.Writable` — nothing is missing below a node.
* `Context.Lacks` — what an error says to be missing, or wrong, below a node.

Principal results: `lacks_of_text` — errors are justified; `parts_of_text` — all parts of a text
are there; `text_verdict`, which joins them.
-/

set_option autoImplicit false

namespace FusedKernel

open Relation

namespace Context

/-- Nothing is missing below `root`. -/
structure Writable (context : Context) (root : NodeId) : Prop where
  order : context.graph.OrderlyBelow .fused root
  token : ∀ id node, context.Meets root id → context.graph.node? id = some node →
    node.operation.phrasing = .infixed ∨ node.operation.phrasing = .call →
    ∃ token, node.operation.operator.token? = some token
  symbol : ∀ id side, context.Reads root id side →
    ∃ symbol, context.symbols.get? id side = some symbol

/-- An error names something that is missing below `root`, or is due to a cycle there. -/
inductive Lacks (context : Context) (root : NodeId) : GenerationError → Prop
  | node {id : NodeId} (hmeets : context.Meets root id) (hge : context.graph.size ≤ id) :
      Lacks context root (.nodeOutOfRange id)
  | order (turn id : NodeId) (hmeets : context.Meets root turn)
      (hcycle : TransGen (context.graph.Leads .fused) turn turn) :
      Lacks context root (.cycle id)
  | token {id : NodeId} {node : Node} (hmeets : context.Meets root id)
      (hnode : context.graph.node? id = some node)
      (hphrasing : node.operation.phrasing = .infixed ∨ node.operation.phrasing = .call)
      (htoken : node.operation.operator.token? = none) :
      Lacks context root (.noToken node.operation.operator)
  | symbol {id : NodeId} {side : Side} (hreads : context.Reads root id side)
      (hsymbol : context.symbols.get? id side = none) : Lacks context root (.unmapped id side)

theorem Lacks.not_writable {context : Context} {root : NodeId} {e : GenerationError}
    (h : context.Lacks root e) : ¬context.Writable root := by
  intro hwritable
  cases h with
  | node hmeets hge => exact Nat.not_lt.2 hge (hwritable.order.inRange _ hmeets)
  | order turn _ hmeets hcycle => exact hwritable.order.acyclic turn hmeets hcycle
  | token hmeets hnode hphrasing htoken =>
    obtain ⟨token, hsome⟩ := hwritable.token _ _ hmeets hnode hphrasing
    rw [htoken] at hsome
    cases hsome
  | symbol hreads hsymbol =>
    obtain ⟨symbol, hsome⟩ := hwritable.symbol _ _ hreads
    rw [hsymbol] at hsome
    cases hsome

end Context

namespace Expression

variable {context : Context} {root id : NodeId} {node : Node} {e : GenerationError}

/-! ## Pieces that are missing -/

theorem emitResult_eq_error {text : Except GenerationError String} {out out' : String}
    (h : emitResult text out = .error e out') : text = .error e := by
  cases text with
  | ok t => cases h
  | error e' =>
    cases h
    rfl

theorem access_eq_error_iff {side : Side} :
    access context.symbols context.format id side = .error e ↔
      context.symbols.get? id side = none ∧ e = .unmapped id side := by
  unfold access SymbolTable.lookup
  cases context.symbols.get? id side with
  | none => simp [eq_comm]
  | some symbol => simp

theorem opening_eq_error_iff : opening node = .error e ↔
    node.operation.phrasing = .call ∧ node.operation.operator.token = .error e := by
  unfold opening
  cases node.operation.phrasing with
  | call => cases node.operation.operator.token <;> simp
  | infixed => simp
  | kernelResult => simp

theorem middle_eq_error_iff :
    middle context.symbols context.format id node = .error e ↔
      (node.operation.phrasing = .kernelResult ∧
        access context.symbols context.format id .self = .error e) ∨
      (node.operation.phrasing = .infixed ∧ node.operation.operator.token = .error e) := by
  unfold middle
  cases node.operation.phrasing <;> simp

/-- A hook of the writer that fails names what it lacks. -/
theorem lacks_of_refuses (hmeets : context.Meets root id)
    (hnode : context.graph.node? id = some node)
    (h : (writer context.symbols context.format).Refuses .fused id node e) :
    context.Lacks root e := by
  have hlackstoken : node.operation.phrasing = .infixed ∨ node.operation.phrasing = .call →
      node.operation.operator.token = .error e → context.Lacks root e := by
    intro hphrasing htoken
    obtain ⟨hnone, rfl⟩ := Operator.token_eq_error_iff.1 htoken
    exact .token hmeets hnode hphrasing hnone
  have hlackssymbol : ∀ side, node.Shows side →
      access context.symbols context.format id side = .error e → context.Lacks root e := by
    intro side hshows haccess
    obtain ⟨hnone, rfl⟩ := access_eq_error_iff.1 haccess
    exact .symbol ⟨hmeets, node, hnode, hshows⟩ hnone
  cases h with
  | enter herror =>
    obtain ⟨hphrasing, htoken⟩ := opening_eq_error_iff.1 (emitResult_eq_error herror)
    exact hlackstoken (Or.inr hphrasing) htoken
  | left hleaf herror => exact hlackssymbol .left ⟨_, hleaf⟩ (emitResult_eq_error herror)
  | self herror =>
    rcases middle_eq_error_iff.1 (emitResult_eq_error herror) with
      ⟨hphrasing, haccess⟩ | ⟨hphrasing, htoken⟩
    · exact hlackssymbol .self hphrasing haccess
    · exact hlackstoken (Or.inl hphrasing) htoken
  | right hleaf herror => exact hlackssymbol .right ⟨_, hleaf⟩ (emitResult_eq_error herror)
  | leave herror => cases herror

/-- **Every error is justified.** -/
theorem lacks_of_text (h : text context root = .error e) : context.Lacks root e := by
  unfold text at h
  split at h
  · cases h
  rename_i e' out hwrite
  cases h
  rcases Walk.runsInto_or_refuses_of_run hwrite with hfault | ⟨id, node, hpath, hnode, hrefuses⟩
  · cases hfault with
    | missing hpath hge => exact .node (ExprGraph.meets_of_proceeds hpath) hge
    | cyclic turn id hpath hcycle =>
      exact .order turn id (ExprGraph.meets_of_proceeds hpath) (ExprGraph.cycle_of_proceeds hcycle)
  · exact lacks_of_refuses (ExprGraph.meets_of_proceeds hpath) hnode hrefuses

/-! ## Pieces that are there -/

/-- Where a node has a text, so have all of its parts. -/
theorem parts_of_text {t : String} (h : text context id = .ok t)
    (hnode : context.graph.node? id = some node) :
    ∃ left right o l m r, opening node = .ok o ∧
      operandText context .left id left (Walk.Mode.fused.left? node) = .ok l ∧
      middle context.symbols context.format id node = .ok m ∧
      operandText context .right id right (Walk.Mode.fused.right? node) = .ok r := by
  obtain ⟨tree, hunfolds, htree⟩ := exists_tree_of_text h
  cases hunfolds with
  | @node _ node' left right hnode' _ _ =>
    rw [hnode] at hnode'
    cases hnode'
    obtain ⟨o, l, m, r, ho, hl, hm, hr, _⟩ := exists_of_compose_eq_ok htree
    exact ⟨_, _, o, l, m, r, ho, hl, hm, hr⟩

theorem exists_text_of_meets {t : String} (h : text context root = .ok t)
    (hmeets : context.Meets root id) : ∃ piece, text context id = .ok piece := by
  obtain ⟨out, hreaches⟩ := exists_reaches h hmeets
  obtain ⟨piece, _, hpiece, _⟩ := exists_piece_of_arrives h hreaches
  exact ⟨piece, hpiece⟩

theorem exists_token_of_text {t : String} (h : text context id = .ok t)
    (hnode : context.graph.node? id = some node)
    (hphrasing : node.operation.phrasing = .infixed ∨ node.operation.phrasing = .call) :
    ∃ token, node.operation.operator.token? = some token := by
  obtain ⟨_, _, o, _, m, _, ho, _, hm, _⟩ := parts_of_text h hnode
  cases htoken : node.operation.operator.token? with
  | some token => exact ⟨token, rfl⟩
  | none =>
    have herror := Operator.token_eq_error_iff.2 ⟨htoken, rfl⟩
    rcases hphrasing with hinfixed | hcall
    · rw [middle_eq_error_iff.2 (Or.inr ⟨hinfixed, herror⟩)] at hm
      cases hm
    · rw [opening_eq_error_iff.2 ⟨hcall, herror⟩] at ho
      cases ho

theorem exists_symbol_of_text {side : Side} {t : String} (h : text context id = .ok t)
    (hnode : context.graph.node? id = some node) (hshows : node.Shows side) :
    ∃ symbol, context.symbols.get? id side = some symbol := by
  obtain ⟨_, _, _, l, m, r, _, hl, hm, hr⟩ := parts_of_text h hnode
  have haccess : ∃ t, access context.symbols context.format id side = .ok t := by
    cases side with
    | left =>
      obtain ⟨leaf, hleaf⟩ := hshows
      rw [hleaf] at hl
      exact ⟨l, hl⟩
    | right =>
      obtain ⟨leaf, hleaf⟩ := hshows
      rw [hleaf] at hr
      exact ⟨r, hr⟩
    | self =>
      have hphrasing : node.operation.phrasing = .kernelResult := hshows
      unfold middle at hm
      rw [hphrasing] at hm
      exact ⟨m, hm⟩
  obtain ⟨_, hok⟩ := haccess
  obtain ⟨symbol, hsymbol, _⟩ := access_eq_ok_iff.1 hok
  exact ⟨symbol, hsymbol⟩

/-- Nothing is missing where there is a text. -/
theorem writable_of_text {t : String} (h : text context root = .ok t) :
    context.Writable root := by
  obtain ⟨tree, hunfolds, _⟩ := exists_tree_of_text h
  refine ⟨hunfolds.orderlyBelow, ?_, ?_⟩
  · intro id node hmeets hnode hphrasing
    obtain ⟨piece, hpiece⟩ := exists_text_of_meets h hmeets
    exact exists_token_of_text hpiece hnode hphrasing
  · rintro id side ⟨hmeets, node, hnode, hshows⟩
    obtain ⟨piece, hpiece⟩ := exists_text_of_meets h hmeets
    exact exists_symbol_of_text hpiece hnode hshows

/-- **Which expressions have a text,** and what is missing where there is none. -/
theorem text_verdict (context : Context) (root : NodeId) :
    ((∃ t, text context root = .ok t) ↔ context.Writable root) ∧
      ∀ e, text context root = .error e → context.Lacks root e := by
  refine ⟨⟨?_, ?_⟩, ?_⟩
  · rintro ⟨t, h⟩
    exact writable_of_text h
  · intro hwritable
    cases h : text context root with
    | ok t => exact ⟨t, rfl⟩
    | error e => exact absurd hwritable (lacks_of_text h).not_writable
  · intro e h
    exact lacks_of_text h

end Expression

end FusedKernel
