import FusedKernel.Proofs.Expression.Composition

/-!
# Nodes that show only their result

A node with a kernel to itself is not followed.  If it is phrased as a result, it is written as
the symbol of the result in parentheses, wherever it stands.  A reduction may be phrased in
another way; then its token is written where the result should be, and no symbol is read.

* `Walk.Arrives` — the nodes a walk comes to, each with the state in which it does.
* `Expression.ShowsResult` — alone and within other expressions, a node shows its result.

Principal results: `exists_reaches` — a walk that succeeds comes to every node it leads to;
`exists_piece_of_arrives` — the text holds that of each of them, right behind what had been
written by then; `showsResult_iff` — which nodes show their result.
-/

set_option autoImplicit false

namespace FusedKernel

open Relation

namespace Walk

variable {σ : Type}

/-- A walk from `root` in the state `s` comes to a node, with some levels left and in some
state. -/
inductive Arrives (mode : Mode) (g : ExprGraph) (visitor : Visitor σ) (root : NodeId) (s : σ) :
    Nat → NodeId → σ → Prop
  | root : Arrives mode g visitor root s (g.size + 1) root s
  | left {levels : Nat} {id child : NodeId} {node : Node} {s₁ s₂ : σ}
      (harrives : Arrives mode g visitor root s (levels + 1) id s₁)
      (hnode : g.node? id = some node) (hchild : mode.left? node = some (.node child))
      (henter : visitor.enter id node s₁ = .ok () s₂) :
      Arrives mode g visitor root s levels child s₂
  | right {levels : Nat} {id child : NodeId} {node : Node} {s₁ s₂ s₃ s₄ : σ}
      (harrives : Arrives mode g visitor root s (levels + 1) id s₁)
      (hnode : g.node? id = some node) (hchild : mode.right? node = some (.node child))
      (henter : visitor.enter id node s₁ = .ok () s₂)
      (hleft : follow visitor (descend mode g visitor levels) .left id node (mode.left? node) s₂ =
        .ok () s₃)
      (hself : visitor.visit .self id node s₃ = .ok () s₄) :
      Arrives mode g visitor root s levels child s₄

end Walk

namespace Expression

variable {context : Context} {id : NodeId} {node : Node}

/-- Generating the text of `root` comes to a node when a text has been written. -/
def Reaches (context : Context) (root id : NodeId) (out : String) : Prop :=
  ∃ levels, Walk.Arrives .fused context.graph (writer context.symbols context.format) root ""
    levels id out

/-- Where the walk arrives it descends, and it only appends to what comes of that. -/
theorem descend_of_arrives {root : NodeId} {whole out : String} {levels : Nat}
    (hwhole : text context root = .ok whole)
    (h : Walk.Arrives .fused context.graph (writer context.symbols context.format) root ""
      levels id out) :
    levels ≤ context.graph.size + 1 ∧
      ∃ out' rest, Walk.descend .fused context.graph (writer context.symbols context.format)
        levels id out = .ok () out' ∧ whole = out' ++ rest := by
  induction h with
  | root => exact ⟨Nat.le_refl _, whole, "", text_eq_ok_iff.1 hwhole, by simp⟩
  | @left levels parent child node s₁ s₂ _ hnode hchild henter ih =>
    obtain ⟨hlevels, out', rest, hdescend, rfl⟩ := ih
    obtain ⟨_, out₁, _, _, henter', hleft, hself, hright, hleave⟩ :=
      Walk.exists_of_descend hnode hdescend
    rw [henter] at henter'
    cases henter'
    rw [hchild] at hleft
    obtain ⟨t₁, _, rfl⟩ := (appends_emitResult _).eq_ok hself
    obtain ⟨_, happends⟩ := exists_appends_follow context (exists_appends_descend levels)
      .right parent node (Walk.Mode.fused.right? node)
    obtain ⟨t₂, _, rfl⟩ := happends.eq_ok hright
    obtain ⟨t₃, _, rfl⟩ := (appends_emit ")").eq_ok hleave
    refine ⟨by omega, out₁, t₁ ++ (t₂ ++ (t₃ ++ rest)), hleft, ?_⟩
    simp only [String.append_assoc]
  | @right levels parent child node s₁ s₂ s₃ s₄ _ hnode hchild henter hleft hself ih =>
    obtain ⟨hlevels, out', rest, hdescend, rfl⟩ := ih
    obtain ⟨_, _, _, out₁, henter', hleft', hself', hright, hleave⟩ :=
      Walk.exists_of_descend hnode hdescend
    rw [henter] at henter'
    cases henter'
    rw [hleft] at hleft'
    cases hleft'
    rw [hself] at hself'
    cases hself'
    rw [hchild] at hright
    obtain ⟨t, _, rfl⟩ := (appends_emit ")").eq_ok hleave
    exact ⟨by omega, out₁, t ++ rest, hright, by rw [String.append_assoc]⟩

/-- **A text holds that of each node the walk came to,** behind what had been written by then. -/
theorem exists_piece_of_arrives {root : NodeId} {whole out : String}
    (hwhole : text context root = .ok whole) (h : Reaches context root id out) :
    ∃ piece rest, text context id = .ok piece ∧ whole = out ++ piece ++ rest := by
  obtain ⟨levels, harrives⟩ := h
  obtain ⟨hlevels, out', rest, hdescend, rfl⟩ := descend_of_arrives hwhole harrives
  obtain ⟨piece, hpiece, rfl⟩ := text_of_descend hdescend hlevels
  exact ⟨piece, rest, hpiece, rfl⟩

/-- **A walk that succeeds comes to every node it leads to.** -/
theorem exists_reaches {root : NodeId} {whole : String} (hwhole : text context root = .ok whole)
    (h : ReflTransGen (context.graph.Leads .fused) root id) :
    ∃ out, Reaches context root id out := by
  induction h with
  | refl => exact ⟨"", _, .root⟩
  | tail _ hleads ih =>
    obtain ⟨out, levels, harrives⟩ := ih
    obtain ⟨node, hnode, hchild⟩ := hleads
    obtain ⟨_, out', rest, hdescend, _⟩ := descend_of_arrives hwhole harrives
    cases levels with
    | zero => cases hdescend
    | succ levels =>
      obtain ⟨_, _, _, _, henter, hleft, hself, _⟩ := Walk.exists_of_descend hnode hdescend
      rcases hchild with hchild | hchild
      · exact ⟨_, levels, .left harrives hnode hchild henter⟩
      · exact ⟨_, levels, .right harrives hnode hchild henter hleft hself⟩

/-! ## Nodes with a kernel to themselves -/

/-- The symbol of the result of a node, in parentheses. -/
def resultText (context : Context) (id : NodeId) : Except GenerationError String :=
  match context.symbols.get? id .self with
  | some symbol => .ok ("(" ++ symbol.render context.format ++ ")")
  | none => .error (.unmapped id .self)

/-- The token of a node, phrased as if there were no operands. -/
def bareText (node : Node) : Except GenerationError String :=
  match node.operation.operator.token with
  | .error e => .error e
  | .ok token =>
    if node.operation.phrasing = .call then
      .ok (token ++ "(" ++ (if node.right.isSome then "," else "") ++ ")")
    else .ok ("(" ++ token ++ ")")

/-- A node shows only its result, alone and wherever it is met within an expression. -/
structure ShowsResult (context : Context) (id : NodeId) : Prop where
  alone : text context id = resultText context id
  within : ∀ {root : NodeId} {whole out : String}, text context root = .ok whole →
    Reaches context root id out →
    ∃ piece rest, resultText context id = .ok piece ∧ whole = out ++ piece ++ rest

/-- With a kernel to itself, a node shows nothing from below it. -/
theorem compose_eq_join (hkernel : node.operation.needsKernel = true)
    (left right : Except GenerationError String) :
    compose context id node left right =
      join (opening node) (join (middle context.symbols context.format id node) (.ok ")")) := by
  obtain ⟨hleft, hright⟩ := Walk.Mode.fused_of_needsKernel hkernel
  unfold compose
  rw [hleft, hright]
  simp only [operandText, join_empty]

theorem compose_eq_resultText (hphrasing : node.operation.phrasing = .kernelResult)
    (left right : Except GenerationError String) :
    compose context id node left right = resultText context id := by
  have hkernel : node.operation.needsKernel = true :=
    (node.operation.needsKernel_iff).2 (Or.inl hphrasing)
  have hopening : opening node = .ok "(" := by
    unfold opening
    rw [hphrasing]
  have hmiddle : middle context.symbols context.format id node =
      access context.symbols context.format id .self := by
    unfold middle
    rw [hphrasing]
  rw [compose_eq_join hkernel, hopening, hmiddle]
  unfold resultText access SymbolTable.lookup
  cases context.symbols.get? id .self with
  | none => rfl
  | some symbol =>
    show Except.ok ("(" ++ (symbol.render context.format ++ ")")) =
      .ok ("(" ++ symbol.render context.format ++ ")")
    rw [String.append_assoc]

/-- With a kernel to itself, a node is unfolded no further. -/
theorem text_eq_compose (hnode : context.graph.node? id = some node)
    (hkernel : node.operation.needsKernel = true) :
    text context id = compose context id node (.ok "") (.ok "") := by
  obtain ⟨hleft, hright⟩ := Walk.Mode.fused_of_needsKernel hkernel
  have hunfolds : Unfolds .fused context.graph (some (.node id))
      (.branch id node .empty .empty) :=
    .node hnode (by rw [hleft]; exact .none) (by rw [hright]; exact .none)
  rw [text_eq_of_unfolds hunfolds (by simp [Unfolding.height])]
  rfl

theorem text_eq_resultText (hnode : context.graph.node? id = some node)
    (hphrasing : node.operation.phrasing = .kernelResult) :
    text context id = resultText context id := by
  have hkernel : node.operation.needsKernel = true :=
    (node.operation.needsKernel_iff).2 (Or.inl hphrasing)
  rw [text_eq_compose hnode hkernel, compose_eq_resultText hphrasing]

theorem text_eq_bareText (hnode : context.graph.node? id = some node)
    (hkernel : node.operation.needsKernel = true)
    (hphrasing : node.operation.phrasing ≠ .kernelResult) :
    text context id = bareText node := by
  rw [text_eq_compose hnode hkernel, compose_eq_join hkernel]
  unfold opening middle bareText
  cases hcase : node.operation.phrasing with
  | kernelResult => exact absurd hcase hphrasing
  | infixed =>
    cases node.operation.operator.token with
    | error e => rfl
    | ok token =>
      show Except.ok ("(" ++ (token ++ ")")) = .ok ("(" ++ token ++ ")")
      rw [String.append_assoc]
  | call =>
    cases node.operation.operator.token with
    | error e => rfl
    | ok token =>
      show Except.ok (token ++ "(" ++ ((if node.right.isSome then "," else "") ++ ")")) =
        .ok (token ++ "(" ++ (if node.right.isSome then "," else "") ++ ")")
      rw [← String.append_assoc]

/-- A token alone is never mistaken for a report that the symbol is missing. -/
theorem bareText_ne_unmapped {side : Side} : bareText node ≠ .error (.unmapped id side) := by
  unfold bareText
  split
  · rename_i e htoken
    rw [(Operator.token_eq_error_iff.1 htoken).2]
    intro h
    cases h
  · split <;> exact fun h => by cases h

/-- **Which nodes show their result.**  Among the nodes with a kernel to themselves, whatever
their operands are, these are exactly those phrased as results.  Any other one is written as its
token without operands, and its symbol is never read. -/
theorem showsResult_iff (g : ExprGraph) {id : NodeId} {node : Node}
    (hnode : g.node? id = some node) (hkernel : node.operation.needsKernel = true) :
    ((∀ symbols format, ShowsResult ⟨g, symbols, format⟩ id) ↔
      node.operation.phrasing = .kernelResult) ∧
    (node.operation.phrasing ≠ .kernelResult →
      ∀ symbols format, text ⟨g, symbols, format⟩ id = bareText node) := by
  refine ⟨⟨?_, ?_⟩, ?_⟩
  · -- Without any symbols the result is missing, which is not what a token would report.
    intro h
    refine Classical.byContradiction fun hphrasing => ?_
    have halone := (h .empty .standard).alone
    rw [text_eq_bareText hnode hkernel hphrasing] at halone
    exact bareText_ne_unmapped halone
  · intro hphrasing symbols format
    have halone : text ⟨g, symbols, format⟩ id = resultText ⟨g, symbols, format⟩ id :=
      text_eq_resultText hnode hphrasing
    refine ⟨halone, ?_⟩
    intro root whole out hwhole hreaches
    rw [← halone]
    exact exists_piece_of_arrives hwhole hreaches
  · intro hphrasing symbols format
    exact text_eq_bareText hnode hkernel hphrasing

/-- A maximum over columns, subtracted from a leaf. -/
def columnMaximum : ExprGraph :=
  ⟨#[⟨⟨.columnsReduction, .kernelResult, .max⟩, Walk.anyLeaf, none⟩,
    ⟨.canonical .sub, Walk.anyLeaf, some (.node 0)⟩]⟩

theorem columnMaximum_showsResult :
    columnMaximum.node? 0 =
        some ⟨⟨.columnsReduction, .kernelResult, .max⟩, Walk.anyLeaf, none⟩ ∧
      ∀ symbols format, ShowsResult ⟨columnMaximum, symbols, format⟩ 0 :=
  ⟨rfl, (showsResult_iff columnMaximum rfl rfl).1.2 rfl⟩

/-- A sum over columns that is phrased as a sum of two operands. -/
def columnSum : Context where
  graph := ⟨#[⟨⟨.columnsReduction, .infixed, .add⟩, Walk.anyLeaf, some Walk.anyLeaf⟩]⟩
  symbols := .ofList [((0, .self), .verbatim "colsum")]
  format := .standard

theorem columnSum_shows_token :
    text columnSum 0 = .ok "(+)" ∧ resultText columnSum 0 = .ok "(colsum)" ∧
      ¬ShowsResult columnSum 0 := by
  have htext : text columnSum 0 = .ok "(+)" := by rfl
  have hresult : resultText columnSum 0 = .ok "(colsum)" := by rfl
  refine ⟨htext, hresult, ?_⟩
  intro h
  have halone := h.alone
  rw [htext, hresult] at halone
  simp at halone

end Expression

end FusedKernel
