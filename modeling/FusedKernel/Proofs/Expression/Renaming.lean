import FusedKernel.Proofs.Expression.Formula
import FusedKernel.Proofs.Graph.WalkVerdict
import Mathlib.Tactic.IntervalCases

/-!
# What the text of an expression depends on

Neither the numbers of nodes nor the way they are shared show in a text.  Let one graph be mapped
to another one, node by node, in such a way that operations are kept and operands go along, and
let the symbols that are looked up read the same.  Then the texts are the same, and so are the
errors up to the numbers of the nodes in them.  The map need not be injective, leaves may hold
anything, and what the writer does not come to may be different altogether.

* `GenerationError.rename` — an error about the nodes another one is mapped to.
* `Node.Corresponds` — a node that takes the place of another one.
* `Context.LooksUp` — the symbols the writer reads before it ends.
* `Context.Renames` — a map of nodes that keeps what is read.

Principal results: `exists_unfolds_of_renames` — trees are mapped to trees; `text_rename`.
-/

set_option autoImplicit false

namespace FusedKernel

open Relation

/-! ## Maps of nodes -/

/-- The same error about other nodes. -/
def GenerationError.rename (f : NodeId → NodeId) : GenerationError → GenerationError
  | unmapped node side => unmapped (f node) side
  | noOperand node side => noOperand (f node) side
  | nodeOutOfRange id => nodeOutOfRange (f id)
  | cycle node => cycle (f node)
  | noToken operator => noToken operator
  | noPrecision elementType => noPrecision elementType
  | unknownKind shape representation => unknownKind shape representation
  | unsupportedLeaf request kind elementType => unsupportedLeaf request kind elementType
  | laneOutOfRange lane => laneOutOfRange lane

/-- Any leaf takes the place of a leaf, and a node that of the node mapped to it. -/
inductive Operand.Corresponds (f : NodeId → NodeId) : Operand → Operand → Prop
  | leaf (leaf leaf' : Leaf) : Corresponds f (.leaf leaf) (.leaf leaf')
  | node (id : NodeId) : Corresponds f (.node id) (.node (f id))

/-- A node takes the place of another one.  Operands that are not written may be anything, but
whether there is a right one shows in a call. -/
structure Node.Corresponds (f : NodeId → NodeId) (node node' : Node) : Prop where
  operation : node'.operation = node.operation
  right_isSome : node'.right.isSome = node.right.isSome
  left : node.operation.needsKernel = false → node.left.Corresponds f node'.left
  right : node.operation.needsKernel = false →
    Option.Rel (Operand.Corresponds f) node.right node'.right

theorem Walk.Mode.fused_follows_iff {node : Node} :
    Walk.Mode.fused.follows node = true ↔ node.operation.needsKernel = false := by
  simp [Walk.Mode.follows]

section Corresponds

variable {f : NodeId → NodeId} {node node' : Node}

theorem Node.Corresponds.follows (h : node.Corresponds f node') :
    Walk.Mode.fused.follows node' = Walk.Mode.fused.follows node := by
  unfold Walk.Mode.follows
  rw [h.operation]

theorem Node.Corresponds.left? (h : node.Corresponds f node') :
    Option.Rel (Operand.Corresponds f) (Walk.Mode.fused.left? node)
      (Walk.Mode.fused.left? node') := by
  unfold Walk.Mode.left?
  rw [h.follows]
  split
  · rename_i hfollows
    exact .some (h.left (Walk.Mode.fused_follows_iff.1 hfollows))
  · exact .none

theorem Node.Corresponds.right? (h : node.Corresponds f node') :
    Option.Rel (Operand.Corresponds f) (Walk.Mode.fused.right? node)
      (Walk.Mode.fused.right? node') := by
  unfold Walk.Mode.right?
  rw [h.follows]
  split
  · rename_i hfollows
    exact h.right (Walk.Mode.fused_follows_iff.1 hfollows)
  · exact .none

end Corresponds

/-! ## What is looked up -/

/-- A walk from `root` in the state `s` visits a side of a node in some state. -/
inductive Walk.Visits {σ : Type} (mode : Walk.Mode) (g : ExprGraph) (visitor : Visitor σ)
    (root : NodeId) (s : σ) : NodeId → Side → σ → Prop
  | left {levels : Nat} {id : NodeId} {node : Node} {leaf : Leaf} {s₁ s₂ : σ}
      (harrives : Walk.Arrives mode g visitor root s (levels + 1) id s₁)
      (hnode : g.node? id = some node) (hleaf : mode.left? node = some (.leaf leaf))
      (henter : visitor.enter id node s₁ = .ok () s₂) :
      Visits mode g visitor root s id .left s₂
  | self {levels : Nat} {id : NodeId} {node : Node} {s₁ s₂ s₃ : σ}
      (harrives : Walk.Arrives mode g visitor root s (levels + 1) id s₁)
      (hnode : g.node? id = some node) (henter : visitor.enter id node s₁ = .ok () s₂)
      (hleft : Walk.follow visitor (Walk.descend mode g visitor levels) .left id node
        (mode.left? node) s₂ = .ok () s₃) :
      Visits mode g visitor root s id .self s₃
  | right {levels : Nat} {id : NodeId} {node : Node} {leaf : Leaf} {s₁ s₂ s₃ s₄ : σ}
      (harrives : Walk.Arrives mode g visitor root s (levels + 1) id s₁)
      (hnode : g.node? id = some node) (hleaf : mode.right? node = some (.leaf leaf))
      (henter : visitor.enter id node s₁ = .ok () s₂)
      (hleft : Walk.follow visitor (Walk.descend mode g visitor levels) .left id node
        (mode.left? node) s₂ = .ok () s₃)
      (hself : visitor.visit .self id node s₃ = .ok () s₄) :
      Visits mode g visitor root s id .right s₄

namespace Context

/-- Writing the expression at `root` comes as far as to look up the symbol of a side of a node. -/
def LooksUp (context : Context) (root id : NodeId) (side : Side) : Prop :=
  (∃ out, Walk.Visits .fused context.graph
    (Expression.writer context.symbols context.format) root "" id side out) ∧
  ∃ node, context.graph.node? id = some node ∧ node.Shows side

/-- A map takes the expression at `root` to one of another context that reads the same. -/
structure Renames (f : NodeId → NodeId) (context context' : Context) (root : NodeId) :
    Prop where
  order : context.graph.OrderlyBelow .fused root
  nodes : ∀ id node, context.Meets root id → context.graph.node? id = some node →
    ∃ node', context'.graph.node? (f id) = some node' ∧ node.Corresponds f node'
  symbols : ∀ id side, context.LooksUp root id side →
    (context'.symbols.get? (f id) side).map (Symbol.render context'.format) =
      (context.symbols.get? id side).map (Symbol.render context.format)

end Context

theorem Walk.Arrives.meets {σ : Type} {mode : Walk.Mode} {g : ExprGraph} {visitor : Visitor σ}
    {root id : NodeId} {s s' : σ} {levels : Nat}
    (h : Walk.Arrives mode g visitor root s levels id s') : g.Meets mode root id := by
  induction h with
  | root => exact .refl
  | left _ hnode hchild _ ih => exact ih.tail ⟨_, hnode, Or.inl hchild⟩
  | right _ hnode hchild _ _ _ ih => exact ih.tail ⟨_, hnode, Or.inr hchild⟩

/-- What is looked up is read, as far as the graph is concerned. -/
theorem Context.LooksUp.reads {context : Context} {root id : NodeId} {side : Side}
    (h : context.LooksUp root id side) : context.Reads root id side := by
  obtain ⟨⟨out, hvisits⟩, hshows⟩ := h
  refine ⟨?_, hshows⟩
  cases hvisits with
  | left harrives => exact harrives.meets
  | self harrives => exact harrives.meets
  | right harrives => exact harrives.meets

/-! ## Trees -/

/-- Trees are mapped to trees. -/
theorem exists_unfolds_of_renames {f : NodeId → NodeId} {context context' : Context}
    {root : NodeId} (h : context.Renames f context' root) {operand operand' : Option Operand}
    {tree : Unfolding} (htree : Unfolds .fused context.graph operand tree)
    (hoperand : Option.Rel (Operand.Corresponds f) operand operand')
    (hmeets : ∀ id, operand = some (.node id) → context.Meets root id) :
    ∃ tree', Unfolds .fused context'.graph operand' tree' := by
  induction htree generalizing operand' with
  | none =>
    cases hoperand
    exact ⟨.empty, .none⟩
  | leaf leaf =>
    cases hoperand with
    | some hleaf =>
      cases hleaf with
      | leaf _ leaf' => exact ⟨.empty, .leaf leaf'⟩
  | @node id node left right hnode _ _ ihleft ihright =>
    cases hoperand with
    | some hid =>
      cases hid
      have hmeet := hmeets id rfl
      obtain ⟨node', hnode', hcorresponds⟩ := h.nodes id node hmeet hnode
      obtain ⟨left', hleft'⟩ := ihleft hcorresponds.left?
        fun child hchild => hmeet.tail ⟨node, hnode, Or.inl hchild⟩
      obtain ⟨right', hright'⟩ := ihright hcorresponds.right?
        fun child hchild => hmeet.tail ⟨node, hnode, Or.inr hchild⟩
      exact ⟨_, .node hnode' hleft' hright'⟩

namespace Expression

variable {f : NodeId → NodeId} {context context' : Context} {root : NodeId}

/-! ## Texts -/

/-- The second of two texts need only agree where there is a first one. -/
theorem join_mapError {g : GenerationError → GenerationError}
    {first first' second second' : Except GenerationError String}
    (hfirst : first' = first.mapError g)
    (hsecond : ∀ t, first = .ok t → second' = second.mapError g) :
    join first' second' = (join first second).mapError g := by
  subst hfirst
  cases first with
  | error e => rfl
  | ok t =>
    rw [hsecond t rfl]
    cases second with
    | error e => rfl
    | ok t' => rfl

theorem access_mapError {id : NodeId} {side : Side}
    (h : (context'.symbols.get? (f id) side).map (Symbol.render context'.format) =
      (context.symbols.get? id side).map (Symbol.render context.format)) :
    access context'.symbols context'.format (f id) side =
      (access context.symbols context.format id side).mapError (.rename f) := by
  unfold access SymbolTable.lookup
  cases hsymbol : context.symbols.get? id side with
  | none =>
    rw [hsymbol, Option.map_none, Option.map_eq_none_iff] at h
    rw [h]
    rfl
  | some symbol =>
    rw [hsymbol, Option.map_some, Option.map_eq_some_iff] at h
    obtain ⟨symbol', hsymbol', htext⟩ := h
    rw [hsymbol']
    exact congrArg Except.ok htext

theorem token_mapError (operator : Operator) :
    operator.token.mapError (.rename f) = operator.token := by
  unfold Operator.token
  cases operator.token? <;> rfl

section Corresponds

variable {id : NodeId} {node node' : Node} (h : node.Corresponds f node')

include h

theorem opening_mapError : opening node' = (opening node).mapError (.rename f) := by
  unfold opening
  rw [h.operation]
  cases node.operation.phrasing with
  | infixed => rfl
  | kernelResult => rfl
  | call =>
    cases htoken : node.operation.operator.token with
    | ok name => rfl
    | error e =>
      rw [(Operator.token_eq_error_iff.1 htoken).2]
      rfl

theorem middle_mapError
    (hself : node.operation.phrasing = .kernelResult →
      access context'.symbols context'.format (f id) .self =
        (access context.symbols context.format id .self).mapError (.rename f)) :
    middle context'.symbols context'.format (f id) node' =
      (middle context.symbols context.format id node).mapError (.rename f) := by
  unfold middle
  rw [h.operation, h.right_isSome]
  cases hphrasing : node.operation.phrasing with
  | infixed => exact (token_mapError _).symm
  | kernelResult => exact hself hphrasing
  | call => rfl

end Corresponds

theorem operandText_mapError {side : Side} {id : NodeId}
    {below below' : Except GenerationError String} {operand operand' : Option Operand}
    (h : Option.Rel (Operand.Corresponds f) operand operand')
    (hleaf : ∀ leaf, operand = some (.leaf leaf) →
      access context'.symbols context'.format (f id) side =
        (access context.symbols context.format id side).mapError (.rename f))
    (hnode : ∀ child, operand = some (.node child) → operand' = some (.node (f child)) →
      below' = below.mapError (.rename f)) :
    operandText context' side (f id) below' operand' =
      (operandText context side id below operand).mapError (.rename f) := by
  cases h with
  | none => rfl
  | some hoperand =>
    cases hoperand with
    | leaf leaf leaf' => exact hleaf leaf rfl
    | node child => exact hnode child rfl rfl

/-! ## What the writer comes to -/

/-- The writer comes to a node with some levels left, when a text has been written. -/
abbrev ComesTo (context : Context) (root : NodeId) (levels : Nat) (id : NodeId) (out : String) :
    Prop :=
  Walk.Arrives .fused context.graph (writer context.symbols context.format) root "" levels id out

/-- Following an operand appends its text. -/
theorem follow_of_operandText {side : Side} {operand : Option Operand} {tree : Unfolding}
    {levels : Nat} {t : String} (hside : side ≠ .self)
    (htree : Unfolds .fused context.graph operand tree) (hheight : tree.height ≤ levels)
    (id : NodeId) (node : Node)
    (ht : operandText context side id (tree.text context) operand = .ok t) (out : String) :
    Walk.follow (writer context.symbols context.format)
      (Walk.descend .fused context.graph (writer context.symbols context.format) levels) side id
      node operand out = .ok () (out ++ t) := by
  have happends : Appends (Walk.follow (writer context.symbols context.format)
      (Walk.descend .fused context.graph (writer context.symbols context.format) levels) side id
      node operand) (operandText context side id (tree.text context) operand) := by
    refine appends_follow hside fun child hchild => ?_
    rw [hchild] at htree
    rw [Walk.descend_eq_walk htree hheight]
    exact appends_walk tree
  rw [ht] at happends
  exact happends out

/-- The text of a node agrees if those below it do, as far as the writer comes to them. -/
theorem compose_mapError (h : context.Renames f context' root) {id : NodeId} {node node' : Node}
    {left : Unfolding} {leftText' rightText rightText' : Except GenerationError String}
    {below : Nat} {out : String} (hnode : context.graph.node? id = some node)
    (hcorresponds : node.Corresponds f node') (hcomes : ComesTo context root (below + 1) id out)
    (htree : Unfolds .fused context.graph (Walk.Mode.fused.left? node) left)
    (hheight : left.height ≤ below)
    (hleft : ∀ child out', Walk.Mode.fused.left? node = some (.node child) →
      Walk.Mode.fused.left? node' = some (.node (f child)) → ComesTo context root below child out' →
      leftText' = (left.text context).mapError (.rename f))
    (hright : ∀ child out', Walk.Mode.fused.right? node = some (.node child) →
      Walk.Mode.fused.right? node' = some (.node (f child)) →
      ComesTo context root below child out' → rightText' = rightText.mapError (.rename f)) :
    compose context' (f id) node' leftText' rightText' =
      (compose context id node (left.text context) rightText).mapError (.rename f) := by
  -- Each part need only agree where the parts before it are there, and the writer comes so far.
  refine join_mapError (opening_mapError hcorresponds) fun o ho => ?_
  have henter : (writer context.symbols context.format).enter id node out = .ok () (out ++ o) := by
    show emitResult (opening node) out = _
    rw [ho]
    rfl
  refine join_mapError (operandText_mapError hcorresponds.left? ?_ ?_) fun l hl => ?_
  · intro leaf hleaf
    exact access_mapError (h.symbols id .left
      ⟨⟨_, .left hcomes hnode hleaf henter⟩, node, hnode, leaf, hleaf⟩)
  · intro child hchild hchild'
    exact hleft child _ hchild hchild' (.left hcomes hnode hchild henter)
  have hfollow := follow_of_operandText (by decide) htree hheight id node hl (out ++ o)
  refine join_mapError (middle_mapError hcorresponds ?_) fun m hm => ?_
  · intro hphrasing
    exact access_mapError (h.symbols id .self
      ⟨⟨_, .self hcomes hnode henter hfollow⟩, node, hnode, hphrasing⟩)
  have hself : (writer context.symbols context.format).visit .self id node (out ++ o ++ l) =
      .ok () (out ++ o ++ l ++ m) := by
    show emitResult (middle context.symbols context.format id node) _ = _
    rw [hm]
    rfl
  refine join_mapError (operandText_mapError hcorresponds.right? ?_ ?_) fun _ _ => rfl
  · intro leaf hleaf
    exact access_mapError (h.symbols id .right
      ⟨⟨_, .right hcomes hnode hleaf henter hfollow hself⟩, node, hnode, leaf, hleaf⟩)
  · intro child hchild hchild'
    exact hright child _ hchild hchild' (.right hcomes hnode hchild henter hfollow hself)

/-- Where the writer comes to, a tree and the one it is mapped to have the same text. -/
theorem text_rename_of_comesTo (h : context.Renames f context' root) {tree tree' : Unfolding}
    {id : NodeId} {levels : Nat} {out : String}
    (htree : Unfolds .fused context.graph (some (.node id)) tree)
    (htree' : Unfolds .fused context'.graph (some (.node (f id))) tree')
    (hcomes : ComesTo context root levels id out) (hheight : tree.height ≤ levels) :
    tree'.text context' = (tree.text context).mapError (.rename f) := by
  induction tree generalizing id levels out tree' with
  | empty => cases htree
  | branch id' node left right ihleft ihright =>
    obtain _ | _ | ⟨hnode, hleft, hright⟩ := htree
    obtain _ | _ | ⟨hnode', hleft', hright'⟩ := htree'
    obtain ⟨node', hmapped, hcorresponds⟩ := h.nodes id' node hcomes.meets hnode
    rw [hmapped] at hnode'
    cases hnode'
    obtain ⟨below, rfl⟩ : ∃ below, levels = below + 1 :=
      ⟨levels - 1, by simp only [Unfolding.height] at hheight; omega⟩
    have hbelow : left.height ≤ below ∧ right.height ≤ below := by
      simp only [Unfolding.height] at hheight
      omega
    refine compose_mapError h hnode hcorresponds hcomes hleft hbelow.1 ?_ ?_
    · intro child out' hchild hchild' hcomes'
      rw [hchild] at hleft
      rw [hchild'] at hleft'
      exact ihleft hleft hleft' hcomes' hbelow.1
    · intro child out' hchild hchild' hcomes'
      rw [hchild] at hright
      rw [hchild'] at hright'
      exact ihright hright hright' hcomes' hbelow.2

/-- **Texts do not depend on how nodes are numbered and shared,** nor on anything else that is
not read. -/
theorem text_rename (h : context.Renames f context' root) :
    text context' (f root) = (text context root).mapError (.rename f) := by
  obtain ⟨tree, htree⟩ := h.order.exists_unfolds
  have hroot : ∀ id, some (Operand.node root) = some (.node id) → context.Meets root id := by
    rintro id hid
    cases hid
    exact .refl
  obtain ⟨tree', htree'⟩ := exists_unfolds_of_renames h htree (.some (.node root)) hroot
  rw [text_eq_of_unfolds htree htree.height_le, text_eq_of_unfolds htree' htree'.height_le]
  exact text_rename_of_comesTo h htree htree' .root htree.height_le

/-- Two equal sums, and the inner product of a vector with a node that does not exist. -/
def separateSums : Context where
  graph := ⟨#[⟨.canonical .add, Walk.anyLeaf, some Walk.anyLeaf⟩,
    ⟨.canonical .add, Walk.anyLeaf, some Walk.anyLeaf⟩,
    ⟨.canonical .innerProduct, Walk.anyLeaf, some (.node 9)⟩,
    ⟨.canonical .mul, .node 0, some (.node 1)⟩, ⟨.canonical .div, .node 3, some (.node 2)⟩]⟩
  symbols := .ofList [((0, .left), .verbatim "x"), ((0, .right), .verbatim "y"),
    ((1, .left), .verbatim "x"), ((1, .right), .verbatim "y"), ((2, .self), .verbatim "p")]
  format := .standard

/-- One sum used twice, another inner product, and a node that is never met. -/
def mergedSums : Context where
  graph := ⟨#[⟨.canonical .div, .node 3, some (.node 1)⟩,
    ⟨.canonical .innerProduct, .node 0, some Walk.anyLeaf⟩,
    ⟨.canonical .add, Walk.anyLeaf, some Walk.anyLeaf⟩,
    ⟨.canonical .mul, .node 2, some (.node 2)⟩, ⟨.canonical .exp, .node 4, none⟩]⟩
  symbols := .ofList [((2, .left), .hostScalar "x"), ((2, .right), .constant "y"),
    ((1, .self), .verbatim "p"), ((4, .left), .verbatim "unused")]
  format := .standard

/-- Merges the equal sums, and numbers the other nodes anew. -/
def mergeSums : NodeId → NodeId
  | 0 | 1 => 2
  | 2 => 1
  | 4 => 0
  | id => id

theorem separateSums_renames : separateSums.Renames mergeSums mergedSums 4 := by
  have horder : separateSums.graph.OrderlyBelow .fused 4 :=
    (Walk.run_eq_ok_iff Event.recorder_neverFails #[]).1 ⟨_, rfl⟩
  refine ⟨horder, ?_, ?_⟩
  · intro id node hmeets hnode
    have hlt : id < 5 := horder.inRange id hmeets
    interval_cases id
    · cases hnode
      exact ⟨_, rfl, rfl, rfl, fun _ => .leaf _ _, fun _ => .some (.leaf _ _)⟩
    · cases hnode
      exact ⟨_, rfl, rfl, rfl, fun _ => .leaf _ _, fun _ => .some (.leaf _ _)⟩
    · cases hnode
      refine ⟨_, rfl, rfl, rfl, ?_, ?_⟩
      · intro h; cases h
      · intro h; cases h
    · cases hnode
      exact ⟨_, rfl, rfl, rfl, fun _ => .node 0, fun _ => .some (.node 1)⟩
    · cases hnode
      exact ⟨_, rfl, rfl, rfl, fun _ => .node 3, fun _ => .some (.node 2)⟩
  · intro id side hlooks
    have hlt : id < 5 := horder.inRange id hlooks.reads.1
    interval_cases id <;> cases side <;> rfl

theorem mergedSums_text : separateSums.Renames mergeSums mergedSums 4 ∧
    text mergedSums 0 = .ok "(((x+y)*(x+y))/(p))" := by
  refine ⟨separateSums_renames, ?_⟩
  have hrename : text mergedSums 0 = (text separateSums 4).mapError (.rename mergeSums) :=
    text_rename separateSums_renames
  rw [hrename]
  rfl

end Expression

end FusedKernel
