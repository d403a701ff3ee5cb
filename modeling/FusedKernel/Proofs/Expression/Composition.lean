import FusedKernel.Expression
import FusedKernel.Proofs.Graph.Unfolding

/-!
# Composing the text of an expression

The writer only ever appends: what it does at a node is to append one text, which does not
depend on the text written before.  So the text of a node is composed of those of its operands.

* `Expression.join` — two texts in a row; the first one that is missing makes the error.
* `Expression.compose` — the text of a node, from the texts of the expressions below it.
* `Unfolding.text` — the text of a tree.

Principal results: `appends_walk` — walking a tree appends its text; `exists_tree_of_text` —
every text is that of a tree; `text_of_descend` — what a descent appends is the text of its node.
-/

set_option autoImplicit false

namespace FusedKernel

namespace Expression

/-- One text and then another, or the first error. -/
def join (first second : Except GenerationError String) : Except GenerationError String := do
  let a ← first
  let b ← second
  return a ++ b

theorem join_eq_ok_iff {first second : Except GenerationError String} {text : String} :
    join first second = .ok text ↔
      ∃ a b, first = .ok a ∧ second = .ok b ∧ text = a ++ b := by
  constructor
  · intro h
    rcases first with e | a
    · cases h
    · rcases second with e | b
      · cases h
      · cases h
        exact ⟨a, b, rfl, rfl, rfl⟩
  · rintro ⟨a, b, rfl, rfl, rfl⟩
    rfl

theorem join_empty (text : Except GenerationError String) : join (.ok "") text = text := by
  cases text with
  | ok t =>
    show Except.ok ("" ++ t) = .ok t
    rw [String.empty_append]
  | error e => rfl

/-- The text of an operand on one side of a node, given that of the expression below. -/
def operandText (context : Context) (side : Side) (id : NodeId)
    (below : Except GenerationError String) : Option Operand → Except GenerationError String
  | none => .ok ""
  | some (.leaf _) => access context.symbols context.format id side
  | some (.node _) => below

/-- The text of a node, given those of the expressions below it. -/
def compose (context : Context) (id : NodeId) (node : Node)
    (left right : Except GenerationError String) : Except GenerationError String :=
  join (opening node) <|
  join (operandText context .left id left (Walk.Mode.fused.left? node)) <|
  join (middle context.symbols context.format id node) <|
  join (operandText context .right id right (Walk.Mode.fused.right? node)) <|
  .ok ")"

theorem exists_of_compose_eq_ok {context : Context} {id : NodeId} {node : Node}
    {left right : Except GenerationError String} {text : String}
    (h : compose context id node left right = .ok text) :
    ∃ o l m r, opening node = .ok o ∧
      operandText context .left id left (Walk.Mode.fused.left? node) = .ok l ∧
      middle context.symbols context.format id node = .ok m ∧
      operandText context .right id right (Walk.Mode.fused.right? node) = .ok r ∧
      text = o ++ (l ++ (m ++ (r ++ ")"))) := by
  obtain ⟨o, _, ho, hleft, rfl⟩ := join_eq_ok_iff.1 h
  obtain ⟨l, _, hl, hmiddle, rfl⟩ := join_eq_ok_iff.1 hleft
  obtain ⟨m, _, hm, hright, rfl⟩ := join_eq_ok_iff.1 hmiddle
  obtain ⟨r, _, hr, hclose, rfl⟩ := join_eq_ok_iff.1 hright
  cases hclose
  exact ⟨o, l, m, r, ho, hl, hm, hr, rfl⟩

end Expression

/-- The text of a tree. -/
def Unfolding.text (context : Context) : Unfolding → Except GenerationError String
  | empty => .ok ""
  | branch id node left right =>
    Expression.compose context id node (left.text context) (right.text context)

namespace Expression

variable {context : Context}

/-! ## Actions that append -/

/-- Whatever the state is, the action appends the text to it, or fails as the text does. -/
def Appends (action : WalkM String Unit) : Except GenerationError String → Prop
  | .ok t => ∀ out, action out = .ok () (out ++ t)
  | .error e => ∀ out, ∃ out', action out = .error e out'

theorem appends_pure : Appends (pure ()) (.ok "") := by
  intro out
  rw [String.append_empty]
  rfl

theorem appends_emit (t : String) : Appends (emit t) (.ok t) := by
  intro out
  rfl

theorem appends_emitResult (text : Except GenerationError String) :
    Appends (emitResult text) text := by
  cases text with
  | ok t => exact appends_emit t
  | error e =>
    intro out
    exact ⟨out, rfl⟩

theorem Appends.seq {action action' : WalkM String Unit}
    {text text' : Except GenerationError String} (h : Appends action text)
    (h' : Appends action' text') : Appends (action >>= fun _ => action') (join text text') := by
  cases text with
  | error e =>
    intro out
    obtain ⟨out', hout⟩ := h out
    refine ⟨out', ?_⟩
    show EStateM.bind action (fun _ => action') out = .error e out'
    rw [EStateM.bind, hout]
  | ok t =>
    have hbind : ∀ out, (action >>= fun _ => action') out = action' (out ++ t) := by
      intro out
      show EStateM.bind action (fun _ => action') out = action' (out ++ t)
      rw [EStateM.bind, h out]
    cases text' with
    | error e =>
      intro out
      rw [hbind]
      exact h' (out ++ t)
    | ok t' =>
      intro out
      rw [hbind, h', String.append_assoc]

/-- What an action appends can be read off any of its runs. -/
theorem Appends.eq_ok {action : WalkM String Unit} {text : Except GenerationError String}
    (h : Appends action text) {out out' : String} (hrun : action out = .ok () out') :
    ∃ t, text = .ok t ∧ out' = out ++ t := by
  cases text with
  | ok t =>
    rw [h out] at hrun
    cases hrun
    exact ⟨t, rfl, rfl⟩
  | error e =>
    obtain ⟨_, hout⟩ := h out
    rw [hrun] at hout
    cases hout

theorem appends_follow {walk : NodeId → WalkM String Unit} {side : Side} {id : NodeId}
    {node : Node} {operand : Option Operand} {below : Except GenerationError String}
    (hside : side ≠ .self)
    (h : ∀ child, operand = some (.node child) → Appends (walk child) below) :
    Appends (Walk.follow (writer context.symbols context.format) walk side id node operand)
      (operandText context side id below operand) := by
  rcases operand with _ | _ | child
  · exact appends_pure
  · cases side with
    | self => exact absurd rfl hside
    | left => exact appends_emitResult _
    | right => exact appends_emitResult _
  · exact h child rfl

/-- What the writer does at a node appends the composed text. -/
theorem appends_compose {walkLeft walkRight : NodeId → WalkM String Unit} {id : NodeId}
    {node : Node} {left right : Except GenerationError String}
    (hleft : ∀ child, Walk.Mode.fused.left? node = some (.node child) →
      Appends (walkLeft child) left)
    (hright : ∀ child, Walk.Mode.fused.right? node = some (.node child) →
      Appends (walkRight child) right) :
    let visitor := writer context.symbols context.format
    Appends (do
      visitor.enter id node
      Walk.follow visitor walkLeft .left id node (Walk.Mode.fused.left? node)
      visitor.visit .self id node
      Walk.follow visitor walkRight .right id node (Walk.Mode.fused.right? node)
      visitor.leave id node) (compose context id node left right) :=
  (appends_emitResult _).seq <| (appends_follow (by decide) hleft).seq <|
    (appends_emitResult _).seq <| (appends_follow (by decide) hright).seq (appends_emit ")")

/-- **Walking a tree appends its text.** -/
theorem appends_walk (tree : Unfolding) :
    Appends (tree.walk .fused (writer context.symbols context.format)) (tree.text context) := by
  induction tree with
  | empty => exact appends_pure
  | branch id node left right ihleft ihright =>
    exact appends_compose (fun _ _ => ihleft) (fun _ _ => ihright)

theorem exists_appends_follow (context : Context) {walk : NodeId → WalkM String Unit}
    (h : ∀ child, ∃ text, Appends (walk child) text) (side : Side) (id : NodeId) (node : Node)
    (operand : Option Operand) :
    ∃ text, Appends
      (Walk.follow (writer context.symbols context.format) walk side id node operand) text := by
  rcases operand with _ | _ | child
  · exact ⟨_, appends_pure⟩
  · cases side with
    | self => exact ⟨_, appends_emitResult _⟩
    | left => exact ⟨_, appends_emitResult _⟩
    | right => exact ⟨_, appends_emitResult _⟩
  · exact h child

/-- A descent appends some text or other, even where it runs out of levels. -/
theorem exists_appends_descend (levels : Nat) (id : NodeId) :
    ∃ text, Appends (Walk.descend .fused context.graph
      (writer context.symbols context.format) levels id) text := by
  induction levels generalizing id with
  | zero =>
    refine ⟨.error (.cycle id), ?_⟩
    intro out
    exact ⟨out, rfl⟩
  | succ levels ih =>
    cases hnode : context.graph.node? id with
    | none =>
      rw [Walk.descend_outOfRange .fused _ levels hnode]
      refine ⟨.error (.nodeOutOfRange id), ?_⟩
      intro out
      exact ⟨out, rfl⟩
    | some node =>
      obtain ⟨left, hleft⟩ :=
        exists_appends_follow context ih .left id node (Walk.Mode.fused.left? node)
      obtain ⟨right, hright⟩ :=
        exists_appends_follow context ih .right id node (Walk.Mode.fused.right? node)
      rw [Walk.descend_node .fused _ levels hnode]
      exact ⟨_, (appends_emitResult _).seq <| hleft.seq <|
        (appends_emitResult _).seq <| hright.seq (appends_emit ")")⟩

/-! ## The text of a node -/

theorem text_eq_ok_iff {root : NodeId} {t : String} :
    text context root = .ok t ↔ write context root "" = .ok () t := by
  unfold text
  split <;> simp_all

/-- The text of a node is what writing it appends. -/
theorem text_eq_of_appends {root : NodeId} {outcome : Except GenerationError String}
    (h : Appends (write context root) outcome) : text context root = outcome := by
  unfold text
  cases outcome with
  | ok t => rw [h "", String.empty_append]
  | error e =>
    obtain ⟨out, hout⟩ := h ""
    rw [hout]

/-- With enough levels for a tree, the text of its root is the text of the tree. -/
theorem text_eq_of_unfolds {root : NodeId} {tree : Unfolding}
    (h : Unfolds .fused context.graph (some (.node root)) tree)
    (hheight : tree.height ≤ context.graph.size + 1) :
    text context root = tree.text context := by
  refine text_eq_of_appends ?_
  unfold write Walk.run
  rw [Walk.descend_eq_walk h hheight]
  exact appends_walk tree

/-- **What a descent appends is the text of its node.** -/
theorem text_of_descend {levels : Nat} {id : NodeId} {out out' : String}
    (h : Walk.descend .fused context.graph (writer context.symbols context.format) levels id
      out = .ok () out') (hlevels : levels ≤ context.graph.size + 1) :
    ∃ t, text context id = .ok t ∧ out' = out ++ t := by
  obtain ⟨tree, hunfolds, hheight⟩ := Walk.exists_unfolds_of_descend h
  rw [Walk.descend_eq_walk hunfolds hheight] at h
  rw [text_eq_of_unfolds hunfolds (Nat.le_trans hheight hlevels)]
  exact (appends_walk tree).eq_ok h

/-- Every text is the text of a tree. -/
theorem exists_tree_of_text {root : NodeId} {t : String} (h : text context root = .ok t) :
    ∃ tree, Unfolds .fused context.graph (some (.node root)) tree ∧
      tree.text context = .ok t := by
  obtain ⟨tree, hunfolds, hheight⟩ := Walk.exists_unfolds_of_descend (text_eq_ok_iff.1 h)
  exact ⟨tree, hunfolds, (text_eq_of_unfolds hunfolds hheight).symm.trans h⟩

end Expression

end FusedKernel
