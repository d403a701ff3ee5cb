import FusedKernel.Proofs.Expression.Composition
import FusedKernel.Proofs.Graph.BottomUp
import Mathlib.Logic.Function.Basic

/-!
# All texts in a single pass

The writer writes a shared node anew each time it comes to it.  In a graph in order that is not
needed: taken from the bottom up, each node is put together once, from its own operation, its
symbols and what the table already holds for its operands.  The table ends up with what the writer
gives for every node, be it a text or an error.

* `Expression.parts` — the parts of a node from left to right, those below it read off a table.
* `Expression.concat` — parts in a row; the first one that is missing makes the error.
* `Expression.tabulate` — the table after one pass over the nodes.

Principal results: `text_eq_concat` — a node is put together from the texts of its operands;
`Tabulated.record` — what one step of the pass keeps; `tabulation_verdict` — the pass gives all
texts and errors, whichever order it takes the nodes in.
-/

set_option autoImplicit false

namespace FusedKernel

namespace Expression

/-- The outcome for each node; one that has not been put together counts as missing. -/
abbrev Table := NodeId → Except GenerationError String

/-- What is written for an operand: a symbol for a leaf, and for a node what the table holds. -/
def operandPart (context : Context) (table : Table) (id : NodeId) (side : Side) :
    Operand → Except GenerationError String
  | .node child => table child
  | .leaf _ => access context.symbols context.format id side

/-- The parts a node is written with, from left to right. -/
def parts (context : Context) (table : Table) (id : NodeId) (node : Node) :
    List (Except GenerationError String) :=
  (if node.operation.phrasing = .call then [node.operation.operator.token] else []) ++
  .ok "(" ::
  ((if node.operation.needsKernel then [] else [operandPart context table id .left node.left]) ++
  ((match node.operation.phrasing with
    | .kernelResult => [access context.symbols context.format id .self]
    | .infixed => [node.operation.operator.token]
    | .call => if node.right.isSome then [.ok ","] else []) ++
  ((if node.operation.needsKernel then []
    else node.right.toList.map (operandPart context table id .right)) ++
  [.ok ")"])))

/-- All parts in a row, or the first error among them. -/
def concat (parts : List (Except GenerationError String)) : Except GenerationError String :=
  (parts.mapM id).map String.join

/-- Puts a node together and enters it into the table. -/
def record (context : Context) (table : Table) (id : NodeId) : Table :=
  match context.graph.node? id with
  | none => table
  | some node => Function.update table id (concat (parts context table id node))

/-- The table after one pass over the listed nodes. -/
def tabulate (context : Context) (order : List NodeId) : Table :=
  order.foldl (record context) fun id => .error (.nodeOutOfRange id)

/-! ## Parts in a row -/

theorem concat_nil : concat [] = .ok "" := rfl

theorem concat_cons (part : Except GenerationError String)
    (parts : List (Except GenerationError String)) :
    concat (part :: parts) = join part (concat parts) := by
  unfold concat
  rw [List.mapM_cons]
  cases part with
  | error e => rfl
  | ok t =>
    cases parts.mapM id with
    | error e => rfl
    | ok ts => simp [join, bind, Except.bind, pure, Except.pure, Except.map, String.join_cons]

theorem join_assoc (a b c : Except GenerationError String) :
    join (join a b) c = join a (join b c) := by
  rcases a with e | a
  · rfl
  rcases b with e | b
  · rfl
  rcases c with e | c
  · rfl
  show Except.ok (a ++ b ++ c) = .ok (a ++ (b ++ c))
  rw [String.append_assoc]

theorem concat_append (parts parts' : List (Except GenerationError String)) :
    concat (parts ++ parts') = join (concat parts) (concat parts') := by
  induction parts with
  | nil => rw [List.nil_append, concat_nil, join_empty]
  | cons part parts ih => rw [List.cons_append, concat_cons, concat_cons, ih, join_assoc]

theorem concat_singleton (part : Except GenerationError String) : concat [part] = part := by
  rw [concat_cons, concat_nil]
  cases part with
  | error e => rfl
  | ok t =>
    show Except.ok (t ++ "") = .ok t
    rw [String.append_empty]

/-! ## The parts of a node -/

section Parts

variable {context : Context} {table : Table} {id : NodeId} {node : Node}

theorem join_concat_opening :
    join (concat (if node.operation.phrasing = .call then [node.operation.operator.token] else []))
      (.ok "(") = opening node := by
  unfold opening
  cases node.operation.phrasing with
  | infixed => rfl
  | kernelResult => rfl
  | call =>
    simp only [if_true, concat_singleton]
    cases node.operation.operator.token <;> rfl

theorem concat_middle :
    concat (match node.operation.phrasing with
      | .kernelResult => [access context.symbols context.format id .self]
      | .infixed => [node.operation.operator.token]
      | .call => if node.right.isSome then [.ok ","] else []) =
    middle context.symbols context.format id node := by
  unfold middle
  cases node.operation.phrasing with
  | infixed => exact concat_singleton _
  | kernelResult => exact concat_singleton _
  | call => cases node.right <;> rfl

theorem concat_operandPart {side : Side} {below : Except GenerationError String}
    {operand : Option Operand} (h : ∀ child, operand = some (.node child) → table child = below) :
    concat (operand.toList.map (operandPart context table id side)) =
      operandText context side id below operand := by
  rcases operand with _ | _ | child
  · rfl
  · exact concat_singleton _
  · rw [← h child rfl]
    exact concat_singleton _

/-- The parts in a row are what is composed from the texts below. -/
theorem concat_parts {left right : Except GenerationError String}
    (hleft : ∀ child, Walk.Mode.fused.left? node = some (.node child) → table child = left)
    (hright : ∀ child, Walk.Mode.fused.right? node = some (.node child) → table child = right) :
    concat (parts context table id node) = compose context id node left right := by
  have hleft? : (if node.operation.needsKernel then []
      else [operandPart context table id .left node.left]) =
      (Walk.Mode.fused.left? node).toList.map (operandPart context table id .left) := by
    cases hkernel : node.operation.needsKernel with
    | true => simp [(Walk.Mode.fused_of_needsKernel hkernel).1]
    | false => simp [(Walk.Mode.fused_of_inline hkernel).1]
  have hright? : (if node.operation.needsKernel then []
      else node.right.toList.map (operandPart context table id .right)) =
      (Walk.Mode.fused.right? node).toList.map (operandPart context table id .right) := by
    cases hkernel : node.operation.needsKernel with
    | true => simp [(Walk.Mode.fused_of_needsKernel hkernel).2]
    | false => simp [(Walk.Mode.fused_of_inline hkernel).2]
  unfold parts compose
  rw [hleft?, hright?, concat_append, concat_cons, ← join_assoc, join_concat_opening]
  rw [concat_append, concat_operandPart hleft, concat_append, concat_middle]
  rw [concat_append, concat_operandPart hright, concat_singleton]

end Parts

/-! ## The text of a node from those of its operands -/

section Text

variable {context : Context} {table : Table} {id : NodeId} {node : Node}

theorem text_outOfRange (h : context.graph.node? id = none) :
    text context id = .error (.nodeOutOfRange id) := by
  unfold text write Walk.run
  rw [Walk.descend_outOfRange .fused _ _ h]
  rfl

/-- An operand has a tree if the node it refers to has one. -/
theorem exists_unfolds_of_operand {mode : Walk.Mode} {g : ExprGraph} {operand : Option Operand}
    (h : ∀ child, operand = some (.node child) →
      ∃ tree, Unfolds mode g (some (.node child)) tree) :
    ∃ tree, Unfolds mode g operand tree := by
  rcases operand with _ | leaf | child
  · exact ⟨.empty, .none⟩
  · exact ⟨.empty, .leaf leaf⟩
  · exact h child rfl

/-- **A node is put together from the texts of its operands,** or from the errors they end with. -/
theorem text_eq_concat (hnode : context.graph.node? id = some node)
    (hbelow : ∀ child, context.graph.Leads .fused id child →
      table child = text context child ∧
        ∃ tree, Unfolds .fused context.graph (some (.node child)) tree) :
    text context id = concat (parts context table id node) ∧
      ∃ tree, Unfolds .fused context.graph (some (.node id)) tree := by
  obtain ⟨left, hleft⟩ := exists_unfolds_of_operand fun child hchild =>
    (hbelow child ⟨node, hnode, Or.inl hchild⟩).2
  obtain ⟨right, hright⟩ := exists_unfolds_of_operand fun child hchild =>
    (hbelow child ⟨node, hnode, Or.inr hchild⟩).2
  have htree := Unfolds.node hnode hleft hright
  refine ⟨?_, _, htree⟩
  rw [text_eq_of_unfolds htree htree.height_le]
  symm
  apply concat_parts
  · intro child hchild
    rw [hchild] at hleft
    rw [(hbelow child ⟨node, hnode, Or.inl hchild⟩).1]
    exact text_eq_of_unfolds hleft hleft.height_le
  · intro child hchild
    rw [hchild] at hright
    rw [(hbelow child ⟨node, hnode, Or.inr hchild⟩).1]
    exact text_eq_of_unfolds hright hright.height_le

end Text

/-! ## The pass -/

/-- The table holds what the writer gives for the nodes that are done, and nothing else. -/
structure Tabulated (context : Context) (done : List NodeId) (table : Table) : Prop where
  unfolds : ∀ id ∈ done, ∃ tree, Unfolds .fused context.graph (some (.node id)) tree
  text : ∀ id ∈ done, table id = text context id
  missing : ∀ id, id ∉ done → table id = .error (.nodeOutOfRange id)

variable {context : Context} {done order : List NodeId} {table : Table}

/-- **A step of the pass.**  With its operands done, a node is entered for good. -/
theorem Tabulated.record {id : NodeId} (h : Tabulated context done table)
    (hid : id < context.graph.size)
    (hoperands : ∀ child, context.graph.Uses id child → child ∈ done) :
    Tabulated context (done ++ [id]) (record context table id) := by
  have hnode := context.graph.node?_eq_get ⟨id, hid⟩
  obtain ⟨htext, htree⟩ := text_eq_concat hnode fun child hchild =>
    have hdone := hoperands child hchild.uses
    ⟨h.text child hdone, h.unfolds child hdone⟩
  have hrecord : Expression.record context table id =
      Function.update table id (Expression.text context id) := by
    unfold Expression.record
    rw [hnode, htext]
  constructor
  · intro id' hid'
    rcases List.mem_append.1 hid' with hdone | hnew
    · exact h.unfolds id' hdone
    · rw [List.mem_singleton.1 hnew]
      exact htree
  · intro id' hid'
    rw [hrecord]
    by_cases heq : id' = id
    · subst heq
      exact Function.update_self ..
    · rw [Function.update_of_ne heq]
      exact h.text id' (by simpa [heq] using hid')
  · intro id' hid'
    have hne : id' ∉ done ∧ id' ≠ id := by simpa using hid'
    rw [hrecord, Function.update_of_ne hne.2]
    exact h.missing id' hne.1

/-- The rest of the pass completes what the first part has begun. -/
theorem Tabulated.foldl (horder : context.graph.BottomUp order) {rest : List NodeId}
    (hsplit : order = done ++ rest) (h : Tabulated context done table) :
    Tabulated context order (rest.foldl (Expression.record context) table) := by
  induction rest generalizing done table with
  | nil => simpa [hsplit] using h
  | cons id rest ih =>
    have hid : id < context.graph.size := horder.mem_iff.1 (by simp [hsplit])
    have hoperands := horder.operandsFirst done id rest hsplit
    exact ih (by simp [hsplit]) (h.record hid hoperands)

theorem tabulated_tabulate (horder : context.graph.BottomUp order) :
    Tabulated context order (tabulate context order) := by
  refine Tabulated.foldl horder (List.nil_append order).symm ⟨?_, ?_, ?_⟩
  · simp
  · simp
  · intro id _
    rfl

/-- **One pass gives all texts.**  Graphs that pass the search for cycles can be put into an order
from the bottom up, and in whichever order the pass takes the nodes, the table holds what the
writer gives for each of them, texts and errors alike. -/
theorem tabulation_verdict (context : Context) :
    (context.graph.check = .ok () ↔ ∃ order, context.graph.BottomUp order) ∧
      ∀ order, context.graph.BottomUp order →
        ∀ id, tabulate context order id = text context id := by
  refine ⟨ExprGraph.check_eq_ok_iff_exists_bottomUp, ?_⟩
  intro order horder id
  have htable : Tabulated context order (tabulate context order) := tabulated_tabulate horder
  by_cases hid : id ∈ order
  · exact htable.text id hid
  · have hnone : context.graph.node? id = none := by
      rw [horder.mem_iff] at hid
      exact Array.getElem?_eq_none_iff.2 (Nat.not_lt.1 hid)
    rw [htable.missing id hid, text_outOfRange hnone]

/-- The square of a sum over an inner product without a symbol, numbered from the top down. -/
def scaledSquare : Context where
  graph := ⟨#[⟨.canonical .div, .node 2, some (.node 1)⟩,
    ⟨.canonical .innerProduct, Walk.anyLeaf, some (.node 3)⟩,
    ⟨.canonical .mul, .node 3, some (.node 3)⟩,
    ⟨.canonical .add, Walk.anyLeaf, some Walk.anyLeaf⟩]⟩
  symbols := .ofList [((3, .left), .hostScalar "x"), ((3, .right), .vector "y")]
  format := .standard

theorem scaledSquare_bottomUp : scaledSquare.graph.BottomUp [3, 2, 1, 0] := by
  refine ⟨by decide, ?_⟩
  rintro before id after hsplit child ⟨node, hnode, hchild⟩
  rcases before with _ | ⟨a, _ | ⟨b, _ | ⟨c, _ | ⟨d, rest⟩⟩⟩⟩
  · cases hsplit
    cases hnode
    rcases hchild with hchild | hchild <;> cases hchild
  · cases hsplit
    cases hnode
    rcases hchild with hchild | hchild <;> cases hchild <;> decide
  · cases hsplit
    cases hnode
    rcases hchild with hchild | hchild <;> cases hchild
    decide
  · cases hsplit
    cases hnode
    rcases hchild with hchild | hchild <;> cases hchild <;> decide
  · simp at hsplit

theorem scaledSquare_tabulated : scaledSquare.graph.BottomUp [3, 2, 1, 0] ∧
    tabulate scaledSquare [3, 2, 1, 0] 2 = .ok "((x+y[i])*(x+y[i]))" ∧
    tabulate scaledSquare [3, 2, 1, 0] 0 = .error (.unmapped 1 .self) := by
  have htable := (tabulation_verdict scaledSquare).2 _ scaledSquare_bottomUp
  refine ⟨scaledSquare_bottomUp, ?_, ?_⟩
  · rw [htable 2]
    rfl
  · rw [htable 0]
    rfl

end Expression

end FusedKernel
