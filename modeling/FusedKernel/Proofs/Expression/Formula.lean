import FusedKernel.Proofs.Expression.Characters
import FusedKernel.Proofs.Expression.KernelResult

/-!
# Formulas

A `Formula` is what an expression means, apart from the nodes and tables behind it: which
operators are applied to what, with a text for each leaf and for each result of a kernel.

* `Formula.chars` — the characters of a formula.
* `Expands`, `Context.Denotes` — the formula of an operand, and of an expression.
* `Context.Canonical`, `Context.Renders` — what is met has its usual tags, and what is read is
  rendered to texts of some kind.

Principal result: `exists_formula_of_text` — with the usual tags, a text is that of the formula
the expression means.
-/

set_option autoImplicit false

namespace FusedKernel

open Relation

/-- What an expression means. -/
inductive Formula where
  /-- There is no operand. -/
  | absent
  | leaf (text : String)
  /-- The result of a kernel, whatever the kernel computes. -/
  | result (text : String)
  | inlined (operator : Operator) (left right : Formula)
  deriving DecidableEq, Repr

namespace Formula

def isPresent : Formula → Bool
  | absent => false
  | leaf _ | result _ | inlined _ _ _ => true

/-- The characters a formula is written with. -/
def chars : Formula → List Char
  | absent => []
  | leaf text => text.toList
  | result text => '(' :: (text.toList ++ [')'])
  | inlined operator left right =>
    operator.callee ++ '(' ::
      (left.chars ++ (operator.separator right.isPresent ++ (right.chars ++ [')'])))

/-- Operators are such as are written inline, and the texts have a property. -/
def WellSpelled (shown : String → Prop) : Formula → Prop
  | absent => True
  | leaf text => shown text
  | result text => shown text
  | inlined operator left right =>
    operator.IsInline ∧ left.WellSpelled shown ∧ right.WellSpelled shown

end Formula

/-! ## The formula of an expression -/

/-- The formula of an operand.  Which side of which node it is on matters for a leaf only. -/
inductive Expands (context : Context) : NodeId → Side → Option Operand → Formula → Prop
  | absent {parent : NodeId} {side : Side} : Expands context parent side none .absent
  | leaf {parent : NodeId} {side : Side} {leaf : Leaf} {symbol : Symbol}
      (hsymbol : context.symbols.get? parent side = some symbol) :
      Expands context parent side (some (.leaf leaf)) (.leaf (symbol.render context.format))
  | result {parent id : NodeId} {side : Side} {node : Node} {symbol : Symbol}
      (hnode : context.graph.node? id = some node) (hkernel : node.operation.needsKernel = true)
      (hsymbol : context.symbols.get? id .self = some symbol) :
      Expands context parent side (some (.node id)) (.result (symbol.render context.format))
  | inlined {parent id : NodeId} {side : Side} {node : Node} {left right : Formula}
      (hnode : context.graph.node? id = some node) (hkernel : node.operation.needsKernel = false)
      (hleft : Expands context id .left (some node.left) left)
      (hright : Expands context id .right node.right right) :
      Expands context parent side (some (.node id))
        (.inlined node.operation.operator left right)

/-- The symbol of a side is among the entries of the table. -/
theorem SymbolTable.mem_entries_of_get? {table : SymbolTable} {node : NodeId} {side : Side}
    {symbol : Symbol} (h : table.get? node side = some symbol) :
    ((node, side), symbol) ∈ table.entries := by
  obtain ⟨before, after, hentries, _⟩ := List.lookup_eq_some_iff.1 h
  rw [hentries]
  exact List.mem_append_right _ (List.mem_cons_self ..)

/-- The symbol of the side is shown where the node is written. -/
def Node.Shows (node : Node) : Side → Prop
  | .self => node.operation.phrasing = .kernelResult
  | .left => ∃ leaf, Walk.Mode.fused.left? node = some (.leaf leaf)
  | .right => ∃ leaf, Walk.Mode.fused.right? node = some (.leaf leaf)

namespace Context

/-- The formula of the expression at `root`. -/
def Denotes (context : Context) (root : NodeId) (formula : Formula) : Prop :=
  Expands context root .self (some (.node root)) formula

/-- Writing the expression at `root` comes to a node. -/
def Meets (context : Context) (root id : NodeId) : Prop :=
  ReflTransGen (context.graph.Leads .fused) root id

/-- Writing the expression at `root` reads the symbol of a side of a node. -/
def Reads (context : Context) (root id : NodeId) (side : Side) : Prop :=
  context.Meets root id ∧ ∃ node, context.graph.node? id = some node ∧ node.Shows side

/-- Whatever is met has the usual tags of its operator. -/
def Canonical (context : Context) (root : NodeId) : Prop :=
  ∀ id node, context.Meets root id → context.graph.node? id = some node →
    ∃ operator, node.operation = .canonical operator

/-- Whatever is read is rendered to a text with a property. -/
def Renders (context : Context) (shown : String → Prop) (root : NodeId) : Prop :=
  ∀ id side symbol, context.Reads root id side → context.symbols.get? id side = some symbol →
    shown (symbol.render context.format)

/-- It is enough that all nodes of the graph have the usual tags. -/
theorem canonical_of_nodes {context : Context} (root : NodeId)
    (h : ∀ node ∈ context.graph.nodes.toList,
      node.operation = .canonical node.operation.operator) : context.Canonical root := by
  intro id node _ hnode
  exact ⟨_, h node (Array.mem_toList_iff.2 (Array.mem_of_getElem? hnode))⟩

/-- It is enough that all symbols of the table are rendered to such texts. -/
theorem renders_of_entries {context : Context} {shown : String → Prop} (root : NodeId)
    (h : ∀ entry ∈ context.symbols.entries, shown (entry.2.render context.format)) :
    context.Renders shown root := by
  intro id side symbol _ hsymbol
  exact h _ (SymbolTable.mem_entries_of_get? hsymbol)

end Context

section Expands

variable {context : Context} {parent : NodeId} {side : Side} {operand : Option Operand}
  {formula : Formula}

theorem Expands.isPresent (h : Expands context parent side operand formula) :
    formula.isPresent = operand.isSome := by
  cases h <;> rfl

theorem Expands.exists_result {id : NodeId} {node : Node}
    (h : Expands context parent side (some (.node id)) formula)
    (hnode : context.graph.node? id = some node) (hkernel : node.operation.needsKernel = true) :
    ∃ symbol, context.symbols.get? id .self = some symbol ∧
      formula = .result (symbol.render context.format) := by
  cases h with
  | result _ _ hsymbol => exact ⟨_, hsymbol, rfl⟩
  | inlined hnode' hkernel' =>
    rw [hnode] at hnode'
    cases hnode'
    rw [hkernel] at hkernel'
    cases hkernel'

theorem Expands.exists_inlined {id : NodeId} {node : Node}
    (h : Expands context parent side (some (.node id)) formula)
    (hnode : context.graph.node? id = some node) (hkernel : node.operation.needsKernel = false) :
    ∃ left right, formula = .inlined node.operation.operator left right ∧
      Expands context id .left (some node.left) left ∧
      Expands context id .right node.right right := by
  cases h with
  | result hnode' hkernel' =>
    rw [hnode] at hnode'
    cases hnode'
    rw [hkernel] at hkernel'
    cases hkernel'
  | inlined hnode' _ hleft hright =>
    rw [hnode] at hnode'
    cases hnode'
    exact ⟨_, _, rfl, hleft, hright⟩

/-- There is at most one formula for an operand. -/
theorem Expands.unique {formula' : Formula} (h : Expands context parent side operand formula)
    (h' : Expands context parent side operand formula') : formula = formula' := by
  induction h generalizing formula' with
  | absent =>
    cases h'
    rfl
  | leaf hsymbol =>
    cases h' with
    | leaf hsymbol' =>
      rw [hsymbol] at hsymbol'
      cases hsymbol'
      rfl
  | result hnode hkernel hsymbol =>
    obtain ⟨symbol', hsymbol', rfl⟩ := h'.exists_result hnode hkernel
    rw [hsymbol] at hsymbol'
    cases hsymbol'
    rfl
  | inlined hnode hkernel _ _ ihleft ihright =>
    obtain ⟨left', right', rfl, hleft', hright'⟩ := h'.exists_inlined hnode hkernel
    rw [ihleft hleft', ihright hright']

/-- On whichever side a node stands, its formula is that of its expression. -/
theorem Expands.denotes {id : NodeId} (h : Expands context parent side (some (.node id)) formula) :
    context.Denotes id formula := by
  cases h with
  | result hnode hkernel hsymbol => exact .result hnode hkernel hsymbol
  | inlined hnode hkernel hleft hright => exact .inlined hnode hkernel hleft hright

theorem Context.Denotes.iff_eq {root : NodeId} (h : context.Denotes root formula)
    (formula' : Formula) : context.Denotes root formula' ↔ formula' = formula := by
  constructor
  · intro h'
    exact h'.unique h
  · rintro rfl
    exact h

end Expands

/-! ## The text of a formula -/

namespace Expression

variable {context : Context} {id : NodeId} {node : Node}

theorem access_eq_ok_iff {side : Side} {t : String} :
    access context.symbols context.format id side = .ok t ↔
      ∃ symbol, context.symbols.get? id side = some symbol ∧
        t = symbol.render context.format := by
  unfold access SymbolTable.lookup
  cases context.symbols.get? id side with
  | none => simp
  | some symbol => simp [eq_comm]

theorem resultText_eq_ok_iff {t : String} :
    resultText context id = .ok t ↔ ∃ symbol, context.symbols.get? id .self = some symbol ∧
      t = "(" ++ symbol.render context.format ++ ")" := by
  unfold resultText
  cases context.symbols.get? id .self with
  | none => simp
  | some symbol => simp [eq_comm]

/-- What an operator contributes where it is written inline. -/
theorem inline_of_ok {operator : Operator} {o m : String}
    (hoperation : node.operation = .canonical operator)
    (hkernel : node.operation.needsKernel = false) (hopening : opening node = .ok o)
    (hmiddle : middle context.symbols context.format id node = .ok m) :
    operator.IsInline ∧ o.toList = operator.callee ++ ['('] ∧
      m.toList = operator.separator node.right.isSome := by
  have hphrasing : (Operation.canonical operator).phrasing ≠ .kernelResult := by
    intro h
    rw [hoperation, (Operation.needsKernel_canonical operator).2 h] at hkernel
    cases hkernel
  unfold opening at hopening
  unfold middle at hmiddle
  rw [hoperation, Operation.operator_canonical] at hopening hmiddle
  unfold Operator.IsInline Operator.callee Operator.separator Operator.spelling
  cases hcase : (Operation.canonical operator).phrasing with
  | kernelResult => exact absurd hcase hphrasing
  | infixed =>
    rw [hcase] at hopening hmiddle
    cases hopening
    rw [Operator.token_eq_ok_iff.1 hmiddle]
    simp
  | call =>
    rw [hcase] at hopening hmiddle
    cases htoken : operator.token with
    | error e => rw [htoken] at hopening; cases hopening
    | ok name =>
      rw [htoken] at hopening
      cases hopening
      cases hmiddle
      rw [Operator.token_eq_ok_iff.1 htoken]
      cases node.right.isSome <;> simp

/-- The text of a tree is that of the formula at its root. -/
theorem exists_formula_of_unfolds {shown : String → Prop} {root : NodeId}
    (hcanonical : context.Canonical root) (hrenders : context.Renders shown root)
    {tree : Unfolding} {operand : Option Operand}
    (h : Unfolds .fused context.graph operand tree) {parent : NodeId} {side : Side} {t : String}
    (hmeets : ∀ child, operand = some (.node child) → context.Meets root child)
    (hreads : ∀ leaf, operand = some (.leaf leaf) → context.Reads root parent side)
    (ht : operandText context side parent (tree.text context) operand = .ok t) :
    ∃ formula, Expands context parent side operand formula ∧ formula.WellSpelled shown ∧
      formula.chars = t.toList := by
  induction h generalizing parent side t with
  | none =>
    cases ht
    exact ⟨.absent, .absent, trivial, rfl⟩
  | leaf leaf =>
    obtain ⟨symbol, hsymbol, rfl⟩ := access_eq_ok_iff.1 ht
    exact ⟨.leaf _, .leaf hsymbol, hrenders _ _ _ (hreads leaf rfl) hsymbol, rfl⟩
  | @node id node left right hnode _ _ ihleft ihright =>
    have hmeet : context.Meets root id := hmeets id rfl
    obtain ⟨operator, hoperation⟩ := hcanonical id node hmeet hnode
    change compose context id node (left.text context) (right.text context) = .ok t at ht
    cases hkernel : node.operation.needsKernel with
    | true =>
      have hphrasing : node.operation.phrasing = .kernelResult := by
        rw [hoperation] at hkernel ⊢
        exact (Operation.needsKernel_canonical operator).1 hkernel
      rw [compose_eq_resultText hphrasing] at ht
      obtain ⟨symbol, hsymbol, rfl⟩ := resultText_eq_ok_iff.1 ht
      have hself : context.Reads root id .self := ⟨hmeet, node, hnode, hphrasing⟩
      refine ⟨.result _, .result hnode hkernel hsymbol, hrenders _ _ _ hself hsymbol, ?_⟩
      simp [Formula.chars]
    | false =>
      obtain ⟨hfollowleft, hfollowright⟩ := Walk.Mode.fused_of_inline hkernel
      obtain ⟨o, l, m, r, hopening, hleft, hmiddle, hright, rfl⟩ := exists_of_compose_eq_ok ht
      obtain ⟨hinline, ho, hm⟩ := inline_of_ok hoperation hkernel hopening hmiddle
      have hreadsLeft : ∀ leaf, Walk.Mode.fused.left? node = some (.leaf leaf) →
          context.Reads root id .left := by
        intro leaf hleaf
        exact ⟨hmeet, node, hnode, ⟨leaf, hleaf⟩⟩
      have hreadsRight : ∀ leaf, Walk.Mode.fused.right? node = some (.leaf leaf) →
          context.Reads root id .right := by
        intro leaf hleaf
        exact ⟨hmeet, node, hnode, ⟨leaf, hleaf⟩⟩
      obtain ⟨leftFormula, hleftExpands, hleftSpelled, hleftChars⟩ := ihleft
        (fun child hchild => hmeet.tail ⟨node, hnode, Or.inl hchild⟩) hreadsLeft hleft
      obtain ⟨rightFormula, hrightExpands, hrightSpelled, hrightChars⟩ := ihright
        (fun child hchild => hmeet.tail ⟨node, hnode, Or.inr hchild⟩) hreadsRight hright
      rw [hfollowleft] at hleftExpands
      rw [hfollowright] at hrightExpands
      refine ⟨.inlined node.operation.operator leftFormula rightFormula,
        .inlined hnode hkernel hleftExpands hrightExpands, ?_, ?_⟩
      · rw [hoperation, Operation.operator_canonical]
        exact ⟨hinline, hleftSpelled, hrightSpelled⟩
      · rw [hoperation, Operation.operator_canonical, Formula.chars, hleftChars, hrightChars,
          hrightExpands.isPresent, ← hm]
        simp [ho]

/-- **A text is that of the formula the expression means.** -/
theorem exists_formula_of_text {shown : String → Prop} {root : NodeId} {t : String}
    (hcanonical : context.Canonical root) (hrenders : context.Renders shown root)
    (ht : text context root = .ok t) :
    ∃ formula, context.Denotes root formula ∧ formula.WellSpelled shown ∧
      formula.chars = t.toList := by
  obtain ⟨tree, hunfolds, htree⟩ := exists_tree_of_text ht
  refine exists_formula_of_unfolds hcanonical hrenders hunfolds ?_ ?_ htree
  · intro child hchild
    cases hchild
    exact ReflTransGen.refl
  · intro leaf hleaf
    cases hleaf

end Expression

end FusedKernel
