import FusedKernel.Proofs.Expression.Tabulation

/-!
# An expression and its sides

The text of one operand is written by a walk of its own, which may go one level deeper than the walk
of the whole expression does at that operand.  On a graph in order this makes no difference.  On any
other it might: the deeper walk comes to something that the other one did not come to, and fails
there.  It never does.  With as many levels as there are nodes, a walk that is still too deep has
turned around somewhere, so it has already been wherever it goes from there.

* `Expression.textWithin` — the outcome for a node, with so many levels.
* `Expression.IsCycle` — an outcome that more levels might still change.
* `Context.HoldsUp` — as long as one node is too deep, so is the other one.
* `Expression.SameOutcome` — the same text, or errors alike.

Principal results: `textWithin_le` — more levels only ever change a cycle; `isCycle_of_size` — a
cycle that is there with more levels than nodes is there with any; `sameOutcome_concat` — every node
is put together from the outcomes of its operands, cycles or not; `text_from_sides`.
-/

set_option autoImplicit false

namespace FusedKernel

open Relation

namespace Expression

/-! ## Outcomes and levels -/

/-- The error is a cycle, at whichever node. -/
def IsCycle (outcome : Except GenerationError String) : Prop := ∃ id, outcome = .error (.cycle id)

/-- The outcomes are equal, unless the first one is a cycle. -/
def SettledBy (outcome outcome' : Except GenerationError String) : Prop :=
  IsCycle outcome ∨ outcome = outcome'

/-- The same text, or the same error except for the node at which a cycle is reported. -/
inductive SameOutcome : Except GenerationError String → Except GenerationError String → Prop
  | text (t : String) : SameOutcome (.ok t) (.ok t)
  | error {e e' : GenerationError} (h : e.Alike e') : SameOutcome (.error e) (.error e')

/-- What a table holds for the node an operand refers to. -/
def below (table : Table) : Option Operand → Except GenerationError String
  | some (.node child) => table child
  | some (.leaf _) | none => .ok ""

/-- The outcome of writing the expression at a node, at most so many levels deep. -/
def textWithin (context : Context) : Nat → Table
  | 0, id => .error (.cycle id)
  | levels + 1, id =>
    match context.graph.node? id with
    | none => .error (.nodeOutOfRange id)
    | some node =>
      compose context id node (below (textWithin context levels) (Walk.Mode.fused.left? node))
        (below (textWithin context levels) (Walk.Mode.fused.right? node))

section

variable {context : Context} {id : NodeId} {node : Node} {levels : Nat}

theorem textWithin_node (hnode : context.graph.node? id = some node) (levels : Nat) :
    textWithin context (levels + 1) id =
      compose context id node (below (textWithin context levels) (Walk.Mode.fused.left? node))
        (below (textWithin context levels) (Walk.Mode.fused.right? node)) := by
  rw [textWithin, hnode]

/-- A descent appends the outcome for its levels. -/
theorem appends_descend (levels : Nat) (id : NodeId) :
    Appends (Walk.descend .fused context.graph (writer context.symbols context.format) levels id)
      (textWithin context levels id) := by
  induction levels generalizing id with
  | zero => exact fun out => ⟨out, rfl⟩
  | succ levels ih =>
    cases hnode : context.graph.node? id with
    | none =>
      rw [Walk.descend_outOfRange .fused _ levels hnode, textWithin, hnode]
      exact fun out => ⟨out, rfl⟩
    | some node =>
      rw [Walk.descend_node .fused _ levels hnode, textWithin_node hnode]
      refine appends_compose ?_ ?_
      · intro child hchild
        rw [hchild]
        exact ih child
      · intro child hchild
        rw [hchild]
        exact ih child

theorem text_eq_textWithin (context : Context) :
    text context = textWithin context (context.graph.size + 1) := by
  funext id
  exact text_eq_of_appends (appends_descend _ id)

/-! ## More levels -/

theorem isCycle_join_iff {first second : Except GenerationError String} :
    IsCycle (join first second) ↔ IsCycle first ∨ ∃ t, first = .ok t ∧ IsCycle second := by
  rcases first with e | t
  · simp [join, bind, Except.bind, IsCycle]
  · rcases second with e | t'
    · simp [join, bind, Except.bind, IsCycle]
    · simp [join, bind, Except.bind, pure, Except.pure, IsCycle]

theorem SettledBy.join {first first' second second' : Except GenerationError String}
    (hfirst : SettledBy first first') (hsecond : SettledBy second second') :
    SettledBy (join first second) (join first' second') := by
  rcases hfirst with hcycle | rfl
  · exact Or.inl (isCycle_join_iff.2 (Or.inl hcycle))
  rcases hsecond with hcycle | rfl
  · cases first with
    | ok t => exact Or.inl (isCycle_join_iff.2 (Or.inr ⟨t, rfl, hcycle⟩))
    | error e => exact Or.inr rfl
  · exact Or.inr rfl

theorem SettledBy.operandText {side : Side} {operand : Option Operand} {table table' : Table}
    (h : ∀ id, SettledBy (table id) (table' id)) :
    SettledBy (operandText context side id (below table operand) operand)
      (operandText context side id (below table' operand) operand) := by
  rcases operand with _ | _ | child
  · exact Or.inr rfl
  · exact Or.inr rfl
  · exact h child

/-- **More levels only ever change a cycle.** -/
theorem textWithin_le {levels levels' : Nat} (hle : levels ≤ levels') (id : NodeId) :
    SettledBy (textWithin context levels id) (textWithin context levels' id) := by
  induction levels generalizing levels' id with
  | zero => exact Or.inl ⟨id, rfl⟩
  | succ levels ih =>
    obtain ⟨more, rfl⟩ : ∃ more, levels' = more + 1 := ⟨levels' - 1, by omega⟩
    have hbelow := fun child => ih (by omega : levels ≤ more) child
    cases hnode : context.graph.node? id with
    | none =>
      right
      rw [textWithin, textWithin, hnode]
    | some node =>
      rw [textWithin_node hnode, textWithin_node hnode]
      refine .join (Or.inr rfl) (.join (.operandText hbelow) (.join (Or.inr rfl) ?_))
      exact .join (.operandText hbelow) (Or.inr rfl)

/-- An operand with a text on some level has it on all others that are deep enough. -/
theorem operandText_eq_ok_or_isCycle {side : Side} {operand : Option Operand} {levels : Nat}
    {t : String}
    (h : operandText context side id (below (textWithin context levels) operand) operand = .ok t)
    (levels' : Nat) :
    operandText context side id (below (textWithin context levels') operand) operand = .ok t ∨
      IsCycle
        (operandText context side id (below (textWithin context levels') operand) operand) := by
  rcases Nat.le_total levels levels' with hle | hle
  · rcases SettledBy.operandText (textWithin_le hle) with ⟨_, hcycle⟩ | heq
    · rw [h] at hcycle
      cases hcycle
    · exact Or.inl (heq ▸ h)
  · rcases SettledBy.operandText (textWithin_le hle) with hcycle | heq
    · exact Or.inr hcycle
    · exact Or.inl (heq.trans h)

/-! ## What a cycle comes from -/

theorem not_isCycle_token (operator : Operator) : ¬IsCycle operator.token := by
  rintro ⟨id, h⟩
  cases (Operator.token_eq_error_iff.1 h).2

theorem not_isCycle_access (symbols : SymbolTable) (format : AccessFormat) (id : NodeId)
    (side : Side) : ¬IsCycle (access symbols format id side) := by
  rintro ⟨id', h⟩
  unfold access at h
  split at h
  · cases h
  · rename_i e hlookup
    cases h
    cases (SymbolTable.lookup_eq_error_iff.1 hlookup).2

theorem not_isCycle_opening (node : Node) : ¬IsCycle (opening node) := by
  have htoken := not_isCycle_token node.operation.operator
  unfold opening
  cases node.operation.phrasing with
  | infixed => exact fun ⟨_, h⟩ => by cases h
  | kernelResult => exact fun ⟨_, h⟩ => by cases h
  | call =>
    cases hoperator : node.operation.operator.token with
    | ok name => exact fun ⟨_, h⟩ => by cases h
    | error e =>
      rintro ⟨id, h⟩
      cases h
      exact htoken ⟨id, hoperator⟩

theorem not_isCycle_middle (symbols : SymbolTable) (format : AccessFormat) (id : NodeId)
    (node : Node) : ¬IsCycle (middle symbols format id node) := by
  unfold middle
  cases node.operation.phrasing with
  | infixed => exact not_isCycle_token _
  | kernelResult => exact not_isCycle_access _ _ _ _
  | call => exact fun ⟨_, h⟩ => by cases h

theorem isCycle_operandText_iff {side : Side} {operand : Option Operand} {table : Table} :
    IsCycle (operandText context side id (below table operand) operand) ↔
      ∃ child, operand = some (.node child) ∧ IsCycle (table child) := by
  rcases operand with _ | _ | child
  · simp [operandText, IsCycle]
  · have := not_isCycle_access context.symbols context.format id side
    simpa [operandText] using this
  · simp [operandText, below]

/-- **A node that is too deep has an operand that is.**  All in front of the operand has a text. -/
theorem isCycle_compose_iff {table : Table} :
    IsCycle (compose context id node (below table (Walk.Mode.fused.left? node))
        (below table (Walk.Mode.fused.right? node))) ↔
      ∃ o, opening node = .ok o ∧
        ((∃ child, Walk.Mode.fused.left? node = some (.node child) ∧ IsCycle (table child)) ∨
          ∃ l m child,
            operandText context .left id (below table (Walk.Mode.fused.left? node))
              (Walk.Mode.fused.left? node) = .ok l ∧
            middle context.symbols context.format id node = .ok m ∧
            Walk.Mode.fused.right? node = some (.node child) ∧ IsCycle (table child)) := by
  have hopening := not_isCycle_opening node
  have hmiddle := not_isCycle_middle context.symbols context.format id node
  have hclosing : ¬IsCycle (.ok ")") := fun ⟨_, h⟩ => by cases h
  unfold compose
  simp only [isCycle_join_iff, isCycle_operandText_iff, hopening, hmiddle, hclosing, false_or,
    and_false, exists_false, or_false]
  constructor
  · rintro ⟨o, ho, hleft | ⟨l, hl, m, hm, child, hchild⟩⟩
    · exact ⟨o, ho, Or.inl hleft⟩
    · exact ⟨o, ho, Or.inr ⟨l, m, child, hl, hm, hchild⟩⟩
  · rintro ⟨o, ho, hleft | ⟨l, m, child, hl, hm, hchild⟩⟩
    · exact ⟨o, ho, Or.inl hleft⟩
    · exact ⟨o, ho, Or.inr ⟨l, hl, m, hm, child, hchild⟩⟩

end

end Expression

/-! ## Turning around -/

open Expression

/-- One node stays too deep for as long as the other one does, a level further down. -/
def Context.HoldsUp (context : Context) (parent child : NodeId) : Prop :=
  parent < context.graph.size ∧
    ∀ levels, IsCycle (textWithin context levels child) →
      IsCycle (textWithin context (levels + 1) parent)

namespace Expression

variable {context : Context} {id root : NodeId} {node : Node} {levels : Nat}

/-- A node that is too deep is held up by one of its operands. -/
theorem exists_holdsUp (hnode : context.graph.node? id = some node)
    (h : IsCycle (textWithin context (levels + 1) id)) :
    ∃ child, context.HoldsUp id child ∧ IsCycle (textWithin context levels child) := by
  rw [textWithin_node hnode, isCycle_compose_iff] at h
  obtain ⟨o, ho, ⟨child, hchild, hcycle⟩ | ⟨l, m, child, hl, hm, hchild, hcycle⟩⟩ := h
  · refine ⟨child, ⟨ExprGraph.node?_eq_some_lt hnode, fun levels' hcycle' => ?_⟩, hcycle⟩
    rw [textWithin_node hnode, isCycle_compose_iff]
    exact ⟨o, ho, Or.inl ⟨child, hchild, hcycle'⟩⟩
  · -- On other levels the left operand has the same text, or else it is what is too deep.
    refine ⟨child, ⟨ExprGraph.node?_eq_some_lt hnode, fun levels' hcycle' => ?_⟩, hcycle⟩
    rw [textWithin_node hnode, isCycle_compose_iff]
    rcases operandText_eq_ok_or_isCycle hl levels' with hl' | hleft
    · exact ⟨o, ho, Or.inr ⟨l, m, child, hl', hm, hchild, hcycle'⟩⟩
    · exact ⟨o, ho, Or.inl (isCycle_operandText_iff.1 hleft)⟩

/-- A cycle comes from as many nodes as there were levels, each held up by the next one. -/
theorem exists_trail_of_isCycle (h : IsCycle (textWithin context levels root)) :
    ∃ (trail : List NodeId) (last : NodeId), (trail ++ [last]).IsChain context.HoldsUp ∧
      (trail ++ [last]).head? = some root ∧ trail.length = levels := by
  induction levels generalizing root with
  | zero => exact ⟨[], root, List.isChain_singleton root, rfl, rfl⟩
  | succ levels ih =>
    cases hnode : context.graph.node? root with
    | none =>
      obtain ⟨_, h⟩ := h
      rw [textWithin, hnode] at h
      cases h
    | some node =>
      obtain ⟨child, hstep, hcycle⟩ := exists_holdsUp hnode h
      obtain ⟨trail, last, hchain, hchild, hlength⟩ := ih hcycle
      refine ⟨root :: trail, last, hchain.cons fun next hnext => ?_, rfl, by simp [hlength]⟩
      rw [hchild] at hnext
      cases hnext
      exact hstep

/-- A node that holds itself up is too deep on every level. -/
theorem isCycle_of_turn {turn : NodeId} (hcycle : TransGen context.HoldsUp turn turn)
    (levels : Nat) : IsCycle (textWithin context levels turn) := by
  induction levels generalizing turn with
  | zero => exact ⟨turn, rfl⟩
  | succ levels ih =>
    obtain ⟨next, hnext, hback⟩ := TransGen.head'_iff.1 hcycle
    exact hnext.2 levels (ih (TransGen.tail' hback hnext))

theorem isCycle_of_path {turn : NodeId} (hpath : ReflTransGen context.HoldsUp root turn)
    (hturn : ∀ levels, IsCycle (textWithin context levels turn)) (levels : Nat) :
    IsCycle (textWithin context levels root) := by
  induction hpath using ReflTransGen.head_induction_on generalizing levels with
  | refl => exact hturn levels
  | head hstep _ ih =>
    cases levels with
    | zero => exact ⟨_, rfl⟩
    | succ levels => exact hstep.2 levels (ih levels)

/-- **A cycle that is there with more levels than nodes is there with any.** -/
theorem isCycle_of_size (h : IsCycle (textWithin context (context.graph.size + 1) root))
    (levels : Nat) : IsCycle (textWithin context levels root) := by
  obtain ⟨trail, last, hchain, hroot, hlength⟩ := exists_trail_of_isCycle h
  obtain ⟨turn, hpath, hcycle, _⟩ := exists_turn_of_trail (fun _ _ hstep => hstep.1) hchain hroot
    (by omega : context.graph.size < trail.length)
  exact isCycle_of_path hpath (isCycle_of_turn hcycle) levels

/-! ## Putting a node together -/

theorem SameOutcome.refl (outcome : Except GenerationError String) :
    SameOutcome outcome outcome := by
  cases outcome with
  | ok t => exact .text t
  | error e => exact .error (.refl e)

/-- Another level makes no difference but for the node a cycle is reported at. -/
theorem sameOutcome_succ (context : Context) (id : NodeId) :
    SameOutcome (text context id) (textWithin context (context.graph.size + 2) id) := by
  rw [text_eq_textWithin]
  rcases textWithin_le (by omega : context.graph.size + 1 ≤ context.graph.size + 2) id with
    hcycle | heq
  · obtain ⟨id', hid'⟩ := isCycle_of_size hcycle (context.graph.size + 2)
    obtain ⟨id, hid⟩ := hcycle
    rw [hid, hid']
    exact .error (.cycle id id')
  · rw [heq]
    exact .refl _

/-- **Every node is put together from the outcomes of its operands,** also where there are cycles or
nodes are missing. -/
theorem sameOutcome_concat (hnode : context.graph.node? id = some node) :
    SameOutcome (text context id) (concat (parts context (text context) id node)) := by
  have hsucc := sameOutcome_succ context id
  rw [textWithin_node hnode, ← text_eq_textWithin] at hsucc
  rw [concat_parts]
  · exact hsucc
  · intro child hchild
    rw [hchild]
    rfl
  · intro child hchild
    rw [hchild]
    rfl

theorem sideText_eq_operandPart (context : Context) (id : NodeId) (side : Side)
    (operand : Operand) :
    sideText context id side (some operand) =
      operandPart context (text context) id side operand := by
  cases operand <;> rfl

/-- **An expression is put together from its two sides,** each written on its own.  For an operator
between operands the left side comes first, then the token, then the right side; for a function the
token comes in front.  The first part that fails makes the error, and only the node at which a cycle
is reported may be another one. -/
theorem text_from_sides (hnode : context.graph.node? root = some node)
    (hright : node.right.isSome = true) (hinline : node.operation.needsKernel = false) :
    (node.operation.phrasing = .infixed →
      SameOutcome (text context root) (concat [.ok "(", leftText context root,
        node.operation.operator.token, rightText context root, .ok ")"])) ∧
    (node.operation.phrasing = .call →
      SameOutcome (text context root) (concat [node.operation.operator.token, .ok "(",
        leftText context root, .ok ",", rightText context root, .ok ")"])) := by
  obtain ⟨right, hsome⟩ := Option.isSome_iff_exists.1 hright
  have hleftText : leftText context root =
      operandPart context (text context) root .left node.left := by
    unfold leftText
    rw [ExprGraph.node_eq_ok_iff.2 hnode]
    exact sideText_eq_operandPart ..
  have hrightText : rightText context root =
      operandPart context (text context) root .right right := by
    unfold rightText
    rw [ExprGraph.node_eq_ok_iff.2 hnode, ← sideText_eq_operandPart, ← hsome]
  have hparts := sameOutcome_concat hnode
  unfold parts at hparts
  rw [hleftText, hrightText]
  constructor
  · intro hphrasing
    simpa [hphrasing, hinline, hsome] using hparts
  · intro hphrasing
    simpa [hphrasing, hinline, hsome] using hparts

/-- A sum and a power that use each other. -/
def crossedLoop : Context where
  graph := ⟨#[⟨.canonical .add, .node 1, some Walk.anyLeaf⟩,
    ⟨.canonical .pow, Walk.anyLeaf, some (.node 0)⟩]⟩
  symbols := .ofList [((1, .left), .hostScalar "x")]
  format := .standard

/-- The whole expression names one of the two nodes, and the side of it names the other one. -/
theorem crossedLoop_from_sides :
    crossedLoop.graph.node? 0 = some ⟨.canonical .add, .node 1, some Walk.anyLeaf⟩ ∧
      (Operation.canonical .add).needsKernel = false ∧
      text crossedLoop 0 = .error (.cycle 1) ∧ leftText crossedLoop 0 = .error (.cycle 0) ∧
      SameOutcome (text crossedLoop 0) (concat [.ok "(", leftText crossedLoop 0, .ok "+",
        rightText crossedLoop 0, .ok ")"]) ∧
      SameOutcome (text crossedLoop 1) (concat [.ok "pow", .ok "(", leftText crossedLoop 1,
        .ok ",", rightText crossedLoop 1, .ok ")"]) := by
  have hsum : crossedLoop.graph.node? 0 =
    some ⟨.canonical .add, .node 1, some Walk.anyLeaf⟩ := rfl
  have hpow : crossedLoop.graph.node? 1 =
    some ⟨.canonical .pow, Walk.anyLeaf, some (.node 0)⟩ := rfl
  refine ⟨hsum, rfl, rfl, rfl, ?_, ?_⟩
  · exact (text_from_sides hsum rfl rfl).1 rfl
  · exact (text_from_sides hpow rfl rfl).2 rfl

end Expression

end FusedKernel
