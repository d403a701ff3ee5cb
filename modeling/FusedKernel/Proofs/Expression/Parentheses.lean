import FusedKernel.Proofs.Expression.Formula

/-!
# The pair of parentheses around a text

Whatever an expression is put together from, its text ends with the parenthesis that closes the
first one it opens.  So it keeps together wherever it is inserted, as long as the symbols in it
keep their own parentheses in order.  This does not depend on the tags of the operations.

* `IsBalanced` — the parentheses of a text belong together in pairs.
* `ClosedAt` — which parenthesis closes the one at a given position.
* `Expression.Enclosed` — a text in parentheses, perhaps behind the name of a function.

Principal results: `enclosed_compose` — a node is put into parentheses; `balanced_of_unfolds` — so
is everything below; `text_parenthesised` — a text and the pair around it.
-/

set_option autoImplicit false

namespace FusedKernel

open Relation

/-! ## Balanced texts -/

/-- As many parentheses are closed as are opened, and at no point more of them. -/
structure IsBalanced (text : List Char) : Prop where
  total : text.count '(' = text.count ')'
  fronts : ∀ n, (text.take n).count ')' ≤ (text.take n).count '('

/-- The parenthesis at one position is closed by the one at another position, and not before. -/
structure ClosedAt (text : List Char) (first last : Nat) : Prop where
  inside : ∀ n, 0 < n → n ≤ last - first →
    ((text.drop first).take n).count ')' < ((text.drop first).take n).count '('
  total : ((text.drop first).take (last - first + 1)).count '(' =
    ((text.drop first).take (last - first + 1)).count ')'

namespace IsBalanced

variable {a b text body : List Char}

instance (text : List Char) : Decidable (IsBalanced text) :=
  decidable_of_iff (text.count '(' = text.count ')' ∧
      ∀ n < text.length, (text.take n).count ')' ≤ (text.take n).count '(') <| by
    constructor
    · rintro ⟨htotal, hfronts⟩
      refine ⟨htotal, fun n => ?_⟩
      by_cases hn : n < text.length
      · exact hfronts n hn
      · rw [List.take_of_length_le (Nat.le_of_not_lt hn)]
        exact Nat.le_of_eq htotal.symm
    · intro h
      exact ⟨h.total, fun n _ => h.fronts n⟩

theorem append (ha : IsBalanced a) (hb : IsBalanced b) : IsBalanced (a ++ b) := by
  constructor
  · rw [List.count_append, List.count_append, ha.total, hb.total]
  · intro n
    rw [List.take_append, List.count_append, List.count_append]
    exact Nat.add_le_add (ha.fronts n) (hb.fronts _)

/-- What stands behind the parenthesis that closes a balanced text does not matter. -/
theorem count_take_enclosed (h : IsBalanced body) (behind : List Char) {n : Nat} (hpos : 0 < n)
    (hn : n ≤ body.length + 1) :
    (('(' :: (body ++ ')' :: behind)).take n).count ')' <
      (('(' :: (body ++ ')' :: behind)).take n).count '(' := by
  obtain ⟨k, rfl⟩ : ∃ k, n = k + 1 := ⟨n - 1, by omega⟩
  have hfront := h.fronts k
  rw [List.take_succ_cons, List.take_append_of_le_length (by omega), List.count_cons,
    List.count_cons_self, if_neg (by decide)]
  omega

theorem enclosed (h : IsBalanced body) : IsBalanced ('(' :: (body ++ [')'])) := by
  have htotal : ('(' :: (body ++ [')'])).count '(' = ('(' :: (body ++ [')'])).count ')' := by
    simp [List.count_append, h.total]
  refine ⟨htotal, fun n => ?_⟩
  rcases Nat.eq_zero_or_pos n with rfl | hpos
  · simp
  · by_cases hn : n ≤ body.length + 1
    · exact Nat.le_of_lt (h.count_take_enclosed [] hpos hn)
    · rw [List.take_of_length_le (by simp; omega)]
      exact Nat.le_of_eq htotal.symm

/-- **A pair of parentheses around a balanced text is a pair wherever it stands.** -/
theorem closedAt (h : IsBalanced body) (front behind : List Char) :
    ClosedAt (front ++ '(' :: (body ++ ')' :: behind)) front.length
      (front.length + body.length + 1) := by
  have hdrop : (front ++ '(' :: (body ++ ')' :: behind)).drop front.length =
      '(' :: (body ++ ')' :: behind) := by
    simp
  have hlast : front.length + body.length + 1 - front.length = body.length + 1 := by omega
  constructor
  · intro n hpos hn
    rw [hdrop]
    exact h.count_take_enclosed behind hpos (hlast ▸ hn)
  · have htake : ('(' :: (body ++ ')' :: behind)).take (body.length + 1 + 1) =
        '(' :: (body ++ [')']) := by
      simp [List.take_append, List.take_of_length_le]
    rw [hdrop, hlast, htake]
    exact h.enclosed.total

end IsBalanced

/-- No operator is written with parentheses. -/
theorem Operator.balanced_token {operator : Operator} {token : String}
    (h : operator.token? = some token) : IsBalanced token.toList := by
  cases operator <;> simp only [Operator.token?, Option.some.injEq, reduceCtorEq] at h <;>
    subst h <;> decide

/-! ## Texts of expressions -/

namespace Expression

variable {context : Context} {root id : NodeId} {node : Node}

/-- Balanced in parentheses, with nothing in front but, if at all, the token of the node. -/
structure Enclosed (node : Node) (callee body t : String) : Prop where
  parts : t = callee ++ "(" ++ body ++ ")"
  front : callee = "" ∨ node.operation.operator.token? = some callee
  inside : IsBalanced body.toList

theorem Enclosed.balanced {callee body t : String} (h : Enclosed node callee body t) :
    IsBalanced t.toList := by
  obtain ⟨rfl, hcallee, hbody⟩ := h
  have hfront : IsBalanced callee.toList := by
    rcases hcallee with rfl | htoken
    · decide
    · exact Operator.balanced_token htoken
  have hsplit : (callee ++ "(" ++ body ++ ")").toList =
      callee.toList ++ '(' :: (body.toList ++ [')']) := by
    simp
  rw [hsplit]
  exact hfront.append hbody.enclosed

theorem exists_callee_of_opening {o : String} (h : opening node = .ok o) :
    ∃ callee, o = callee ++ "(" ∧
      (callee = "" ∨ node.operation.operator.token? = some callee) := by
  unfold opening at h
  cases hphrasing : node.operation.phrasing with
  | infixed =>
    rw [hphrasing] at h
    cases h
    exact ⟨"", rfl, Or.inl rfl⟩
  | kernelResult =>
    rw [hphrasing] at h
    cases h
    exact ⟨"", rfl, Or.inl rfl⟩
  | call =>
    rw [hphrasing] at h
    cases htoken : node.operation.operator.token with
    | error e => rw [htoken] at h; cases h
    | ok name =>
      rw [htoken] at h
      cases h
      exact ⟨name, rfl, Or.inr (Operator.token_eq_ok_iff.1 htoken)⟩

/-- Between the operands stands a token, a comma, or the symbol of a result. -/
theorem balanced_middle (hrenders : context.Renders (fun shown => IsBalanced shown.toList) root)
    (hmeets : context.Meets root id) (hnode : context.graph.node? id = some node) {m : String}
    (hm : middle context.symbols context.format id node = .ok m) : IsBalanced m.toList := by
  unfold middle at hm
  cases hphrasing : node.operation.phrasing with
  | kernelResult =>
    rw [hphrasing] at hm
    obtain ⟨symbol, hsymbol, rfl⟩ := access_eq_ok_iff.1 hm
    exact hrenders id .self symbol ⟨hmeets, node, hnode, hphrasing⟩ hsymbol
  | infixed =>
    rw [hphrasing] at hm
    exact Operator.balanced_token (Operator.token_eq_ok_iff.1 hm)
  | call =>
    rw [hphrasing] at hm
    cases hm
    split <;> decide

/-- **A node is put into parentheses,** and keeps those of its operands in order. -/
theorem enclosed_compose {left right : Except GenerationError String} {t : String}
    (ht : compose context id node left right = .ok t)
    (hleft : ∀ l, operandText context .left id left (Walk.Mode.fused.left? node) = .ok l →
      IsBalanced l.toList)
    (hmiddle : ∀ m, middle context.symbols context.format id node = .ok m →
      IsBalanced m.toList)
    (hright : ∀ r, operandText context .right id right (Walk.Mode.fused.right? node) = .ok r →
      IsBalanced r.toList) :
    ∃ callee body, Enclosed node callee body t := by
  obtain ⟨o, l, m, r, ho, hl, hm, hr, rfl⟩ := exists_of_compose_eq_ok ht
  obtain ⟨callee, rfl, hcallee⟩ := exists_callee_of_opening ho
  refine ⟨callee, l ++ m ++ r, ?_, hcallee, ?_⟩
  · simp only [String.append_assoc]
  · rw [String.toList_append, String.toList_append]
    exact ((hleft l hl).append (hmiddle m hm)).append (hright r hr)

/-- By induction on the tree of an operand.  A node at its top is enclosed, whatever is read by the
nodes below. -/
theorem balanced_of_unfolds
    (hrenders : context.Renders (fun shown => IsBalanced shown.toList) root) {tree : Unfolding}
    {operand : Option Operand} (h : Unfolds .fused context.graph operand tree) {parent : NodeId}
    {side : Side} {t : String}
    (hmeets : ∀ child, operand = some (.node child) → context.Meets root child)
    (hreads : ∀ leaf, operand = some (.leaf leaf) → context.Reads root parent side)
    (ht : operandText context side parent (tree.text context) operand = .ok t) :
    IsBalanced t.toList ∧ ∀ id, operand = some (.node id) →
      ∃ node callee body, context.graph.node? id = some node ∧ Enclosed node callee body t := by
  induction h generalizing parent side t with
  | none =>
    cases ht
    exact ⟨by decide, by simp⟩
  | leaf leaf =>
    obtain ⟨symbol, hsymbol, rfl⟩ := access_eq_ok_iff.1 ht
    exact ⟨hrenders _ _ _ (hreads leaf rfl) hsymbol, by simp⟩
  | @node id node left right hnode _ _ ihleft ihright =>
    have hmeet : context.Meets root id := hmeets id rfl
    have hleft : ∀ leaf, Walk.Mode.fused.left? node = some (.leaf leaf) →
        context.Reads root id .left := fun leaf hleaf => ⟨hmeet, node, hnode, leaf, hleaf⟩
    have hright : ∀ leaf, Walk.Mode.fused.right? node = some (.leaf leaf) →
        context.Reads root id .right := fun leaf hleaf => ⟨hmeet, node, hnode, leaf, hleaf⟩
    obtain ⟨callee, body, henclosed⟩ := enclosed_compose ht
      (fun l hl =>
        (ihleft (fun child hchild => hmeet.tail ⟨node, hnode, Or.inl hchild⟩) hleft hl).1)
      (fun m hm => balanced_middle hrenders hmeet hnode hm)
      (fun r hr =>
        (ihright (fun child hchild => hmeet.tail ⟨node, hnode, Or.inr hchild⟩) hright hr).1)
    refine ⟨henclosed.balanced, ?_⟩
    intro id' hid
    cases hid
    exact ⟨node, callee, body, hnode, henclosed⟩

/-- **The pair of parentheses around a text.**  Where all symbols that are read have their
parentheses in order, a text is one in parentheses, behind nothing or the token of its node.  In
whatever the text is inserted, its last character closes the parenthesis it opens. -/
theorem text_parenthesised {t : String}
    (hrenders : context.Renders (fun shown => IsBalanced shown.toList) root)
    (ht : text context root = .ok t) :
    ∃ node callee body, context.graph.node? root = some node ∧
      t = callee ++ "(" ++ body ++ ")" ∧
      (callee = "" ∨ node.operation.operator.token? = some callee) ∧
      IsBalanced body.toList ∧
      ∀ front behind : String, ClosedAt (front ++ t ++ behind).toList
        (front.length + callee.length) (front.length + t.length - 1) := by
  obtain ⟨tree, hunfolds, htree⟩ := exists_tree_of_text ht
  have hroot : ∀ child, some (Operand.node root) = some (.node child) →
      context.Meets root child := by
    intro child hchild
    cases hchild
    exact ReflTransGen.refl
  have hleaf : ∀ leaf, some (Operand.node root) = some (.leaf leaf) →
      context.Reads root root .self := by simp
  obtain ⟨node, callee, body, hnode, rfl, hcallee, hbody⟩ :=
    (balanced_of_unfolds hrenders hunfolds hroot hleaf htree).2 root rfl
  refine ⟨node, callee, body, hnode, rfl, hcallee, hbody, ?_⟩
  intro front behind
  have hpair := hbody.closedAt (front.toList ++ callee.toList) behind.toList
  have hlast : front.length + (callee ++ "(" ++ body ++ ")").length - 1 =
      front.length + callee.length + body.length + 1 := by
    simp only [String.length_append, show "(".length = 1 from rfl, show ")".length = 1 from rfl]
    omega
  rw [hlast]
  simpa [String.length_toList] using hpair

/-- The larger one of a given access and of a reduced power.  The reduction is phrased as a call. -/
def reducedPower : Context where
  graph := ⟨#[⟨⟨.rowsReduction, .call, .pow⟩, Walk.anyLeaf, some Walk.anyLeaf⟩,
    ⟨.canonical .max, Walk.anyLeaf, some (.node 0)⟩]⟩
  symbols := .ofList [((1, .left), .verbatim "f(x)")]
  format := .standard

theorem reducedPower_parenthesised :
    reducedPower.Renders (fun shown => IsBalanced shown.toList) 1 ∧
      text reducedPower 1 = .ok "fmax(f(x),pow(,))" ∧
      ∀ front behind : String, ClosedAt (front ++ "fmax(f(x),pow(,))" ++ behind).toList
        (front.length + 4) (front.length + 16) := by
  have hrenders : reducedPower.Renders (fun shown => IsBalanced shown.toList) 1 :=
    Context.renders_of_entries 1 (by decide)
  have htext : text reducedPower 1 = .ok "fmax(f(x),pow(,))" := by rfl
  refine ⟨hrenders, htext, ?_⟩
  obtain ⟨node, callee, body, hnode, ht, hcallee, _, hclosed⟩ :=
    text_parenthesised hrenders htext
  cases hnode
  rcases hcallee with rfl | htoken
  · have hhead := congrArg (·.toList.head?) ht
    simp at hhead
  · cases htoken
    exact hclosed

end Expression

end FusedKernel
