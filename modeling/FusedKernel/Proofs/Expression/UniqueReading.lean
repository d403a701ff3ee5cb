import FusedKernel.Proofs.Expression.Formula

/-!
# A text can be read in one way only

The parentheses around each node keep texts apart.  If leaves and results are shown as words, a
text determines the formula it is the text of, and so what the expression means, although graphs
and tables may differ that lead to the same text.

A formula is read from the left: a word, possibly empty, then what follows it.  Whether there is
a parenthesis, and what stands behind it, tells which kind of formula it is.

* `Formula.name`, `Formula.body` — the word a formula begins with, and what comes then.
* `EndsFormula` — what may stand behind a formula.

Principal results: `chars_append_inj` — a formula ends in one place only, and is known there;
`formula_eq_of_text_eq` — expressions with the same text mean the same.
-/

set_option autoImplicit false

namespace FusedKernel

/-- What stands behind a formula neither goes on with a word nor opens a parenthesis. -/
def EndsFormula (rest : List Char) : Prop := EndsRun (fun c => isWordChar c || c == '(') rest

theorem EndsFormula.endsWord {rest : List Char} (h : EndsFormula rest) :
    EndsRun isWordChar rest := by
  intro c tail heq
  have hc := h c tail heq
  rw [Bool.or_eq_false_iff] at hc
  exact hc.1

theorem EndsFormula.ne_paren {rest tail : List Char} (h : EndsFormula rest) :
    rest ≠ '(' :: tail := by
  intro heq
  have hparen := h '(' tail heq
  simp at hparen

theorem endsFormula_close (rest : List Char) : EndsFormula (')' :: rest) :=
  endsRun_cons (by decide)

/-- Symbols are apart from words and from parentheses. -/
theorem not_word_of_symbol {c : Char} (h : isSymbolChar c = true) :
    (isWordChar c || c == '(') = false ∧ c ≠ ')' := by
  have hmem : c ∈ ['=', '+', '-', '*', '/', '[', ']'] := List.contains_iff_mem.1 h
  simp only [List.mem_cons, List.not_mem_nil, or_false] at hmem
  rcases hmem with rfl | rfl | rfl | rfl | rfl | rfl | rfl <;> decide

theorem not_symbol_of_word {c : Char} (h : isWordChar c = true) : isSymbolChar c = false := by
  cases hsymbol : isSymbolChar c with
  | false => rfl
  | true =>
    have hword := (not_word_of_symbol hsymbol).1
    rw [h] at hword
    cases hword

namespace Formula

/-- The word a formula begins with. -/
def name : Formula → List Char
  | absent => []
  | leaf text => text.toList
  | result _ => []
  | inlined operator _ _ => operator.callee

/-- What comes after the word when `rest` stands behind the formula. -/
def body : Formula → List Char → List Char
  | absent, rest => rest
  | leaf _, rest => rest
  | result text, rest => '(' :: (text.toList ++ ')' :: rest)
  | inlined operator left right, rest =>
    '(' :: (left.chars ++ (operator.separator right.isPresent ++ (right.chars ++ ')' :: rest)))

variable {p q : Formula} {rest rest' : List Char}

theorem chars_append (p : Formula) (rest : List Char) :
    p.chars ++ rest = p.name ++ p.body rest := by
  cases p <;> simp [chars, name, body]

theorem name_wordChar (h : p.WellSpelled IsWord) : ∀ c ∈ p.name, isWordChar c = true := by
  cases p with
  | absent => simp [name]
  | leaf text => exact h.2
  | result text => simp [name]
  | inlined operator left right => exact operator.callee_wordChar

theorem body_endsWord (p : Formula) (hrest : EndsFormula rest) :
    EndsRun isWordChar (p.body rest) := by
  cases p with
  | absent => exact hrest.endsWord
  | leaf text => exact hrest.endsWord
  | result text => exact endsRun_cons (by decide)
  | inlined operator left right => exact endsRun_cons (by decide)

/-- The first word of two formulas is the same where their texts are. -/
theorem name_body_inj (hp : p.WellSpelled IsWord) (hq : q.WellSpelled IsWord)
    (hrest : EndsFormula rest) (hrest' : EndsFormula rest')
    (heq : p.chars ++ rest = q.chars ++ rest') :
    p.name = q.name ∧ p.body rest = q.body rest' := by
  rw [chars_append, chars_append] at heq
  exact run_append_inj (name_wordChar hp) (name_wordChar hq) (body_endsWord p hrest)
    (body_endsWord q hrest') heq

/-- Behind an operator that is a symbol, the right operand does not look like more of it. -/
theorem chars_endsSymbol (h : p.WellSpelled IsWord) (rest : List Char) :
    EndsRun isSymbolChar (p.chars ++ ')' :: rest) := by
  rw [chars_append]
  have hname : ∀ c ∈ p.name, isSymbolChar c = false := by
    intro c hc
    exact not_symbol_of_word (name_wordChar h c hc)
  apply endsRun_append hname
  intro _
  cases p with
  | absent => exact endsRun_cons (by decide)
  | leaf text => exact endsRun_cons (by decide)
  | result text => exact endsRun_cons (by decide)
  | inlined operator left right => exact endsRun_cons (by decide)

/-! ## What separates two operands -/

variable {operator operator' : Operator} {left right right' : Formula}

theorem separator_endsFormula (hinline : operator.IsInline) (right : Formula)
    (rest : List Char) :
    EndsFormula (operator.separator right.isPresent ++ (right.chars ++ ')' :: rest)) := by
  unfold Operator.separator
  cases hphrasing : (Operation.canonical operator).phrasing with
  | kernelResult => exact absurd hphrasing hinline.2
  | infixed =>
    obtain ⟨hne, hsymbol⟩ := Operator.spelling_symbolChar hinline hphrasing
    apply endsRun_append
    · intro c hc
      exact (not_word_of_symbol (hsymbol c hc)).1
    · intro hnil
      exact absurd hnil hne
  | call =>
    cases right with
    | absent => exact endsFormula_close rest
    | leaf text => exact endsRun_cons (by decide)
    | result text => exact endsRun_cons (by decide)
    | inlined _ _ _ => exact endsRun_cons (by decide)

/-- The operator is known from the name in front and the symbol between the operands. -/
theorem separator_append_inj (hinline : operator.IsInline) (hinline' : operator'.IsInline)
    (hright : right.WellSpelled IsWord) (hright' : right'.WellSpelled IsWord)
    (hcallee : operator.callee = operator'.callee)
    (heq : operator.separator right.isPresent ++ (right.chars ++ ')' :: rest) =
      operator'.separator right'.isPresent ++ (right'.chars ++ ')' :: rest')) :
    operator = operator' ∧ right.chars ++ ')' :: rest = right'.chars ++ ')' :: rest' := by
  have hiff : (Operation.canonical operator).phrasing = .infixed ↔
      (Operation.canonical operator').phrasing = .infixed := by
    rw [← Operator.callee_eq_nil_iff hinline, ← Operator.callee_eq_nil_iff hinline', hcallee]
  cases hphrasing : (Operation.canonical operator).phrasing with
  | kernelResult => exact absurd hphrasing hinline.2
  | infixed =>
    have hphrasing' := hiff.1 hphrasing
    unfold Operator.separator at heq
    rw [hphrasing, hphrasing'] at heq
    obtain ⟨hspelling, hrest⟩ := run_append_inj
      (Operator.spelling_symbolChar hinline hphrasing).2
      (Operator.spelling_symbolChar hinline' hphrasing').2
      (chars_endsSymbol hright rest) (chars_endsSymbol hright' rest') heq
    exact ⟨Operator.spelling_injective hinline hinline' hspelling, hrest⟩
  | call =>
    have hphrasing' : (Operation.canonical operator').phrasing = .call := by
      cases hcase : (Operation.canonical operator').phrasing with
      | kernelResult => exact absurd hcase hinline'.2
      | infixed => rw [hiff.2 hcase] at hphrasing; cases hphrasing
      | call => rfl
    unfold Operator.callee at hcallee
    unfold Operator.separator at heq
    rw [hphrasing, hphrasing'] at hcallee heq
    refine ⟨Operator.spelling_injective hinline hinline' hcallee, ?_⟩
    -- A comma on one side only would meet the closing parenthesis on the other one.
    cases right <;> cases right' <;> simp_all [isPresent, chars]

/-! ## Reading a formula -/

/-- A word in parentheses is a result, not an operator applied to something. -/
theorem word_append_ne {text : String} (htext : IsWord text) (hleft : left.WellSpelled IsWord)
    (hinline : operator.IsInline) (hphrasing : (Operation.canonical operator).phrasing = .infixed) :
    text.toList ++ ')' :: rest ≠
      left.chars ++ (operator.separator right.isPresent ++ (right.chars ++ ')' :: rest')) := by
  intro heq
  have hends := separator_endsFormula hinline right rest'
  rw [chars_append] at heq
  obtain ⟨hname, hbody⟩ := run_append_inj htext.2 (name_wordChar hleft)
    (endsFormula_close rest).endsWord (body_endsWord left hends) heq
  cases left with
  | absent => exact htext.toList_ne_nil hname
  | result text' => cases hbody
  | inlined _ _ _ => cases hbody
  | leaf text' =>
    -- Behind a leaf stands the symbol, which is no parenthesis.
    obtain ⟨hne, hspelling⟩ := Operator.spelling_symbolChar hinline hphrasing
    obtain ⟨c, tail, hcons⟩ := List.exists_cons_of_ne_nil hne
    unfold Operator.separator at hbody
    rw [hphrasing, hcons] at hbody
    cases hbody
    have hclose : isSymbolChar ')' = true := hspelling ')' (hcons ▸ List.mem_cons_self ..)
    exact (not_word_of_symbol hclose).2 rfl

/-- **A formula ends in one place only, and is known there.**  Both formulas are split into the
first word and the rest; only formulas of the same kind agree on both. -/
theorem chars_append_inj (hp : p.WellSpelled IsWord) (hq : q.WellSpelled IsWord)
    (hrest : EndsFormula rest) (hrest' : EndsFormula rest')
    (heq : p.chars ++ rest = q.chars ++ rest') : p = q ∧ rest = rest' := by
  induction p generalizing q rest rest' with
  | absent =>
    obtain ⟨hname, hbody⟩ := name_body_inj hp hq hrest hrest' heq
    cases q with
    | absent => exact ⟨rfl, hbody⟩
    | leaf text => exact absurd hname.symm (IsWord.toList_ne_nil hq)
    | result text => exact absurd hbody hrest.ne_paren
    | inlined _ _ _ => exact absurd hbody hrest.ne_paren
  | leaf text =>
    obtain ⟨hname, hbody⟩ := name_body_inj hp hq hrest hrest' heq
    cases q with
    | absent => exact absurd hname (IsWord.toList_ne_nil hp)
    | leaf text' =>
      rw [name, name, String.toList_inj] at hname
      exact ⟨hname ▸ rfl, hbody⟩
    | result text => exact absurd hbody hrest.ne_paren
    | inlined _ _ _ => exact absurd hbody hrest.ne_paren
  | result text =>
    obtain ⟨hname, hbody⟩ := name_body_inj hp hq hrest hrest' heq
    cases q with
    | absent => exact absurd hbody.symm hrest'.ne_paren
    | leaf text' => exact absurd hbody.symm hrest'.ne_paren
    | result text' =>
      have hinner : text.toList ++ ')' :: rest = text'.toList ++ ')' :: rest' :=
        (List.cons.inj hbody).2
      have hends := (endsFormula_close rest).endsWord
      have hends' := (endsFormula_close rest').endsWord
      obtain ⟨htext, hclose⟩ := run_append_inj hp.2 hq.2 hends hends' hinner
      rw [String.toList_inj] at htext
      exact ⟨htext ▸ rfl, (List.cons.inj hclose).2⟩
    | inlined operator left right =>
      obtain ⟨hinline, hleft, _⟩ := hq
      have hphrasing := (Operator.callee_eq_nil_iff hinline).1 hname.symm
      exact absurd (List.cons.inj hbody).2 (word_append_ne hp hleft hinline hphrasing)
  | inlined operator left right ihleft ihright =>
    obtain ⟨hname, hbody⟩ := name_body_inj hp hq hrest hrest' heq
    obtain ⟨hinline, hleft, hright⟩ := hp
    cases q with
    | absent => exact absurd hbody.symm hrest'.ne_paren
    | leaf text' => exact absurd hbody.symm hrest'.ne_paren
    | result text' =>
      have hphrasing := (Operator.callee_eq_nil_iff hinline).1 hname
      exact absurd (List.cons.inj hbody).2.symm (word_append_ne hq hleft hinline hphrasing)
    | inlined operator' left' right' =>
      obtain ⟨hinline', hleft', hright'⟩ := hq
      -- Past the parenthesis: the left operands, what separates, the right operands.
      have hends := separator_endsFormula hinline right rest
      have hends' := separator_endsFormula hinline' right' rest'
      obtain ⟨rfl, hseparator⟩ := ihleft hleft hleft' hends hends' (List.cons.inj hbody).2
      obtain ⟨rfl, htail⟩ :=
        separator_append_inj hinline hinline' hright hright' hname hseparator
      have hclose := endsFormula_close rest
      have hclose' := endsFormula_close rest'
      obtain ⟨rfl, hend⟩ := ihright hright hright' hclose hclose' htail
      exact ⟨rfl, (List.cons.inj hend).2⟩

end Formula

/-! ## Expressions with the same text -/

namespace Expression

/-- **Expressions with the same text mean the same.**  Their operations have the usual tags, and
whatever is read for them is rendered to a word. -/
theorem formula_eq_of_text_eq {context context' : Context} {root root' : NodeId} {t : String}
    (hcanonical : context.Canonical root) (hwords : context.Renders IsWord root)
    (hcanonical' : context'.Canonical root') (hwords' : context'.Renders IsWord root')
    (ht : text context root = .ok t) (ht' : text context' root' = .ok t) :
    ∃ formula, (∀ said, context.Denotes root said ↔ said = formula) ∧
      ∀ said, context'.Denotes root' said ↔ said = formula := by
  obtain ⟨formula, hdenotes, hspelled, hchars⟩ := exists_formula_of_text hcanonical hwords ht
  obtain ⟨formula', hdenotes', hspelled', hchars'⟩ := exists_formula_of_text hcanonical' hwords' ht'
  have heq : formula.chars ++ [')'] = formula'.chars ++ [')'] := by rw [hchars, hchars']
  obtain ⟨rfl, _⟩ := Formula.chars_append_inj hspelled hspelled' (endsFormula_close [])
    (endsFormula_close []) heq
  exact ⟨formula, hdenotes.iff_eq, hdenotes'.iff_eq⟩

/-- A power from which an inner product is subtracted. -/
def powerMinusProduct : Context where
  graph := ⟨#[⟨.canonical .pow, Walk.anyLeaf, some Walk.anyLeaf⟩,
    ⟨.canonical .innerProduct, Walk.anyLeaf, none⟩, ⟨.canonical .sub, .node 0, some (.node 1)⟩]⟩
  symbols := .ofList [((0, .left), .hostScalar "a"), ((0, .right), .hostScalar "b"),
    ((1, .self), .verbatim "p")]
  format := .standard

/-- The same power, and a product of another kind with a result of the same name. -/
def powerMinusResult : Context where
  graph := ⟨#[⟨.canonical .matrixProduct, Walk.anyLeaf, some Walk.anyLeaf⟩,
    ⟨.canonical .sub, .node 2, some (.node 0)⟩, ⟨.canonical .pow, Walk.anyLeaf, some Walk.anyLeaf⟩]⟩
  symbols := .ofList [((2, .left), .constant "a"), ((2, .right), .verbatim "b"),
    ((0, .self), .hostScalar "p")]
  format := .ofIndices "r" "c"

theorem powerMinusProduct_denotes :
    text powerMinusProduct 2 = .ok "(pow(a,b)-(p))" ∧
      text powerMinusResult 1 = .ok "(pow(a,b)-(p))" ∧
      ∃ formula, (∀ said, powerMinusProduct.Denotes 2 said ↔ said = formula) ∧
        ∀ said, powerMinusResult.Denotes 1 said ↔ said = formula := by
  have htext : text powerMinusProduct 2 = .ok "(pow(a,b)-(p))" := by rfl
  have htext' : text powerMinusResult 1 = .ok "(pow(a,b)-(p))" := by rfl
  exact ⟨htext, htext', formula_eq_of_text_eq (Context.canonical_of_nodes 2 (by decide))
    (Context.renders_of_entries 2 (by decide)) (Context.canonical_of_nodes 1 (by decide))
    (Context.renders_of_entries 1 (by decide)) htext htext'⟩

end Expression

end FusedKernel
