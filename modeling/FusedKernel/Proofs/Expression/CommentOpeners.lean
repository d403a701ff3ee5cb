import FusedKernel.Proofs.Expression.Formula

/-!
# Texts that open a comment

A text is inserted into kernel source, where `/*` or `//` would make a comment of what follows.
Only a division writes a slash, so an opener can only arise where a division meets its right
operand.  No operand begins with a slash; the access to a scalar argument begins with an
asterisk.

* `OpensComment` — the text holds one of the two openers.
* `Symbol.Identified`, `AccessFormat.Identified` — the parts of an access are words.
* `Context.DividesByScalar` — a division has a scalar argument on its right.

Principal results: `slash_infix_iff` — where a slash is followed by which character;
`opensComment_iff` — which texts open a comment.
-/

set_option autoImplicit false

namespace FusedKernel

open Relation

/-- Within kernel source, a comment begins somewhere in the text. -/
def OpensComment (t : String) : Prop := ['/', '*'] <:+: t.toList ∨ ['/', '/'] <:+: t.toList

/-- A pair cannot begin in front of the place where its first character occurs. -/
theorem slash_infix_append {mark : Char} {piece rest : List Char} (h : '/' ∉ piece) :
    ['/', mark] <:+: piece ++ rest ↔ ['/', mark] <:+: rest := by
  induction piece with
  | nil => rfl
  | cons c piece ih =>
    rw [List.mem_cons, not_or] at h
    rw [List.cons_append, List.infix_cons_iff, List.cons_prefix_cons, ih h.2]
    apply or_iff_right
    intro hprefix
    exact h.1 hprefix.1

theorem slash_infix_cons {mark : Char} {rest : List Char} :
    ['/', mark] <:+: '/' :: rest ↔ rest.head? = some mark ∨ ['/', mark] <:+: rest := by
  rw [List.infix_cons_iff, List.cons_prefix_cons]
  cases rest with
  | nil => simp
  | cons c rest => simp [List.cons_prefix_cons, eq_comm]

/-! ## Accesses without slashes -/

/-- The names in an access are words; texts to be copied are not accepted. -/
def Symbol.Identified : Symbol → Prop
  | verbatim _ => False
  | hostScalar name | scalar name | vector name | constant name => IsWord name
  | matrix name leadingDimension _ => IsWord name ∧ IsWord leadingDimension

instance : DecidablePred Symbol.Identified
  | .verbatim _ => inferInstanceAs (Decidable False)
  | .hostScalar name | .scalar name | .vector name | .constant name =>
    inferInstanceAs (Decidable (IsWord name))
  | .matrix name leadingDimension _ =>
    inferInstanceAs (Decidable (IsWord name ∧ IsWord leadingDimension))

/-- Both index texts are words. -/
def AccessFormat.Identified (format : AccessFormat) : Prop :=
  IsWord format.first ∧ IsWord format.second

instance : DecidablePred AccessFormat.Identified := fun format =>
  inferInstanceAs (Decidable (IsWord format.first ∧ IsWord format.second))

/-- Every symbol of the table is made of words. -/
def SymbolTable.Identified (table : SymbolTable) : Prop :=
  ∀ entry ∈ table.entries, entry.2.Identified

instance : DecidablePred SymbolTable.Identified := fun table =>
  inferInstanceAs (Decidable (∀ entry ∈ table.entries, entry.2.Identified))

theorem SymbolTable.Identified.get? {table : SymbolTable} (h : table.Identified) {node : NodeId}
    {side : Side} {symbol : Symbol} (hsymbol : table.get? node side = some symbol) :
    symbol.Identified :=
  h _ (mem_entries_of_get? hsymbol)

theorem IsWord.slash_not_mem {t : String} (h : IsWord t) : '/' ∉ t.toList := by
  intro hmem
  have hslash := h.2 '/' hmem
  revert hslash
  decide

theorem AccessFormat.slash_not_mem_laneSuffix (format : AccessFormat) :
    '/' ∉ format.laneSuffix.toList := by
  unfold laneSuffix
  cases format.lane with
  | none => simp
  | some lane =>
    have hdigit : ∀ lane : Fin laneCount, '/' ≠ Nat.digitChar lane := by decide
    simp [hdigit lane]

theorem Symbol.slash_not_mem_render {symbol : Symbol} {format : AccessFormat}
    (hsymbol : symbol.Identified) (hformat : format.Identified) :
    '/' ∉ (symbol.render format).toList := by
  have hfirst := hformat.1.slash_not_mem
  have hsecond := hformat.2.slash_not_mem
  have hlane := format.slash_not_mem_laneSuffix
  cases symbol with
  | verbatim text => exact hsymbol.elim
  | hostScalar name => exact hsymbol.slash_not_mem
  | scalar name => simp [render, IsWord.slash_not_mem hsymbol]
  | vector name => simp [render, IsWord.slash_not_mem hsymbol, hfirst, hlane]
  | matrix name leadingDimension order =>
    have hname := hsymbol.1.slash_not_mem
    have hdimension := hsymbol.2.slash_not_mem
    cases order <;> simp [render, matrixIndex, hname, hdimension, hfirst, hsecond, hlane]
  | constant name => exact hsymbol.slash_not_mem

theorem IsWord.exists_cons {t : String} (h : IsWord t) :
    ∃ c tail, t.toList = c :: tail ∧ c ≠ '*' := by
  obtain ⟨c, tail, hcons⟩ := List.exists_cons_of_ne_nil h.toList_ne_nil
  refine ⟨c, tail, hcons, ?_⟩
  rintro rfl
  have hword := h.2 '*' (hcons ▸ List.mem_cons_self ..)
  revert hword
  decide

/-- Only the access to a scalar argument begins with an asterisk. -/
theorem Symbol.head?_render_iff {symbol : Symbol} {format : AccessFormat}
    (hsymbol : symbol.Identified) :
    (symbol.render format).toList.head? = some '*' ↔ ∃ name, symbol = .scalar name := by
  cases symbol with
  | verbatim text => exact hsymbol.elim
  | scalar name => simp [render]
  | hostScalar name =>
    obtain ⟨c, tail, hname, hc⟩ := IsWord.exists_cons hsymbol
    simp [render, hname, hc]
  | vector name =>
    obtain ⟨c, tail, hname, hc⟩ := IsWord.exists_cons hsymbol
    simp [render, hname, hc]
  | matrix name leadingDimension order =>
    obtain ⟨c, tail, hname, hc⟩ := hsymbol.1.exists_cons
    simp [render, hname, hc]
  | constant name =>
    obtain ⟨c, tail, hname, hc⟩ := IsWord.exists_cons hsymbol
    simp [render, hname, hc]

/-! ## Slashes in a formula -/

namespace Formula

/-- The formula is a leaf with a text that begins with a certain character. -/
def IsLeafWith (mark : Char) : Formula → Prop
  | leaf text => text.toList.head? = some mark
  | absent | result _ | inlined _ _ _ => False

/-- Somewhere a division has such a leaf on its right. -/
def DividesBy (mark : Char) : Formula → Prop
  | absent | leaf _ | result _ => False
  | inlined operator left right =>
    left.DividesBy mark ∨ (operator = .div ∧ right.IsLeafWith mark) ∨ right.DividesBy mark

variable {p : Formula} {mark : Char}

/-- What is no part of a name and no parenthesis, only a leaf begins with. -/
theorem head?_chars_close (hword : isWordChar mark = false) (hopen : mark ≠ '(')
    (hclose : mark ≠ ')') (rest : List Char) :
    (p.chars ++ ')' :: rest).head? = some mark ↔ p.IsLeafWith mark := by
  cases p with
  | absent => simpa [chars, IsLeafWith] using hclose.symm
  | leaf text =>
    cases htext : text.toList with
    | nil => simpa [chars, IsLeafWith, htext] using hclose.symm
    | cons c tail => simp [chars, IsLeafWith, htext]
  | result text => simpa [chars, IsLeafWith] using hopen.symm
  | inlined operator left right =>
    refine iff_of_false ?_ id
    have hcallee := operator.callee_wordChar
    cases hcase : operator.callee with
    | nil => simpa [chars, hcase] using hopen.symm
    | cons c tail =>
      have hc : isWordChar c = true := hcallee c (hcase ▸ List.mem_cons_self ..)
      intro heq
      rw [chars, hcase] at heq
      cases heq
      rw [hword] at hc
      cases hc

theorem slash_not_mem_callee (operator : Operator) : '/' ∉ operator.callee := by
  intro hmem
  have hslash := operator.callee_wordChar '/' hmem
  revert hslash
  decide

theorem slash_not_mem_separator {operator : Operator} (h : operator ≠ .div) (hasRight : Bool) :
    '/' ∉ operator.separator hasRight := by
  revert h hasRight
  cases operator <;> decide

/-- **Where a slash is followed by a certain character:** only where a division meets a leaf. -/
theorem slash_infix_iff (hword : isWordChar mark = false) (hopen : mark ≠ '(')
    (hclose : mark ≠ ')') (hp : p.WellSpelled fun t => '/' ∉ t.toList) (rest : List Char) :
    ['/', mark] <:+: p.chars ++ rest ↔ p.DividesBy mark ∨ ['/', mark] <:+: rest := by
  induction p generalizing rest with
  | absent => simp [chars, DividesBy]
  | leaf text => simpa [chars, DividesBy] using slash_infix_append hp
  | result text =>
    have hpiece : '/' ∉ '(' :: (text.toList ++ [')']) := by
      have htext : '/' ∉ text.toList := hp
      simp [htext]
    simpa [chars, DividesBy] using slash_infix_append hpiece
  | inlined operator left right ihleft ihright =>
    obtain ⟨hinline, hleft, hright⟩ := hp
    have hchars : (inlined operator left right).chars ++ rest =
        (operator.callee ++ ['(']) ++ (left.chars ++
          (operator.separator right.isPresent ++ (right.chars ++ ([')'] ++ rest)))) := by
      simp [chars]
    have hfront : '/' ∉ operator.callee ++ ['('] := by
      simpa using slash_not_mem_callee operator
    have hend : '/' ∉ [')'] := by decide
    rw [hchars, slash_infix_append hfront, ihleft hleft]
    by_cases hdiv : operator = .div
    · subst hdiv
      show left.DividesBy mark ∨ ['/', mark] <:+: '/' :: (right.chars ++ ([')'] ++ rest)) ↔ _
      rw [slash_infix_cons, ihright hright, slash_infix_append hend,
        show [')'] ++ rest = ')' :: rest from rfl, head?_chars_close hword hopen hclose]
      simp only [DividesBy, true_and, or_assoc]
    · rw [slash_infix_append (slash_not_mem_separator hdiv _), ihright hright,
        slash_infix_append hend]
      simp only [DividesBy, hdiv, false_and, false_or, or_assoc]

end Formula

/-! ## Divisions by scalar arguments -/

namespace Context

/-- A division that is met has a leaf on its right, with a symbol whose access begins with a
certain character. -/
def DividesBy (context : Context) (mark : Char) (root : NodeId) : Prop :=
  ∃ id node leaf symbol, context.Meets root id ∧ context.graph.node? id = some node ∧
    node.operation = .canonical .div ∧ node.right = some (.leaf leaf) ∧
    context.symbols.get? id .right = some symbol ∧
    (symbol.render context.format).toList.head? = some mark

/-- A division that is met has a leaf on its right that is an argument pointing at its value. -/
def DividesByScalar (context : Context) (root : NodeId) : Prop :=
  ∃ id node leaf name, context.Meets root id ∧ context.graph.node? id = some node ∧
    node.operation = .canonical .div ∧ node.right = some (.leaf leaf) ∧
    context.symbols.get? id .right = some (.scalar name)

variable {context : Context} {root : NodeId} {formula : Formula} {mark : Char}

theorem dividesBy_of_expands (hcanonical : context.Canonical root) {parent : NodeId} {side : Side}
    {operand : Option Operand} (h : Expands context parent side operand formula)
    (hmeets : ∀ child, operand = some (.node child) → context.Meets root child)
    (hdivides : formula.DividesBy mark) : context.DividesBy mark root := by
  induction h with
  | absent => exact hdivides.elim
  | leaf _ => exact hdivides.elim
  | result _ _ _ => exact hdivides.elim
  | @inlined parent id side node left right hnode hkernel hleft hright ihleft ihright =>
    have hmeet : context.Meets root id := hmeets id rfl
    obtain ⟨hfollowleft, hfollowright⟩ := Walk.Mode.fused_of_inline hkernel
    rcases hdivides with hdivides | ⟨hdiv, hleaf⟩ | hdivides
    · refine ihleft ?_ hdivides
      intro child hchild
      rw [← hfollowleft] at hchild
      exact hmeet.tail ⟨node, hnode, Or.inl hchild⟩
    · obtain ⟨operator, hoperation⟩ := hcanonical id node hmeet hnode
      rw [hoperation, Operation.operator_canonical] at hdiv
      subst hdiv
      cases hcase : node.right with
      | none => rw [hcase] at hright; cases hright; exact hleaf.elim
      | some operand =>
        rw [hcase] at hright
        cases hright with
        | leaf hsymbol => exact ⟨id, node, _, _, hmeet, hnode, hoperation, hcase, hsymbol, hleaf⟩
        | result _ _ _ => exact hleaf.elim
        | inlined _ _ _ _ => exact hleaf.elim
    · refine ihright ?_ hdivides
      intro child hchild
      rw [← hfollowright] at hchild
      exact hmeet.tail ⟨node, hnode, Or.inr hchild⟩

theorem DividesBy.of_denotes (h : context.DividesBy mark root)
    (hdenotes : context.Denotes root formula) : formula.DividesBy mark := by
  obtain ⟨id, node, leaf, symbol, hmeets, hnode, hoperation, hright, hsymbol, hmark⟩ := h
  induction hmeets using ReflTransGen.head_induction_on generalizing formula with
  | refl =>
    have hkernel : node.operation.needsKernel = false := by rw [hoperation]; rfl
    obtain ⟨left, right, rfl, _, hexpands⟩ := hdenotes.exists_inlined hnode hkernel
    rw [hright] at hexpands
    cases hexpands with
    | leaf hsymbol' =>
      rw [hsymbol] at hsymbol'
      cases hsymbol'
      exact Or.inr (Or.inl ⟨by rw [hoperation, Operation.operator_canonical], hmark⟩)
  | head hleads _ ih =>
    obtain ⟨above, habove, hchild⟩ := hleads
    cases hkernel : above.operation.needsKernel with
    | true =>
      obtain ⟨hleft, hright⟩ := Walk.Mode.fused_of_needsKernel hkernel
      rw [hleft, hright] at hchild
      rcases hchild with hchild | hchild <;> cases hchild
    | false =>
      obtain ⟨hleft, hright⟩ := Walk.Mode.fused_of_inline hkernel
      obtain ⟨left, right, rfl, hexpandsLeft, hexpandsRight⟩ :=
        hdenotes.exists_inlined habove hkernel
      rw [hleft, hright] at hchild
      rcases hchild with hchild | hchild
      · rw [Option.some.inj hchild] at hexpandsLeft
        exact Or.inl (ih hexpandsLeft.denotes)
      · rw [hchild] at hexpandsRight
        exact Or.inr (Or.inr (ih hexpandsRight.denotes))

theorem dividesBy_asterisk_iff (hsymbols : context.symbols.Identified) :
    context.DividesBy '*' root ↔ context.DividesByScalar root := by
  constructor
  · rintro ⟨id, node, leaf, symbol, hmeets, hnode, hoperation, hright, hsymbol, hmark⟩
    obtain ⟨name, rfl⟩ := (Symbol.head?_render_iff (hsymbols.get? hsymbol)).1 hmark
    exact ⟨id, node, leaf, name, hmeets, hnode, hoperation, hright, hsymbol⟩
  · rintro ⟨id, node, leaf, name, hmeets, hnode, hoperation, hright, hsymbol⟩
    exact ⟨id, node, leaf, _, hmeets, hnode, hoperation, hright, hsymbol,
      (Symbol.head?_render_iff (hsymbols.get? hsymbol)).2 ⟨name, rfl⟩⟩

theorem not_dividesBy_slash (hsymbols : context.symbols.Identified)
    (hformat : context.format.Identified) : ¬context.DividesBy '/' root := by
  rintro ⟨id, node, leaf, symbol, _, _, _, _, hsymbol, hmark⟩
  exact Symbol.slash_not_mem_render (hsymbols.get? hsymbol) hformat
    (List.mem_of_mem_head? hmark)

end Context

namespace Expression

variable {context : Context} {root : NodeId} {t : String}

/-- The slashes of a text come from divisions. -/
theorem slash_infix_text_iff {mark : Char} (hword : isWordChar mark = false)
    (hopen : mark ≠ '(') (hclose : mark ≠ ')') (hcanonical : context.Canonical root)
    (hsymbols : context.symbols.Identified) (hformat : context.format.Identified)
    (ht : text context root = .ok t) :
    ['/', mark] <:+: t.toList ↔ context.DividesBy mark root := by
  have hrenders : context.Renders (fun shown => '/' ∉ shown.toList) root := by
    intro id side symbol _ hsymbol
    exact Symbol.slash_not_mem_render (hsymbols.get? hsymbol) hformat
  obtain ⟨formula, hdenotes, hspelled, hchars⟩ := exists_formula_of_text hcanonical hrenders ht
  have hslash := Formula.slash_infix_iff hword hopen hclose hspelled []
  rw [List.append_nil, hchars] at hslash
  rw [hslash]
  constructor
  · rintro (hdivides | hinfix)
    · refine Context.dividesBy_of_expands hcanonical hdenotes ?_ hdivides
      intro child hchild
      cases hchild
      exact ReflTransGen.refl
    · cases List.eq_nil_of_infix_nil hinfix
  · intro hdivides
    exact Or.inl (hdivides.of_denotes hdenotes)

/-- **Which texts open a comment.**  Names and index texts are words, and operations have the
usual tags.  Then a text opens a comment exactly when a division has a scalar argument as its
right operand, and the opener is never the one of a line comment. -/
theorem opensComment_iff (hcanonical : context.Canonical root)
    (hsymbols : context.symbols.Identified) (hformat : context.format.Identified)
    (ht : text context root = .ok t) :
    (OpensComment t ↔ context.DividesByScalar root) ∧ ¬['/', '/'] <:+: t.toList := by
  have hasterisk : ['/', '*'] <:+: t.toList ↔ context.DividesByScalar root := by
    rw [slash_infix_text_iff (by decide) (by decide) (by decide) hcanonical hsymbols hformat ht,
      Context.dividesBy_asterisk_iff hsymbols]
  have hslash : ¬['/', '/'] <:+: t.toList := by
    rw [slash_infix_text_iff (by decide) (by decide) (by decide) hcanonical hsymbols hformat ht]
    exact Context.not_dividesBy_slash hsymbols hformat
  exact ⟨by rw [OpensComment, hasterisk, or_iff_left hslash], hslash⟩

/-- A component of an entry divided by a value. -/
def componentQuotient : Context where
  graph := ⟨#[⟨.canonical .div, Walk.anyLeaf, some Walk.anyLeaf⟩]⟩
  symbols := .ofList [((0, .left), .vector "x"), ((0, .right), .hostScalar "a")]
  format := { AccessFormat.standard with lane := some ⟨15, by decide⟩ }

theorem componentQuotient_not_opensComment :
    text componentQuotient 0 = .ok "(x[i].sf/a)" ∧ ¬OpensComment "(x[i].sf/a)" := by
  have htext : text componentQuotient 0 = .ok "(x[i].sf/a)" := by rfl
  have hiff := (opensComment_iff (Context.canonical_of_nodes 0 (by decide)) (by decide)
    (by decide) htext).1
  refine ⟨htext, ?_⟩
  intro hopens
  obtain ⟨id, node, leaf, name, _, _, _, _, hsymbol⟩ := hiff.1 hopens
  have hmem := SymbolTable.mem_entries_of_get? hsymbol
  have hentries : componentQuotient.symbols.entries =
      [((0, .right), .hostScalar "a"), ((0, .left), .vector "x")] := by rfl
  rw [hentries] at hmem
  simp at hmem

/-- A value divided by another one that is passed by a pointer. -/
def scalarQuotient : Context where
  graph := ⟨#[⟨.canonical .div, Walk.anyLeaf, some Walk.anyLeaf⟩]⟩
  symbols := .ofList [((0, .left), .hostScalar "a"), ((0, .right), .scalar "s")]
  format := .standard

theorem scalarQuotient_opensComment :
    scalarQuotient.Canonical 0 ∧ scalarQuotient.symbols.Identified ∧
      scalarQuotient.format.Identified ∧ text scalarQuotient 0 = .ok "(a/*s)" ∧
      OpensComment "(a/*s)" := by
  have htext : text scalarQuotient 0 = .ok "(a/*s)" := by rfl
  have hopens : OpensComment "(a/*s)" := Or.inl ⟨['(', 'a'], ['s', ')'], by rfl⟩
  exact ⟨Context.canonical_of_nodes 0 (by decide), by decide, by decide, htext, hopens⟩

end Expression

end FusedKernel
